import Mathlib.Data.List.Dedup
import Mathlib.Data.String.Basic
import TableFilter.Json.Basic
import TableFilter.Keyed

/-!
# Entries in the order of their keys

* Entries are `InOrder` when their keys increase strictly. Such entries are determined by what is
  read under each key (`InOrder.ext`).
* `sortEntries` puts entries in order and reads the last value of each key, which is what
  `Keyed.collapsed` asks for, without saying how it is reached (`sortEntries_eq_collapsed`).
-/

namespace TableFilter

/-- The keys in order and each once, with its last value. -/
def Keyed.collapsed {α : Type} (entries : List (String × α)) : List (String × α) :=
  ((entries.map (·.1)).dedup.mergeSort (· ≤ ·)).filterMap fun key =>
    (entries.reverse.lookup key).map (key, ·)

namespace Json

variable {α : Type} {key k : String} {value : α} {entries es fs : List (String × α)}

/-- Whether the keys of the entries increase strictly. -/
def InOrder (entries : List (String × α)) : Prop := (entries.map (·.1)).Pairwise (· < ·)

theorem inOrder_nil : InOrder ([] : List (String × α)) := List.Pairwise.nil

theorem inOrder_cons {e : String × α} :
    InOrder (e :: es) ↔ (∀ f ∈ es, e.1 < f.1) ∧ InOrder es := by
  unfold InOrder
  rw [List.map_cons, List.pairwise_cons, List.forall_mem_map]

theorem inOrder_singleton (key : String) (value : α) : InOrder [(key, value)] :=
  List.pairwise_singleton _ _

theorem lookup_eq_none_of_lt (h : ∀ f ∈ es, k < f.1) : es.lookup k = none := by
  rw [List.lookup_eq_none_iff]
  rintro f hf
  simpa using (h f hf).ne

/-- **Entries in order are determined by what is read under each key.** -/
theorem InOrder.ext (he : InOrder es) (hf : InOrder fs) (h : ∀ k, es.lookup k = fs.lookup k) :
    es = fs := by
  induction es generalizing fs with
  | nil =>
    cases fs with
    | nil => rfl
    | cons f fs =>
      obtain ⟨j, b⟩ := f
      exact absurd (h j) (by simp)
  | cons e es ih =>
    obtain ⟨i, a⟩ := e
    obtain ⟨hi, he⟩ := inOrder_cons.1 he
    cases fs with
    | nil => exact absurd (h i) (by simp)
    | cons f fs =>
      obtain ⟨j, b⟩ := f
      obtain ⟨hj, hfs⟩ := inOrder_cons.1 hf
      simp only [Keyed.lookup_cons_pair] at h
      -- The least key of either list is read in the other, so that it cannot be less there.
      have hij : i = j := by
        rcases lt_trichotomy i j with hlt | heq | hlt
        · have := h i
          rw [if_pos rfl, if_neg hlt.ne,
            lookup_eq_none_of_lt fun f hf => hlt.trans (hj f hf)] at this
          exact absurd this (by simp)
        · exact heq
        · have := h j
          rw [if_pos rfl, if_neg hlt.ne,
            lookup_eq_none_of_lt fun f hf => hlt.trans (hi f hf)] at this
          exact absurd this (by simp)
      subst hij
      have hab : a = b := by simpa using h i
      have hrest : es = fs := ih he hfs fun k => by
        by_cases hk : k = i
        · rw [hk, lookup_eq_none_of_lt hi, lookup_eq_none_of_lt hj]
        · simpa [hk] using h k
      rw [hab, hrest]

/-! ### Sorting -/

theorem mem_insertSorted {f : String × α} (h : f ∈ insertSorted key value entries) :
    f = (key, value) ∨ f ∈ entries := by
  induction entries with
  | nil => exact .inl (List.mem_singleton.1 h)
  | cons e rest ih =>
    rw [insertSorted] at h
    split at h
    · simpa using h
    split at h
    · rcases List.mem_cons.1 h with h | h
      · exact .inl h
      · exact .inr (List.mem_cons_of_mem _ h)
    · rcases List.mem_cons.1 h with h | h
      · exact .inr (h ▸ List.mem_cons_self)
      · exact (ih h).imp_right (List.mem_cons_of_mem _)

theorem InOrder.insertSorted (h : InOrder entries) : InOrder (insertSorted key value entries) := by
  induction entries with
  | nil => exact inOrder_singleton key value
  | cons e rest ih =>
    obtain ⟨i, a⟩ := e
    obtain ⟨hi, hrest⟩ := inOrder_cons.1 h
    rw [Json.insertSorted]
    split
    · next hlt =>
      refine inOrder_cons.2 ⟨fun f hf => ?_, h⟩
      rcases List.mem_cons.1 hf with rfl | hf
      · exact hlt
      · exact hlt.trans (hi f hf)
    split
    · next heq => exact inOrder_cons.2 ⟨fun f hf => heq ▸ hi f hf, hrest⟩
    · next hnlt hne =>
      refine inOrder_cons.2 ⟨fun f hf => ?_, ih hrest⟩
      rcases mem_insertSorted hf with rfl | hf
      · exact lt_of_le_of_ne (not_lt.1 hnlt) fun h => hne h.symm
      · exact hi f hf

theorem lookup_insertSorted : (insertSorted key value entries).lookup k =
    if k = key then some value else entries.lookup k := by
  induction entries with
  | nil => rw [insertSorted, Keyed.lookup_cons_pair]
  | cons e rest ih =>
    obtain ⟨i, a⟩ := e
    rw [insertSorted]
    split
    · rw [Keyed.lookup_cons_pair]
    split
    · next heq =>
      subst heq
      simp only [Keyed.lookup_cons_pair]
      split <;> rfl
    · next hne =>
      simp only [Keyed.lookup_cons_pair, ih]
      by_cases hk : k = i
      · rw [if_pos hk, if_pos hk, if_neg fun h => hne (h.symm.trans hk)]
      · rw [if_neg hk, if_neg hk]

theorem sortEntries_append_singleton (entries : List (String × α)) (e : String × α) :
    sortEntries (entries ++ [e]) = insertSorted e.1 e.2 (sortEntries entries) := by
  rw [sortEntries, List.foldl_append]
  rfl

/-- **Sorted entries are in order, and under each key the last value is read.** -/
theorem sortEntries_spec (entries : List (String × α)) :
    InOrder (sortEntries entries) ∧
      ∀ k, (sortEntries entries).lookup k = entries.reverse.lookup k := by
  -- Going on from entries that are in order already, those count where nothing is added.
  suffices ∀ start : List (String × α), InOrder start →
      InOrder (entries.foldl (fun table e => insertSorted e.1 e.2 table) start) ∧
      ∀ k, (entries.foldl (fun table e => insertSorted e.1 e.2 table) start).lookup k =
        (entries.reverse ++ start).lookup k by
    simpa [sortEntries] using this [] inOrder_nil
  induction entries with
  | nil => exact fun start h => ⟨h, fun k => rfl⟩
  | cons e rest ih =>
    intro start h
    obtain ⟨horder, hlookup⟩ := ih _ h.insertSorted
    refine ⟨horder, fun k => (hlookup k).trans ?_⟩
    rw [List.reverse_cons, List.append_assoc, List.lookup_append, List.lookup_append,
      lookup_insertSorted, List.singleton_append, Keyed.lookup_cons_pair]

theorem inOrder_sortEntries (entries : List (String × α)) : InOrder (sortEntries entries) :=
  (sortEntries_spec entries).1

theorem InOrder.lookup_reverse (h : InOrder entries) (k : String) :
    entries.reverse.lookup k = entries.lookup k := by
  induction entries with
  | nil => rfl
  | cons e rest ih =>
    obtain ⟨i, a⟩ := e
    obtain ⟨hi, hrest⟩ := inOrder_cons.1 h
    rw [List.reverse_cons, List.lookup_append, ih hrest, Keyed.lookup_cons_pair,
      Keyed.lookup_cons_pair]
    by_cases hk : k = i
    · rw [hk, lookup_eq_none_of_lt hi]
      simp
    · simp [hk]

/-- Entries that are in order stay as they are. -/
theorem InOrder.sortEntries_eq (h : InOrder entries) : sortEntries entries = entries :=
  (inOrder_sortEntries entries).ext h fun k =>
    ((sortEntries_spec entries).2 k).trans (h.lookup_reverse k)

theorem insertSorted_map {β : Type} (f : α → β) (key : String) (value : α)
    (entries : List (String × α)) :
    insertSorted key (f value) (entries.map fun e => (e.1, f e.2)) =
      (insertSorted key value entries).map fun e => (e.1, f e.2) := by
  induction entries with
  | nil => rfl
  | cons e rest ih =>
    simp only [List.map_cons, insertSorted, ih]
    split
    · rfl
    · split <;> rfl

/-- Sorting commutes with a change of the values. -/
theorem sortEntries_map {β : Type} (f : α → β) (entries : List (String × α)) :
    sortEntries (entries.map fun e => (e.1, f e.2)) =
      (sortEntries entries).map fun e => (e.1, f e.2) := by
  suffices ∀ start : List (String × α),
      (entries.map fun e => (e.1, f e.2)).foldl (fun table e => insertSorted e.1 e.2 table)
          (start.map fun e => (e.1, f e.2)) =
        (entries.foldl (fun table e => insertSorted e.1 e.2 table) start).map
          fun e => (e.1, f e.2) from this []
  induction entries with
  | nil => exact fun start => rfl
  | cons e rest ih =>
    intro start
    rw [List.map_cons, List.foldl_cons, List.foldl_cons]
    rw [← ih (insertSorted e.1 e.2 start), ← insertSorted_map f e.1 e.2 start]

/-! ### Collapsed entries -/

theorem mem_of_mem_collapsed {e : String × α} (h : e ∈ Keyed.collapsed entries) : e ∈ entries := by
  obtain ⟨key, -, he⟩ := List.mem_filterMap.1 h
  obtain ⟨value, hlookup, rfl⟩ := Option.map_eq_some_iff.1 he
  obtain ⟨before, after, heq, -⟩ := List.lookup_eq_some_iff.1 hlookup
  exact List.mem_reverse.1 (heq ▸ List.mem_append_right _ List.mem_cons_self)

theorem lookup_filterMap (keys : List String) (read : String → Option α) (k : String) :
    (keys.filterMap fun key => (read key).map (key, ·)).lookup k =
      if k ∈ keys then read k else none := by
  induction keys with
  | nil => rfl
  | cons i keys ih =>
    rw [List.filterMap_cons]
    by_cases hk : k = i
    · subst hk
      cases h : read k with
      | none =>
        simp only [Option.map_none, ih, List.mem_cons, true_or, if_true, h]
        split <;> rfl
      | some a => simp
    · cases h : read i with
      | none => simp [ih, hk]
      | some a => simp [ih, hk, Keyed.lookup_cons_pair]

theorem inOrder_filterMap {keys : List String} (h : keys.Pairwise (· < ·))
    (read : String → Option α) :
    InOrder (keys.filterMap fun key => (read key).map (key, ·)) := by
  refine List.Pairwise.map _ (fun _ _ h => h) (h.filterMap _ ?_)
  intro i j hij e he f hf
  obtain ⟨a, -, rfl⟩ := Option.map_eq_some_iff.1 he
  obtain ⟨b, -, rfl⟩ := Option.map_eq_some_iff.1 hf
  exact hij

theorem pairwise_lt_keys (entries : List (String × α)) :
    ((entries.map (·.1)).dedup.mergeSort (· ≤ ·)).Pairwise (· < ·) := by
  have htrans (a b c : String) (hab : decide (a ≤ b) = true) (hbc : decide (b ≤ c) = true) :
      decide (a ≤ c) = true :=
    decide_eq_true ((of_decide_eq_true hab).trans (of_decide_eq_true hbc))
  have htotal (a b : String) : (decide (a ≤ b) || decide (b ≤ a)) = true := by
    simpa using le_total a b
  have hle : ((entries.map (·.1)).dedup.mergeSort (· ≤ ·)).Pairwise (· ≤ ·) := by
    simpa using List.pairwise_mergeSort htrans htotal (entries.map (·.1)).dedup
  have hne : ((entries.map (·.1)).dedup.mergeSort (· ≤ ·)).Nodup :=
    (List.mergeSort_perm _ _).nodup_iff.2 (List.nodup_dedup _)
  exact hle.imp₂ (fun a b hab hne => lt_of_le_of_ne hab hne) hne

/-- **Sorting collapses:** it gives the keys in order, each once with its last value. -/
theorem sortEntries_eq_collapsed (entries : List (String × α)) :
    sortEntries entries = Keyed.collapsed entries := by
  refine (inOrder_sortEntries entries).ext (inOrder_filterMap (pairwise_lt_keys entries) _)
    fun k => ?_
  rw [(sortEntries_spec entries).2 k]
  refine Eq.symm ((lookup_filterMap _ _ k).trans ?_)
  split
  · rfl
  · next h =>
    rw [List.mem_mergeSort, List.mem_dedup] at h
    refine (List.lookup_eq_none_iff.2 fun e he => ?_).symm
    rw [List.mem_reverse] at he
    simpa using fun hk : k = e.1 => h (hk ▸ List.mem_map_of_mem he)

end Json

end TableFilter
