import TableFilter.Proofs.Json.Sorted
import TableFilter.Proofs.Keyed
import TableFilter.Proofs.Query.Changes

/-!
# Patches of the same content

Whether an output has been committed before is asked of its content alone, the entries in the order
of their keys. Nothing is lost by that, whatever the patches went through.

* Setting keys one after the other leaves each key once, with the value that was set last
  (`Patch.entries_ofList`, `Patch.get?_ofList`).
* Where keys stand once the order among them settles the order of the entries, so that the content
  is in order and reads as the patch does (`Patch.sorted_eq_sortEntries`).
* So patches have the same content exactly if they say the same of every key
  (`Patch.content_eq_iff`, `Patch.content_ofList_eq_iff`), and then the same parameters show them
  (`Params.shows_congr_content`).
-/

namespace TableFilter

namespace Patch

variable {p q : Patch} {e pair : String × String} {ps : List (String × String)}

/-! ### Settings -/

theorem entries_ofList (settings : List (String × String)) :
    (ofList settings).entries = Keyed.ofList settings := by
  induction settings using List.reverseRecOn with
  | nil => rfl
  | append_singleton settings e ih =>
    rw [Keyed.ofList_append_singleton, ← ih, ofList, List.foldl_append]
    rfl

/-- Of pairs that are set one after the other the last one with a key counts. -/
theorem get?_ofList (settings : List (String × String)) (k : String) :
    (ofList settings).get? k = settings.reverse.lookup k := by
  rw [get?, entries_ofList, Keyed.lookup_ofList]

/-! ### The order of the entries -/

theorem mem_insertPair : e ∈ insertPair pair ps ↔ e = pair ∨ e ∈ ps := by
  induction ps with
  | nil => simp [insertPair]
  | cons p ps ih =>
    rw [insertPair]
    split
    · rw [List.mem_cons]
    · rw [List.mem_cons, ih, List.mem_cons]
      exact or_left_comm

theorem mem_sorted : e ∈ p.sorted ↔ e ∈ p.entries := by
  unfold sorted
  induction p.entries with
  | nil => rfl
  | cons f rest ih => rw [List.foldr_cons, mem_insertPair, ih, List.mem_cons]

/-- Values are compared under equal keys only. -/
theorem pairBefore_of_ne {a b : String × String} (h : a.1 ≠ b.1) :
    pairBefore a b = decide (a.1 < b.1) := by
  rw [pairBefore, beq_false_of_ne h, Bool.false_and, Bool.or_false]

/-- A pair of a new key goes where its key does. -/
theorem insertPair_of_notMem (h : pair.1 ∉ ps.map (·.1)) :
    insertPair pair ps = Json.insertSorted pair.1 pair.2 ps := by
  induction ps with
  | nil => rfl
  | cons p ps ih =>
    rw [List.map_cons, List.mem_cons, not_or] at h
    simp only [insertPair, Json.insertSorted, pairBefore_of_ne h.1, decide_eq_true_eq,
      if_neg h.1, ih h.2]

/-- **Entries with different keys are sorted by their keys.** -/
theorem sorted_eq_sortEntries (h : (p.entries.map (·.1)).Nodup) :
    p.sorted = Json.sortEntries p.entries.reverse := by
  obtain ⟨entries⟩ := p
  induction entries with
  | nil => rfl
  | cons e rest ih =>
    rw [List.map_cons, List.nodup_cons] at h
    have hnew : e.1 ∉ (sorted ⟨rest⟩).map (·.1) := fun hmem => by
      obtain ⟨f, hf, heq⟩ := List.mem_map.1 hmem
      exact h.1 (heq ▸ List.mem_map_of_mem (mem_sorted.1 hf))
    calc
      sorted ⟨e :: rest⟩ = insertPair e (sorted ⟨rest⟩) := rfl
      _ = Json.insertSorted e.1 e.2 (sorted ⟨rest⟩) := insertPair_of_notMem hnew
      _ = Json.insertSorted e.1 e.2 (Json.sortEntries rest.reverse) := by rw [ih h.2]
      _ = Json.sortEntries (e :: rest).reverse := by
        rw [List.reverse_cons, Json.sortEntries_append_singleton]

theorem inOrder_sorted (h : (p.entries.map (·.1)).Nodup) : Json.InOrder p.sorted := by
  rw [sorted_eq_sortEntries h]
  exact Json.inOrder_sortEntries _

theorem lookup_sorted (h : (p.entries.map (·.1)).Nodup) (k : String) :
    p.sorted.lookup k = p.get? k := by
  rw [sorted_eq_sortEntries h, (Json.sortEntries_spec _).2 k, List.reverse_reverse, get?]

/-! ### The content -/

/-- **Patches whose keys stand once have the same content exactly if they say the same of every
key.** -/
theorem content_eq_iff (hp : (p.entries.map (·.1)).Nodup) (hq : (q.entries.map (·.1)).Nodup) :
    p.content = q.content ↔ ∀ k, p.get? k = q.get? k := by
  rw [content, content, Content.mk.injEq]
  constructor
  · intro h k
    rw [← lookup_sorted hp, h, lookup_sorted hq]
  · intro h
    refine (inOrder_sorted hp).ext (inOrder_sorted hq) fun k => ?_
    rw [lookup_sorted hp, h k, lookup_sorted hq]

/-- **However patches were set, they have the same content exactly if they say the same of every
key,** which is the value that the key was given last, if any. The order in which keys were first
set and the values that were overwritten are of no account. -/
theorem content_ofList_eq_iff (settings others : List (String × String)) :
    ((ofList settings).content = (ofList others).content ↔
        ∀ k, (ofList settings).get? k = (ofList others).get? k) ∧
      ∀ k, (ofList settings).get? k = settings.reverse.lookup k :=
  ⟨content_eq_iff (nodup_ofList settings) (nodup_ofList others), get?_ofList settings⟩

/-- A value that was overwritten and another order of the keys. -/
example : (ofList [("b", "1"), ("a", "2"), ("b", "3")]).content =
    (ofList [("a", "2"), ("b", "3")]).content := by decide

/-- Clearing a key is not the same as saying nothing of it. -/
example : (ofList [("a", "1"), ("b", "")]).content ≠ (ofList [("a", "1")]).content := by decide

end Patch

/-- Whether a patch is shown is a matter of its content. -/
theorem Params.shows_congr_content {a b : Patch} (h : a.content = b.content) (p : Params) :
    p.shows a = p.shows b := by
  have hmem (e : String × String) : e ∈ a.entries ↔ e ∈ b.entries := by
    have hsorted : a.sorted = b.sorted := congrArg Patch.Content.sorted h
    rw [← Patch.mem_sorted, hsorted, Patch.mem_sorted]
  rw [Bool.eq_iff_iff, shows, shows, List.all_eq_true, List.all_eq_true]
  exact forall_congr' fun e => imp_congr_left (hmem e)

end TableFilter
