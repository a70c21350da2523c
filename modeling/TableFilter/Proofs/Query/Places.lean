import TableFilter.Proofs.Query.Changes

/-!
# Where a patch puts pairs

After a patch there stands what it leaves of the pairs before (`Params.kept`), in their old order
and with a key that is given a value at its first place, and then the new keys in the order of the
patch (`Params.added`): `Params.pairs_apply`. The induction is on the entries of the patch, its first
change being made before the others: what that one leaves, the others find (`Params.kept_change`).
-/

namespace TableFilter

namespace Params

variable {keys : List String} {key k : String} {pairs xs ys : List (String × String)}
  {patch : Patch}

/-- What a patch leaves of pairs: those of other keys, and the first pair of each key that it gives
a value, with that value. -/
def kept (patch : Patch) : List (String × String) → List (String × String)
  | [] => []
  | (k, v) :: rest =>
    match patch.get? k with
    | none => (k, v) :: kept patch rest
    | some u =>
      if u.isEmpty then (kept patch rest).filter (·.1 ≠ k)
      else (k, u) :: (kept patch rest).filter (·.1 ≠ k)

/-- The entries of a patch that give a value to a key that has no pair. -/
def added (patch : Patch) (p : Params) : List (String × String) :=
  patch.entries.filter fun e => !e.2.isEmpty && !p.contains e.1

theorem filter_ne_cons_self (key v : String) (pairs : List (String × String)) :
    ((key, v) :: pairs).filter (·.1 ≠ key) = pairs.filter (·.1 ≠ key) :=
  List.filter_cons_of_neg (by simp)

theorem filter_ne_cons_of_ne (h : k ≠ key) (v : String) (pairs : List (String × String)) :
    ((k, v) :: pairs).filter (·.1 ≠ key) = (k, v) :: pairs.filter (·.1 ≠ key) :=
  List.filter_cons_of_pos (by simpa using h)

theorem filter_ne_self (key : String) (pairs : List (String × String)) :
    (pairs.filter (·.1 ≠ key)).filter (·.1 ≠ key) = pairs.filter (·.1 ≠ key) := by
  simp only [List.filter_filter, Bool.and_self]

theorem filter_ne_comm (k key : String) (pairs : List (String × String)) :
    (pairs.filter (·.1 ≠ k)).filter (·.1 ≠ key) = (pairs.filter (·.1 ≠ key)).filter (·.1 ≠ k) := by
  rw [List.filter_filter, List.filter_filter]
  exact List.filter_congr fun _ _ => Bool.and_comm _ _

theorem mem_keys_filter_ne : k ∈ (pairs.filter (·.1 ≠ key)).map (·.1) ↔
    k ≠ key ∧ k ∈ pairs.map (·.1) := by
  simp only [List.mem_map, List.mem_filter, decide_eq_true_eq]
  constructor
  · rintro ⟨e, ⟨he, hne⟩, rfl⟩
    exact ⟨hne, e, he, rfl⟩
  · rintro ⟨hne, e, he, rfl⟩
    exact ⟨e, ⟨he, hne⟩, rfl⟩

/-- Dropping a key and making a patch go by each other. -/
theorem kept_filter_ne (patch : Patch) (key : String) (pairs : List (String × String)) :
    kept patch (pairs.filter (·.1 ≠ key)) = (kept patch pairs).filter (·.1 ≠ key) := by
  induction pairs with
  | nil => rfl
  | cons e rest ih =>
    obtain ⟨k, v⟩ := e
    by_cases hk : k = key
    · subst hk
      rw [filter_ne_cons_self, ih, kept]
      cases patch.get? k with
      | none => exact (filter_ne_cons_self k v _).symm
      | some u =>
        dsimp only
        split
        · exact (filter_ne_self k _).symm
        · rw [filter_ne_cons_self, filter_ne_self]
    · rw [filter_ne_cons_of_ne hk, kept, kept, ih]
      cases patch.get? k with
      | none => exact (filter_ne_cons_of_ne hk v _).symm
      | some u =>
        dsimp only
        split
        · exact filter_ne_comm key k _
        · rw [filter_ne_cons_of_ne hk, filter_ne_comm]

theorem kept_congr {other : Patch} (h : ∀ k ∈ pairs.map (·.1), patch.get? k = other.get? k) :
    kept patch pairs = kept other pairs := by
  induction pairs with
  | nil => rfl
  | cons e rest ih =>
    rw [List.map_cons, List.forall_mem_cons] at h
    rw [kept, kept, h.1, ih h.2]

theorem filter_kept_cons (e : String × String) (rest pairs : List (String × String)) :
    (kept ⟨e :: rest⟩ pairs).filter (·.1 ≠ e.1) = (kept ⟨rest⟩ pairs).filter (·.1 ≠ e.1) := by
  rw [← kept_filter_ne, ← kept_filter_ne]
  refine kept_congr fun k hk => ?_
  rw [Patch.get?_cons, if_neg (mem_keys_filter_ne.1 hk).1]

theorem kept_cons_of_notMem {e : String × String} {rest : List (String × String)}
    (h : e.1 ∉ pairs.map (·.1)) : kept ⟨e :: rest⟩ pairs = kept ⟨rest⟩ pairs :=
  kept_congr fun k hk => by rw [Patch.get?_cons, if_neg (ne_of_mem_of_not_mem hk h)]

/-- A key that is set first, where it has a pair. -/
theorem kept_setIn {e : String × String} {rest : List (String × String)}
    (hrest : Patch.get? ⟨rest⟩ e.1 = none) (he : e.2.isEmpty = false)
    (h : e.1 ∈ pairs.map (·.1)) :
    kept ⟨rest⟩ (setIn e.1 e.2 pairs) = kept ⟨e :: rest⟩ pairs := by
  obtain ⟨key, value⟩ := e
  induction pairs with
  | nil => cases h
  | cons f tail ih =>
    obtain ⟨k, v⟩ := f
    by_cases hk : k = key
    · subst hk
      have hfirst : Patch.get? ⟨(k, value) :: rest⟩ k = some value := by
        rw [Patch.get?_cons, if_pos rfl]
      rw [setIn, if_pos rfl, kept, kept, hrest, hfirst, kept_filter_ne]
      dsimp only at he ⊢
      rw [he, filter_kept_cons (k, value)]
      rfl
    · rw [List.map_cons, List.mem_cons] at h
      rw [setIn, if_neg hk, kept, kept, Patch.get?_cons, if_neg hk,
        ih (h.resolve_left (Ne.symm hk))]

/-- The keys that are left are those that the patch does not clear. -/
theorem mem_keys_kept :
    k ∈ (kept patch pairs).map (·.1) ↔ patch.get? k ≠ some "" ∧ k ∈ pairs.map (·.1) := by
  induction pairs with
  | nil => simp [kept]
  | cons e rest ih =>
    obtain ⟨key, v⟩ := e
    rw [kept, List.map_cons, List.mem_cons]
    cases hkey : patch.get? key with
    | none =>
      rw [List.map_cons, List.mem_cons, ih]
      by_cases hk : k = key
      · simp [hk, hkey]
      · simp [hk]
    | some u =>
      dsimp only
      split
      · next hu =>
        rw [String.isEmpty_iff] at hu
        rw [mem_keys_filter_ne, ih]
        by_cases hk : k = key
        · simp [hk, hkey, hu]
        · simp [hk]
      · next hu =>
        rw [String.isEmpty_iff] at hu
        rw [List.map_cons, List.mem_cons, mem_keys_filter_ne, ih]
        by_cases hk : k = key
        · simp [hk, hkey, hu]
        · simp [hk]

/-- A key that is cleared first. -/
theorem kept_filter_of_isEmpty {e : String × String} (rest : List (String × String))
    (he : e.2.isEmpty = true) :
    kept ⟨rest⟩ (pairs.filter (·.1 ≠ e.1)) = kept ⟨e :: rest⟩ pairs := by
  rw [kept_filter_ne, ← filter_kept_cons]
  refine filter_ne_eq_self fun hmem => ?_
  rw [mem_keys_kept, Patch.get?_cons, if_pos rfl, String.isEmpty_iff.1 he] at hmem
  exact hmem.1 rfl

/-- Pairs that come later lose the keys that the patch mentions and that came before. -/
theorem kept_append (patch : Patch) (xs ys : List (String × String)) :
    kept patch (xs ++ ys) = kept patch xs ++
      (kept patch ys).filter fun e => patch.get? e.1 = none ∨ e.1 ∉ xs.map (·.1) := by
  induction xs with
  | nil =>
    rw [List.nil_append, kept, List.nil_append]
    exact (List.filter_eq_self.2 fun e _ => by simp).symm
  | cons e rest ih =>
    obtain ⟨key, v⟩ := e
    rw [List.cons_append, kept, kept, ih]
    cases hkey : patch.get? key with
    | none =>
      have hsame : ∀ e ∈ kept patch ys,
          decide (patch.get? e.1 = none ∨ e.1 ∉ rest.map (·.1)) =
            decide (patch.get? e.1 = none ∨ e.1 ∉ ((key, v) :: rest).map (·.1)) := by
        intro e _
        simp only [List.map_cons, List.mem_cons]
        by_cases he : e.1 = key <;> simp [he, hkey]
      rw [List.filter_congr hsame, List.cons_append]
    | some u =>
      have hsame : ∀ e ∈ kept patch ys,
          (decide (e.1 ≠ key) && decide (patch.get? e.1 = none ∨ e.1 ∉ rest.map (·.1))) =
            decide (patch.get? e.1 = none ∨ e.1 ∉ ((key, v) :: rest).map (·.1)) := by
        intro e _
        simp only [List.map_cons, List.mem_cons]
        by_cases he : e.1 = key <;> simp [he, hkey]
      rw [List.filter_append, List.filter_filter, List.filter_congr hsame]
      dsimp only
      split <;> rfl

theorem outside_kept (h : ∀ e ∈ patch.entries, e.1 ∈ keys) (pairs : List (String × String)) :
    (kept patch pairs).filter (fun e => e.1 ∉ keys) = pairs.filter fun e => e.1 ∉ keys := by
  induction pairs with
  | nil => rfl
  | cons e rest ih =>
    obtain ⟨key, v⟩ := e
    rw [kept]
    cases hkey : patch.get? key with
    | none => rw [List.filter_cons, List.filter_cons, ih]
    | some u =>
      have hmem : key ∈ keys := h _ (Keyed.mem_of_lookup_eq_some hkey)
      have hrest : ((kept patch rest).filter (·.1 ≠ key)).filter (fun e => e.1 ∉ keys) =
          rest.filter fun e => e.1 ∉ keys := by
        rw [List.filter_filter, ← ih]
        refine List.filter_congr fun e _ => ?_
        by_cases he : e.1 = key <;> simp [he, hmem]
      rw [List.filter_cons_of_neg (by simpa using hmem)]
      dsimp only
      split
      · exact hrest
      · rw [List.filter_cons_of_neg (by simpa using hmem), hrest]

theorem kept_empty (pairs : List (String × String)) : kept ⟨[]⟩ pairs = pairs := by
  induction pairs with
  | nil => rfl
  | cons e rest ih => exact congrArg (e :: ·) ih

theorem contains_iff {p : Params} : p.contains k = true ↔ k ∈ p.pairs.map (·.1) :=
  Keyed.lookup_isSome_iff

theorem contains_change {p : Params} {e : String × String} (h : k ≠ e.1) :
    (p.change e).contains k = p.contains k := by
  unfold contains get? change
  split
  · rw [remove, lookup_filter, if_neg h]
  · rw [set, lookup_setIn, if_neg h]

/-- A change that is made first. -/
theorem kept_change {e : String × String} {rest : List (String × String)}
    (h : Patch.get? ⟨rest⟩ e.1 = none) (p : Params) :
    kept ⟨rest⟩ (p.change e).pairs = kept ⟨e :: rest⟩ p.pairs ++ added ⟨[e]⟩ p := by
  unfold change added
  by_cases he : e.2.isEmpty = true
  · rw [if_pos he, remove, kept_filter_of_isEmpty rest he, List.filter_cons_of_neg (by simp [he]),
      List.filter_nil, List.append_nil]
  rw [if_neg he, set]
  rw [Bool.not_eq_true] at he
  by_cases hmem : e.1 ∈ p.pairs.map (·.1)
  · rw [List.filter_cons_of_neg (by simp [contains_iff.2 hmem]), List.filter_nil, List.append_nil,
      kept_setIn h he hmem]
  · have hnew : p.contains e.1 = false := by
      rw [← Bool.not_eq_true, contains_iff]
      exact hmem
    have hlast : kept ⟨rest⟩ [e] = [e] := by
      rw [kept, h]
      rfl
    rw [List.filter_cons_of_pos (by simp [he, hnew]), setIn_of_notMem hmem, kept_append,
      hlast, kept_cons_of_notMem hmem, List.filter_cons_of_pos (by simp [h])]
    rfl

/-- **Parameters after a patch.** What is left of the pairs before stands in its old order, a key
that is given a value at its first place; then come the new keys in the order of the patch. -/
theorem pairs_apply (h : (patch.entries.map (·.1)).Nodup) (p : Params) :
    (p.apply patch).pairs = kept patch p.pairs ++ added patch p := by
  obtain ⟨entries⟩ := patch
  unfold apply
  induction entries generalizing p with
  | nil => rw [kept_empty]; exact (List.append_nil _).symm
  | cons e rest ih =>
    rw [List.map_cons, List.nodup_cons] at h
    have hrest : Patch.get? ⟨rest⟩ e.1 = none := Patch.get?_eq_none_iff.2 h.1
    have hadded : added ⟨rest⟩ (p.change e) = added ⟨rest⟩ p := by
      refine List.filter_congr fun f hf => ?_
      rw [contains_change (ne_of_mem_of_not_mem (List.mem_map_of_mem hf) h.1)]
    have hcons : added ⟨e :: rest⟩ p = added ⟨[e]⟩ p ++ added ⟨rest⟩ p :=
      List.filter_append [e] rest
    rw [List.foldl_cons, ih _ h.2, kept_change hrest, hadded, hcons, List.append_assoc]

/-- The first pair of a key that a patch gives a value is the one that stays, and what stands before
and after it does so still. -/
theorem kept_first {v : String} (h : patch.get? k = some v) (hv : v ≠ "")
    (hxs : k ∉ xs.map (·.1)) (w : String) (ys : List (String × String)) :
    ∃ back, kept patch (xs ++ (k, w) :: ys) = kept patch xs ++ (k, v) :: back ∧
      ∀ keys : List String, (∀ e ∈ patch.entries, e.1 ∈ keys) →
        back.filter (fun e => e.1 ∉ keys) = ys.filter fun e => e.1 ∉ keys := by
  have hne : ¬v.isEmpty = true := by simpa using hv
  have hfirst : kept patch ((k, w) :: ys) = (k, v) :: (kept patch ys).filter (·.1 ≠ k) := by
    rw [kept, h]
    exact if_neg hne
  refine ⟨_, by rw [kept_append, hfirst, List.filter_cons_of_pos (by simp [hxs])], ?_⟩
  intro keys hkeys
  rw [← outside_kept hkeys ys, List.filter_filter, List.filter_filter]
  refine List.filter_congr fun e _ => ?_
  by_cases he : e.1 ∈ keys
  · simp [he]
  · have hnone : patch.get? e.1 = none := by
      rw [Patch.get?_eq_none_iff, List.mem_map]
      rintro ⟨f, hf, hfe⟩
      exact he (hfe ▸ hkeys f hf)
    have hek : e.1 ≠ k := by
      rintro rfl
      rw [h] at hnone
      cases hnone
    simp [he, hnone, hek]

/-- **Where a patch puts pairs.** The parameters of any text are read again after any settings were
written to them. They show the settings, and the pairs of all other keys are the same in the same
order. A key that is given a value has that one pair. It stands at the key's first place, that is,
with the pairs of other keys before and after it that were there, and with those set keys before it
that came first before it; a key that is new comes after all that were there, in the order of the
settings. A cleared key is gone, and the settings change nothing any more. -/
theorem apply_places (query : String) (settings : List (String × String)) :
    let patch := Patch.ofList settings
    let keys := patch.entries.map (·.1)
    let p := parse query
    let r := parse (p.apply patch).text
    r.shows patch = true ∧
      r.outside keys = p.outside keys ∧
      (∀ k v, patch.get? k = some v → v ≠ "" →
        r.pairs.filter (·.1 = k) = [(k, v)] ∧
        ∀ before w after, p.pairs = before ++ (k, w) :: after → k ∉ before.map (·.1) →
          ∃ front back, r.pairs = front ++ (k, v) :: back ∧
            front.filter (fun e => e.1 ∉ keys) = before.filter (fun e => e.1 ∉ keys) ∧
            back.filter (fun e => e.1 ∉ keys) = after.filter (fun e => e.1 ∉ keys) ∧
            ∀ j u, patch.get? j = some u → u ≠ "" →
              (j ∈ front.map (·.1) ↔ j ∈ before.map (·.1))) ∧
      (∃ earlier, r.pairs = earlier ++ added patch p ∧ ∀ e ∈ earlier, p.contains e.1) ∧
      (∀ k, patch.get? k = some "" → k ∉ r.pairs.map (·.1)) ∧
      r.apply patch = r := by
  intro patch keys p r
  have hnodup := Patch.nodup_ofList settings
  have hr : r = p.apply patch := parse_text _
  have hkeys : ∀ e ∈ patch.entries, e.1 ∈ keys := fun e he => List.mem_map_of_mem he
  have hpairs : r.pairs = kept patch p.pairs ++ added patch p := by
    rw [hr, pairs_apply hnodup]
  refine ⟨?_, ?_, ?_, ?_, ?_, ?_⟩
  · rw [hr]
    exact shows_apply hnodup p
  · rw [hr]
    exact outside_apply hkeys p
  · intro k v hk hv
    refine ⟨?_, ?_⟩
    · rw [hr, filter_apply hnodup, hk]
      exact if_neg (by simpa using hv)
    intro before w after hp hbefore
    obtain ⟨back, hback, hafter⟩ := kept_first hk hv hbefore w after
    rw [← hp] at hback
    refine ⟨kept patch before, back ++ added patch p, ?_, outside_kept hkeys before, ?_, ?_⟩
    · rw [hpairs, hback, List.append_assoc, List.cons_append]
    · have hnone : (added patch p).filter (fun e => e.1 ∉ keys) = [] := by
        rw [List.filter_eq_nil_iff]
        intro e he
        simpa using hkeys e (List.mem_filter.1 he |>.1)
      rw [List.filter_append, hnone, List.append_nil, hafter keys hkeys]
    · intro j u hj hu
      rw [mem_keys_kept, hj, Ne, Option.some.injEq]
      exact and_iff_right hu
  · refine ⟨kept patch p.pairs, hpairs, fun e he => ?_⟩
    exact contains_iff.2 (mem_keys_kept.1 (List.mem_map_of_mem he)).2
  · intro k hk
    rw [← filter_key_eq_nil_iff, hr, filter_apply hnodup, hk]
    rfl
  · rw [hr]
    exact apply_apply hnodup p

end Params

end TableFilter
