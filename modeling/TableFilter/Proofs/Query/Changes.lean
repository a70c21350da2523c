import TableFilter.Proofs.Query.Params

/-!
# What a patch does to pairs

* It leaves the pairs of keys that it does not mention where they are (`Params.outside_apply`).
* There is one pair of each key that it gives a value, and none of each key that it clears
  (`Params.filter_apply`). Applying it again therefore changes nothing (`Params.apply_apply`).

Each is a fact of one change first (`Params.outside_change`, `Params.filter_change`), and of a patch
by induction on its entries.
-/

namespace TableFilter

namespace Patch

/-- What a patch says of a key by its first entry and the others. -/
theorem get?_cons (e : String × String) (rest : List (String × String)) (k : String) :
    get? ⟨e :: rest⟩ k = if k = e.1 then some e.2 else get? ⟨rest⟩ k :=
  Keyed.lookup_cons_pair k e.1 e.2 rest

theorem get?_eq_none_iff {patch : Patch} {k : String} :
    patch.get? k = none ↔ k ∉ patch.entries.map (·.1) := by
  rw [get?, ← Option.not_isSome_iff_eq_none, Keyed.lookup_isSome_iff]

theorem nodup_ofList (settings : List (String × String)) :
    ((ofList settings).entries.map (·.1)).Nodup :=
  nodup_foldl_set settings id List.nodup_nil

end Patch

namespace Params

variable {keys : List String} {key value k : String} {pairs xs ys : List (String × String)}

/-! ### Pairs of other keys -/

/-- The pairs whose key is not among some keys, in order. -/
def outside (keys : List String) (p : Params) : List (String × String) :=
  p.pairs.filter fun e => e.1 ∉ keys

theorem filter_setIn {key : String} (h : key ∈ keys) (value : String)
    (pairs : List (String × String)) :
    (setIn key value pairs).filter (fun e => e.1 ∉ keys) = pairs.filter fun e => e.1 ∉ keys := by
  induction pairs with
  | nil => simp [setIn, h]
  | cons e rest ih =>
    obtain ⟨k, v⟩ := e
    rw [setIn]
    split
    · next hk =>
      subst hk
      -- The pairs dropped after the first one have the key, so they are none of the others.
      have hrest (e : String × String) :
          (decide (e.1 ∉ keys) && decide (e.1 ≠ k)) = decide (e.1 ∉ keys) := by
        by_cases he : e.1 = k <;> simp [he, h]
      rw [List.filter_cons_of_neg (by simpa using h), List.filter_cons_of_neg (by simpa using h),
        List.filter_filter]
      exact List.filter_congr fun e _ => hrest e
    · rw [List.filter_cons, List.filter_cons, ih]

theorem outside_change {e : String × String} (h : e.1 ∈ keys) (p : Params) :
    (p.change e).outside keys = p.outside keys := by
  unfold change
  split
  · rw [outside, remove, List.filter_filter]
    refine List.filter_congr fun f _ => ?_
    by_cases hf : f.1 = e.1 <;> simp [hf, h]
  · exact filter_setIn h e.2 p.pairs

/-- **A patch leaves the pairs of keys that it does not mention where they are.** -/
theorem outside_apply {patch : Patch} (h : ∀ e ∈ patch.entries, e.1 ∈ keys) (p : Params) :
    (p.apply patch).outside keys = p.outside keys := by
  unfold apply
  generalize patch.entries = entries at h
  induction entries generalizing p with
  | nil => rfl
  | cons e rest ih =>
    rw [List.foldl_cons, ih _ fun f hf => h f (List.mem_cons_of_mem e hf),
      outside_change (h e List.mem_cons_self)]

/-! ### Pairs of a key that is mentioned -/

theorem filter_ne_eq_self (h : key ∉ pairs.map (·.1)) : pairs.filter (·.1 ≠ key) = pairs := by
  refine List.filter_eq_self.2 fun e he => ?_
  have hne : e.1 ≠ key := fun heq => h (heq ▸ List.mem_map_of_mem he)
  simpa using hne

/-- A new key comes last. -/
theorem setIn_of_notMem (h : key ∉ pairs.map (·.1)) (value : String) :
    setIn key value pairs = pairs ++ [(key, value)] := by
  induction pairs with
  | nil => rfl
  | cons e rest ih =>
    rw [List.map_cons, List.mem_cons, not_or] at h
    rw [setIn, if_neg (Ne.symm h.1), ih h.2, List.cons_append]

/-- A key is set at its first place, and stands nowhere after it. -/
theorem setIn_append_cons (h : key ∉ xs.map (·.1)) (w value : String) :
    setIn key value (xs ++ (key, w) :: ys) = xs ++ (key, value) :: ys.filter (·.1 ≠ key) := by
  induction xs with
  | nil => rw [List.nil_append, setIn, if_pos rfl, List.nil_append]
  | cons e rest ih =>
    rw [List.map_cons, List.mem_cons, not_or] at h
    rw [List.cons_append, setIn, if_neg (Ne.symm h.1), ih h.2, List.cons_append]

/-- The first place of a key. -/
theorem exists_first (h : key ∈ pairs.map (·.1)) :
    ∃ xs w ys, pairs = xs ++ (key, w) :: ys ∧ key ∉ xs.map (·.1) := by
  induction pairs with
  | nil => cases h
  | cons e rest ih =>
    obtain ⟨k, w⟩ := e
    by_cases hk : key = k
    · exact ⟨[], w, rest, by rw [hk, List.nil_append], List.not_mem_nil⟩
    · rw [List.map_cons, List.mem_cons] at h
      obtain ⟨xs, w', ys, rfl, hxs⟩ := ih (h.resolve_left hk)
      refine ⟨(k, w) :: xs, w', ys, rfl, ?_⟩
      rw [List.map_cons, List.mem_cons, not_or]
      exact ⟨hk, hxs⟩

theorem filter_key_eq_nil_iff : pairs.filter (·.1 = key) = [] ↔ key ∉ pairs.map (·.1) := by
  rw [List.filter_eq_nil_iff, List.mem_map, not_exists]
  simp

/-- A key that is set has one pair. -/
theorem filter_setIn_self (key value : String) (pairs : List (String × String)) :
    (setIn key value pairs).filter (·.1 = key) = [(key, value)] := by
  by_cases h : key ∈ pairs.map (·.1)
  · obtain ⟨xs, w, ys, rfl, hxs⟩ := exists_first h
    have hys : (ys.filter (·.1 ≠ key)).filter (·.1 = key) = [] := by
      rw [List.filter_filter, List.filter_eq_nil_iff]
      simp
    rw [setIn_append_cons hxs, List.filter_append, filter_key_eq_nil_iff.2 hxs, List.nil_append,
      List.filter_cons_of_pos (by simp), hys]
  · rw [setIn_of_notMem h, List.filter_append, filter_key_eq_nil_iff.2 h, List.nil_append,
      List.filter_cons_of_pos (by simp), List.filter_nil]

theorem filter_key_outside (h : k ∉ keys) (p : Params) :
    (p.outside keys).filter (·.1 = k) = p.pairs.filter (·.1 = k) := by
  rw [outside, List.filter_filter]
  refine List.filter_congr fun e _ => ?_
  by_cases he : e.1 = k <;> simp [he, h]

/-- After a change its key has one pair, or none if it was cleared. -/
theorem filter_change (p : Params) (e : String × String) (k : String) :
    (p.change e).pairs.filter (·.1 = k) =
      if k = e.1 then (if e.2.isEmpty then [] else [e]) else p.pairs.filter (·.1 = k) := by
  by_cases hk : k = e.1
  · rw [if_pos hk, change, hk]
    split
    · rw [remove, List.filter_filter, List.filter_eq_nil_iff]
      simp
    · exact filter_setIn_self e.1 e.2 p.pairs
  · have hkeys : k ∉ [e.1] := by simpa using hk
    rw [if_neg hk, ← filter_key_outside hkeys, outside_change (by simp), filter_key_outside hkeys]

/-- **After a patch there is one pair of each key that it gives a value,** and none of each key that
it clears. -/
theorem filter_apply {patch : Patch} (h : (patch.entries.map (·.1)).Nodup) (p : Params)
    (k : String) :
    (p.apply patch).pairs.filter (·.1 = k) =
      match patch.get? k with
      | none => p.pairs.filter (·.1 = k)
      | some v => if v.isEmpty then [] else [(k, v)] := by
  obtain ⟨entries⟩ := patch
  unfold apply
  induction entries generalizing p with
  | nil => rfl
  | cons e rest ih =>
    rw [List.map_cons, List.nodup_cons] at h
    rw [List.foldl_cons, ih _ h.2, filter_change, Patch.get?_cons]
    by_cases hk : k = e.1
    · rw [Patch.get?_eq_none_iff.2 (hk ▸ h.1), if_pos hk, if_pos hk, hk]
    · rw [if_neg hk, if_neg hk]

theorem setIn_eq_self (h : pairs.filter (·.1 = key) = [(key, value)]) :
    setIn key value pairs = pairs := by
  have hmem : key ∈ pairs.map (·.1) := by
    refine Decidable.byContradiction fun hnot => ?_
    rw [filter_key_eq_nil_iff.2 hnot] at h
    cases h
  obtain ⟨xs, w, ys, rfl, hxs⟩ := exists_first hmem
  rw [List.filter_append, filter_key_eq_nil_iff.2 hxs, List.nil_append,
    List.filter_cons_of_pos (by simp), List.cons.injEq, Prod.mk.injEq, filter_key_eq_nil_iff] at h
  obtain ⟨⟨-, rfl⟩, hys⟩ := h
  rw [setIn_append_cons hxs, filter_ne_eq_self hys]

/-- A change leaves parameters alone that have the pair of the key already, or none if it is
cleared. -/
theorem change_eq_self {p : Params} {e : String × String}
    (h : p.pairs.filter (·.1 = e.1) = if e.2.isEmpty then [] else [e]) : p.change e = p := by
  unfold change
  split
  · next hempty =>
    rw [if_pos hempty, List.filter_eq_nil_iff] at h
    exact congrArg Params.mk (List.filter_eq_self.2 fun f hf => by simpa using h f hf)
  · next hempty =>
    rw [if_neg hempty] at h
    exact congrArg Params.mk (setIn_eq_self h)

theorem apply_eq_self {p : Params} {patch : Patch} (h : ∀ e ∈ patch.entries, p.change e = p) :
    p.apply patch = p := by
  unfold apply
  generalize patch.entries = entries at h
  induction entries with
  | nil => rfl
  | cons e rest ih =>
    rw [List.forall_mem_cons] at h
    rw [List.foldl_cons, h.1, ih h.2]

/-- **A patch that was applied changes nothing when it is applied again.** -/
theorem apply_apply {patch : Patch} (h : (patch.entries.map (·.1)).Nodup) (p : Params) :
    (p.apply patch).apply patch = p.apply patch := by
  refine apply_eq_self fun e he => change_eq_self ?_
  have hget : patch.get? e.1 = some e.2 := Keyed.lookup_eq_some_of_mem h he
  rw [filter_apply h, hget]

end Params

end TableFilter
