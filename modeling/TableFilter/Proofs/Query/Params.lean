import TableFilter.Proofs.Text.FormEncoding
import TableFilter.Query.Params

/-!
# What parameters show after a patch

* `Params.parse_text`: written parameters are read back.
* `Params.value_apply`: after a patch every key shows what the patch says of it, and any other key
  what it showed before. Writing is therefore never needed twice: `Params.shows_apply`.
-/

namespace TableFilter

/-- However often keys are set in a patch, its entries hold each of them once. -/
theorem Patch.nodup_foldl_set {α : Type} (pairs : List α) (f : α → String × String) {base : Patch}
    (h : (base.entries.map (·.1)).Nodup) :
    ((pairs.foldl (fun p a => p.set (f a).1 (f a).2) base).entries.map (·.1)).Nodup := by
  induction pairs generalizing base with
  | nil => exact h
  | cons a rest ih => exact ih (Keyed.nodup_keys_put h)

namespace Params

/-- Written parameters are read back. -/
theorem parse_text (p : Params) : parse p.text = p := by
  have hmark : withoutMark p.text = p.text := by
    unfold withoutMark
    split
    · next cs heq =>
      rw [text, String.toList_ofList] at heq
      exact absurd heq (Text.Form.writePairs_ne_mark p.pairs cs)
    · rfl
  rw [parse, hmark, text, String.toList_ofList, Text.Form.readPairs_writePairs]

/-! ### One change -/

theorem lookup_filter (key k : String) (pairs : List (String × String)) :
    (pairs.filter (·.1 ≠ key)).lookup k = if k = key then none else pairs.lookup k := by
  induction pairs with
  | nil => simp
  | cons e rest ih =>
    obtain ⟨i, a⟩ := e
    rw [List.filter_cons, Keyed.lookup_cons_pair]
    by_cases hi : i = key
    · subst hi
      by_cases hk : k = i <;> simp [hk] at ih ⊢ <;> exact ih
    · by_cases hk : k = i
      · subst hk
        simp [hi]
      · simp only [hi, hk, Keyed.lookup_cons_pair, ne_eq, not_false_eq_true, decide_true, if_true,
          if_false]
        exact ih

theorem lookup_setIn (key value k : String) (pairs : List (String × String)) :
    (setIn key value pairs).lookup k = if k = key then some value else pairs.lookup k := by
  induction pairs with
  | nil => rw [setIn, Keyed.lookup_cons_pair]
  | cons e rest ih =>
    obtain ⟨i, a⟩ := e
    rw [setIn]
    split
    · next hi =>
      subst hi
      rw [Keyed.lookup_cons_pair, lookup_filter, Keyed.lookup_cons_pair]
      split <;> rfl
    · next hi =>
      rw [Keyed.lookup_cons_pair, Keyed.lookup_cons_pair, ih]
      by_cases hk : k = i
      · subst hk
        rw [if_pos rfl, if_neg hi, if_pos rfl]
      · rw [if_neg hk, if_neg hk]

/-- After a change its key shows the new value, and any other key what it showed before. -/
theorem value_change (p : Params) (e : String × String) (k : String) :
    (p.change e).value k = if k = e.1 then e.2 else p.value k := by
  unfold change
  split
  · next hempty =>
    have hvalue : e.2 = "" := by simpa using hempty
    rw [value, remove, get?, lookup_filter, hvalue]
    split <;> rfl
  · rw [value, set, get?, lookup_setIn]
    split <;> rfl

/-! ### Patches -/

/-- **After a patch a key shows what the patch says of it,** and otherwise what it showed before. -/
theorem value_apply {patch : Patch} (h : (patch.entries.map (·.1)).Nodup) (p : Params)
    (k : String) : (p.apply patch).value k = (patch.get? k).getD (p.value k) := by
  unfold apply Patch.get?
  generalize patch.entries = entries at h
  induction entries generalizing p with
  | nil => rfl
  | cons e rest ih =>
    rw [List.map_cons, List.nodup_cons] at h
    rw [List.foldl_cons, ih _ h.2, value_change, Keyed.lookup_cons_pair]
    by_cases hk : k = e.1
    · have hrest : rest.lookup k = none := by
        rw [List.lookup_eq_none_iff]
        intro f hf
        have hne : k ≠ f.1 := fun heq => h.1 (hk ▸ heq ▸ List.mem_map_of_mem hf)
        simpa using hne
      rw [hrest, if_pos hk, if_pos hk]
      rfl
    · rw [if_neg hk, if_neg hk]

/-- Whether parameters show a patch is a matter of what it says of each key. -/
theorem shows_iff {patch : Patch} (h : (patch.entries.map (·.1)).Nodup) (p : Params) :
    p.shows patch = true ↔ ∀ k v, patch.get? k = some v → p.value k = v := by
  unfold shows
  rw [List.all_eq_true]
  constructor
  · intro hall k v hk
    simpa using hall (k, v) (Keyed.mem_of_lookup_eq_some hk)
  · intro hget e he
    simpa using hget e.1 e.2 (Keyed.lookup_eq_some_of_mem h he)

/-- Parameters show a patch once it has been applied to them. -/
theorem shows_apply {patch : Patch} (h : (patch.entries.map (·.1)).Nodup) (p : Params) :
    (p.apply patch).shows patch = true := by
  rw [shows_iff h]
  intro k v hk
  rw [value_apply h, hk]
  rfl

end Params

end TableFilter
