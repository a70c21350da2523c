import TableFilter.Value

/-!
# Values and their parameters

A value comes back from its parameter exactly if it has the form that the variant reads
(`Value.ofParam_toParam_iff`). Reading may change that form, as it drops empty items of a list;
writing what was read and reading it again changes nothing more (`Value.ofParam_toParam_ofParam`).
The text itself comes back but for the empty items (`Value.toParam_ofParam`).
-/

namespace TableFilter

namespace Text

/-- No piece holds the separator. -/
theorem notMem_of_mem_pieces {sep : Char} {cs p : List Char} (h : p ∈ pieces sep cs) : sep ∉ p := by
  induction cs generalizing p with
  | nil =>
    rw [pieces, List.mem_singleton] at h
    exact h ▸ List.not_mem_nil
  | cons c cs ih =>
    rw [pieces] at h
    split at h
    · rcases List.mem_cons.1 h with rfl | h
      · exact List.not_mem_nil
      · exact ih h
    · next hc =>
      cases hp : pieces sep cs with
      | nil => exact absurd hp (pieces_ne_nil sep cs)
      | cons q qs =>
        rw [hp] at h ih
        rcases List.mem_cons.1 h with rfl | h
        · rw [List.mem_cons, not_or]
          exact ⟨Ne.symm hc, ih List.mem_cons_self⟩
        · exact ih (List.mem_cons_of_mem q h)

/-- Strings without the separator come back as they were, unless there are none. -/
theorem split_join {sep : Char} {items : List String} (hne : items ≠ [])
    (h : ∀ s ∈ items, sep ∉ s.toList) : split sep (join sep items) = items := by
  have hpieces : pieces sep (joined sep (items.map String.toList)) = items.map String.toList := by
    refine pieces_joined (by simpa using hne) fun p hp => ?_
    obtain ⟨s, hs, rfl⟩ := List.mem_map.1 hp
    exact h s hs
  rw [split, join, String.toList_ofList, hpieces, List.map_map]
  exact (List.map_congr_left fun s _ => String.ofList_toList).trans (List.map_id items)

theorem split_ne_nil (sep : Char) (s : String) : split sep s ≠ [] :=
  fun h => pieces_ne_nil sep s.toList (List.map_eq_nil_iff.1 h)

theorem notMem_of_mem_split {sep : Char} {s p : String} (h : p ∈ split sep s) :
    sep ∉ p.toList := by
  obtain ⟨cs, hcs, rfl⟩ := List.mem_map.1 h
  rw [String.toList_ofList]
  exact notMem_of_mem_pieces hcs

/-- **Strings come back from between separators** exactly if there are some and none of them holds
the separator. -/
theorem split_join_iff {sep : Char} {items : List String} :
    split sep (join sep items) = items ↔ items ≠ [] ∧ ∀ s ∈ items, sep ∉ s.toList := by
  constructor
  · intro h
    refine ⟨fun hnil => split_ne_nil sep _ (h.trans hnil), fun s hs => ?_⟩
    rw [← h] at hs
    exact notMem_of_mem_split hs
  · exact fun h => split_join h.1 h.2

end Text

namespace Value

theorem ofParam_of_isMulti {v : Variant} (h : v.isMulti = true) (raw : String) :
    ofParam v raw = list ((Text.split ',' raw).filter (!·.isEmpty)) := by
  rw [ofParam, if_pos h]

/-- Items that are not empty and hold no comma are read back. -/
theorem ofParam_join {v : Variant} (h : v.isMulti = true) {items : List String}
    (hitems : ∀ s ∈ items, s.isEmpty = false ∧ ',' ∉ s.toList) :
    ofParam v (Text.join ',' items) = list items := by
  rw [ofParam_of_isMulti h]
  by_cases hne : items = []
  · subst hne
    rfl
  · rw [Text.split_join hne fun s hs => (hitems s hs).2]
    rw [List.filter_eq_self.2 fun s hs => by rw [(hitems s hs).1]; rfl]

/-! ### Values that are read back -/

/-- Whether a value has the form in which a variant reads values from parameters: a list without
empty items or commas where the variant takes lists, and elsewhere a text, or a pair where the
variant takes pairs, with a text that holds no colon before the one between the two. -/
def IsReadable (v : Variant) : Value → Prop
  | text s => v.isMulti = false ∧ (v.isKeyed = true → ':' ∉ s.toList)
  | list items => v.isMulti = true ∧ ∀ s ∈ items, s.isEmpty = false ∧ ',' ∉ s.toList
  | pair key _ => v.isMulti = false ∧ v.isKeyed = true ∧ ':' ∉ key.toList

/-- What a variant reads is in the form that it reads. -/
theorem isReadable_ofParam (v : Variant) (raw : String) : (ofParam v raw).IsReadable v := by
  by_cases hmulti : v.isMulti = true
  · rw [ofParam_of_isMulti hmulti]
    refine ⟨hmulti, fun s hs => ?_⟩
    -- The items come out of a split at commas and of a filter of empty ones.
    obtain ⟨hs, hempty⟩ := List.mem_filter.1 hs
    exact ⟨by simpa using hempty, Text.notMem_of_mem_split hs⟩
  have hsingle : v.isMulti = false := by simpa using hmulti
  by_cases hkeyed : v.isKeyed = true
  · rw [ofParam, if_neg hmulti, if_pos hkeyed]
    cases hcut : Text.cutFirst ':' raw.toList with
    | none => exact ⟨hsingle, fun _ => Text.cutFirst_eq_none_iff.1 hcut⟩
    | some parts =>
      obtain ⟨key, value⟩ := parts
      refine ⟨hsingle, hkeyed, ?_⟩
      rw [String.toList_ofList]
      exact (Text.cutFirst_eq_some hcut).1
  · rw [ofParam, if_neg hmulti, if_neg hkeyed]
    exact ⟨hsingle, fun h => absurd h hkeyed⟩

/-- A value in the form that a variant reads is read back from its parameter. -/
theorem ofParam_toParam {v : Variant} {value : Value} (h : value.IsReadable v) :
    ofParam v value.toParam = value := by
  cases value with
  | text s =>
    obtain ⟨hsingle, hcolon⟩ := h
    rw [toParam, ofParam, if_neg (by simp [hsingle])]
    split
    · next hkeyed =>
      rw [Text.cutFirst_eq_none_iff.2 (hcolon hkeyed)]
    · rfl
  | list items => exact ofParam_join h.1 h.2
  | pair key text =>
    obtain ⟨hsingle, hkeyed, hcolon⟩ := h
    have hparam : (pair key text).toParam.toList = key.toList ++ ':' :: text.toList := by
      simp [toParam]
    rw [ofParam, if_neg (by simp [hsingle]), if_pos hkeyed, hparam, Text.cutFirst_append hcolon]
    simp only [String.ofList_toList]

/-- **A value is read back from its parameter exactly if it has the form that is read.** -/
theorem ofParam_toParam_iff {v : Variant} {value : Value} :
    ofParam v value.toParam = value ↔ value.IsReadable v := by
  constructor
  · intro h
    rw [← h]
    exact isReadable_ofParam v value.toParam
  · exact ofParam_toParam

/-- **What was read of a parameter is written to one that reads the same.** -/
theorem ofParam_toParam_ofParam (v : Variant) (raw : String) :
    ofParam v (ofParam v raw).toParam = ofParam v raw :=
  ofParam_toParam (isReadable_ofParam v raw)

/-! ### Texts that are written back -/

/-- What was read of a parameter is written as it stood, but for the items of a list that are
empty. -/
theorem toParam_ofParam (v : Variant) (raw : String) :
    (ofParam v raw).toParam =
      if v.isMulti = true then Text.join ',' ((Text.split ',' raw).filter (!·.isEmpty)) else raw := by
  unfold ofParam
  split
  · rfl
  split
  · cases hcut : Text.cutFirst ':' raw.toList with
    | none => rfl
    | some parts =>
      obtain ⟨key, value⟩ := parts
      obtain ⟨-, hraw⟩ := Text.cutFirst_eq_some hcut
      rw [← String.toList_inj, hraw]
      simp [toParam]
  · rfl

/-- **Values and their parameters.** A value is read back from its parameter exactly if it is, for a
variant of lists, a list whose items are not empty and hold no comma; for a variant of pairs, a pair
whose key holds no colon, or a text that holds none; and for every other variant a text. A text that
is read and written again is the same, but for the empty pieces between commas that a variant of
lists drops, and it then reads the same. -/
theorem read_and_written (v : Variant) :
    (∀ value, ofParam v value.toParam = value ↔
      match v with
      | .multiSelect => ∃ items, value = list items ∧ ∀ s ∈ items, s ≠ "" ∧ ',' ∉ s.toList
      | .metadata | .balanceByAsset =>
        (∃ key s, value = pair key s ∧ ':' ∉ key.toList) ∨ ∃ s, value = text s ∧ ':' ∉ s.toList
      | _ => ∃ s, value = text s) ∧
    ∀ raw, (ofParam v raw).toParam =
        (match v with
        | .multiSelect => Text.join ',' ((Text.split ',' raw).filter (!·.isEmpty))
        | _ => raw) ∧
      ofParam v (ofParam v raw).toParam = ofParam v raw := by
  refine ⟨fun value => ?_, fun raw => ⟨?_, ofParam_toParam_ofParam v raw⟩⟩
  · rw [ofParam_toParam_iff]
    cases v <;> cases value <;> simp [IsReadable, Variant.isMulti, Variant.isKeyed]
  · rw [toParam_ofParam]
    cases v <;> simp [Variant.isMulti]

end Value

end TableFilter
