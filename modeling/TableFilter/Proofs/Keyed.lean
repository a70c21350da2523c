import Mathlib.Data.List.Induction
import Mathlib.Data.List.Nodup
import TableFilter.Keyed

/-!
# Pairs put one after the other

Of each key they leave one entry, at the place of the first pair with the key and with the value of
the last one (`Keyed.ofList_eq`). What is read is therefore the last value (`Keyed.lookup_ofList`),
and the keys come in the order of their first pairs (`Keyed.keys_ofList`).
-/

namespace TableFilter.Keyed

variable {κ α : Type} [DecidableEq κ]

theorem ofList_append_singleton (pairs : List (κ × α)) (p : κ × α) :
    ofList (pairs ++ [p]) = put p.1 p.2 (ofList pairs) := by
  rw [ofList, List.foldl_append]
  rfl

/-- **Of pairs that are put one after the other the last one of a key counts.** -/
theorem lookup_ofList (pairs : List (κ × α)) (key : κ) :
    (ofList pairs).lookup key = pairs.reverse.lookup key := by
  induction pairs using List.reverseRecOn with
  | nil => rfl
  | append_singleton pairs p ih =>
    rw [ofList_append_singleton, lookup_put, ih, List.reverse_append, List.reverse_singleton,
      List.singleton_append, lookup_cons_pair]

/-- **The keys come in the order in which they were first put.** -/
theorem keys_ofList (pairs : List (κ × α)) :
    (ofList pairs).map (·.1) = (pairs.map (·.1)).eraseDups := by
  induction pairs using List.reverseRecOn with
  | nil => rfl
  | append_singleton pairs p ih =>
    rw [ofList_append_singleton, keys_put, ih, List.map_append, List.eraseDups_append]
    by_cases h : p.1 ∈ pairs.map (·.1)
    · simp [List.mem_eraseDups, h, List.removeAll]
    · have hsingle : [p.1].eraseDups = [p.1] := rfl
      simp [List.mem_eraseDups, h, List.removeAll, hsingle]

/-- Entries that hold each key once are given by their keys and what is read under these. -/
theorem eq_filterMap_lookup {entries : List (κ × α)} (h : (entries.map (·.1)).Nodup) :
    entries = (entries.map (·.1)).filterMap fun key => (entries.lookup key).map (key, ·) := by
  rw [List.filterMap_map]
  refine ((List.filterMap_congr fun e he => ?_).trans List.filterMap_some).symm
  rw [Function.comp_apply, lookup_eq_some_of_mem h he]
  rfl

/-- **Pairs that are put one after the other** are one of each key, in the order of the first of
them and with the value of the last. -/
theorem ofList_eq (pairs : List (κ × α)) :
    ofList pairs = (pairs.map (·.1)).eraseDups.filterMap fun key =>
      (pairs.reverse.lookup key).map (key, ·) := by
  rw [eq_filterMap_lookup (nodup_keys_ofList pairs), keys_ofList]
  simp only [lookup_ofList]

end TableFilter.Keyed
