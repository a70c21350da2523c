/-!
# Entries under keys

Lists of a key and a value, in which the first entry of a key counts: `List.lookup` reads it.

* `put` sets the value of a key at its first place, or appends it; `once?` reads a key that must not
  be repeated;
* `lookup_put` says what is read afterwards, and `keys_put` which keys there are and in what order;
* `nodup_keys_ofList` says that entries put one after the other hold each key once, and
  `ofList_eq_self` that entries that do so already stay as they are.
-/

namespace TableFilter.Keyed

variable {κ α : Type} [DecidableEq κ]

/-- The entries with the first entry of a key set to a value, or with a new last one. -/
def put (key : κ) (value : α) : List (κ × α) → List (κ × α)
  | [] => [(key, value)]
  | (k, a) :: rest => if k = key then (k, value) :: rest else (k, a) :: put key value rest

/-- The entries of pairs that are put one after the other. -/
def ofList (pairs : List (κ × α)) : List (κ × α) :=
  pairs.foldl (fun entries pair => put pair.1 pair.2 entries) []

/-- The value of a key that may be given once; `none` if it is repeated. -/
def once? (key : κ) (entries : List (κ × α)) : Option (Option α) :=
  match entries.filter (·.1 = key) with
  | [] => some none
  | [(_, value)] => some (some value)
  | _ => none

theorem lookup_cons_pair (k i : κ) (a : α) (rest : List (κ × α)) :
    ((i, a) :: rest).lookup k = if k = i then some a else rest.lookup k := by
  by_cases h : k = i <;> simp [List.lookup_cons, h, beq_false_of_ne]

theorem lookup_eq_some_of_mem {key : κ} {value : α} {entries : List (κ × α)}
    (h : (entries.map (·.1)).Nodup) (he : (key, value) ∈ entries) :
    entries.lookup key = some value := by
  induction entries with
  | nil => cases he
  | cons e rest ih =>
    obtain ⟨i, b⟩ := e
    rw [List.map_cons, List.nodup_cons] at h
    rw [Keyed.lookup_cons_pair]
    rcases List.mem_cons.1 he with he | hr
    · cases he; simp
    · have hne : key ≠ i := by
        rintro rfl
        exact h.1 (List.mem_map.2 ⟨(key, value), hr, rfl⟩)
      rw [if_neg hne]
      exact ih h.2 hr

theorem mem_of_lookup_eq_some {key : κ} {value : α} {entries : List (κ × α)}
    (h : entries.lookup key = some value) : (key, value) ∈ entries := by
  induction entries with
  | nil => cases h
  | cons e rest ih =>
    obtain ⟨i, b⟩ := e
    rw [Keyed.lookup_cons_pair] at h
    split at h
    · next hi => cases h; simp [hi]
    · exact List.mem_cons_of_mem _ (ih h)

theorem lookup_isSome_iff {key : κ} {entries : List (κ × α)} :
    (entries.lookup key).isSome ↔ key ∈ entries.map (·.1) := by
  induction entries with
  | nil => simp
  | cons e rest ih =>
    obtain ⟨i, b⟩ := e
    rw [Keyed.lookup_cons_pair]
    by_cases hi : key = i <;> simp [hi, ih]

/-- The last entry of a key is missing exactly where the first one is. -/
theorem lookup_reverse_eq_none_iff {key : κ} {entries : List (κ × α)} :
    entries.reverse.lookup key = none ↔ entries.lookup key = none := by
  rw [List.lookup_eq_none_iff, List.lookup_eq_none_iff]
  simp only [List.mem_reverse]

/-- **A key that is put reads its value, and every other key what it read before.** -/
theorem lookup_put (key k : κ) (value : α) (entries : List (κ × α)) :
    (put key value entries).lookup k = if k = key then some value else entries.lookup k := by
  induction entries with
  | nil => simp [put, lookup_cons_pair]
  | cons e rest ih =>
    obtain ⟨i, a⟩ := e
    by_cases hi : i = key
    · subst hi
      by_cases h : k = i <;> simp [put, lookup_cons_pair, h]
    · by_cases h : k = i
      · subst h
        simp [put, hi]
      · simp [put, lookup_cons_pair, hi, h, ih]

/-- **Putting keeps the keys and their order; a new key comes last.** -/
theorem keys_put (key : κ) (value : α) (entries : List (κ × α)) :
    (put key value entries).map (·.1) =
      if key ∈ entries.map (·.1) then entries.map (·.1) else entries.map (·.1) ++ [key] := by
  induction entries with
  | nil => simp [put]
  | cons e rest ih =>
    obtain ⟨i, a⟩ := e
    by_cases hi : i = key
    · simp [put, hi]
    · have hk : key ≠ i := fun h => hi h.symm
      by_cases h : key ∈ rest.map (·.1) <;> simp_all [put]

theorem put_of_notMem {key : κ} {value : α} {entries : List (κ × α)}
    (h : key ∉ entries.map (·.1)) : put key value entries = entries ++ [(key, value)] := by
  induction entries with
  | nil => rfl
  | cons e rest ih =>
    rw [List.map_cons, List.mem_cons, not_or] at h
    rw [put, if_neg (Ne.symm h.1), ih h.2, List.cons_append]

/-- **New keys come last, in the order in which they are put.** -/
theorem foldl_put_of_notMem {β : Type} {pairs : List β} {f : β → κ × α} {entries : List (κ × α)}
    (hpairs : (pairs.map fun b => (f b).1).Nodup)
    (h : ∀ b ∈ pairs, (f b).1 ∉ entries.map (·.1)) :
    pairs.foldl (fun entries b => put (f b).1 (f b).2 entries) entries =
      entries ++ pairs.map f := by
  induction pairs generalizing entries with
  | nil => exact (List.append_nil entries).symm
  | cons b rest ih =>
    rw [List.map_cons, List.nodup_cons] at hpairs
    rw [List.forall_mem_cons] at h
    rw [List.foldl_cons, put_of_notMem h.1, ih hpairs.2, List.append_assoc, List.singleton_append,
      List.map_cons]
    intro c hc hmem
    rw [List.map_append, List.mem_append, List.map_singleton, List.mem_singleton] at hmem
    rcases hmem with hmem | heq
    · exact h.2 c hc hmem
    · exact hpairs.1 (List.mem_map.2 ⟨c, hc, heq⟩)

theorem nodup_keys_put {key : κ} {value : α} {entries : List (κ × α)}
    (h : (entries.map (·.1)).Nodup) : ((put key value entries).map (·.1)).Nodup := by
  rw [keys_put]
  split
  · exact h
  · next hk =>
    refine List.nodup_append.2 ⟨h, by simp, fun a ha b hb => ?_⟩
    rw [List.mem_singleton] at hb
    exact fun e => hk (hb ▸ e ▸ ha)

theorem nodup_keys_ofList (pairs : List (κ × α)) : ((ofList pairs).map (·.1)).Nodup := by
  suffices ∀ entries : List (κ × α), (entries.map (·.1)).Nodup →
      ((pairs.foldl (fun entries pair => put pair.1 pair.2 entries) entries).map (·.1)).Nodup from
    this [] List.nodup_nil
  induction pairs with
  | nil => exact fun _ h => h
  | cons p ps ih => exact fun entries h => ih _ (nodup_keys_put h)

theorem ofList_eq_self {pairs : List (κ × α)} (h : (pairs.map (·.1)).Nodup) :
    ofList pairs = pairs := by
  have hfold : ofList pairs = [] ++ pairs.map id :=
    foldl_put_of_notMem (f := id) h fun _ _ => List.not_mem_nil
  rwa [List.nil_append, List.map_id] at hfold

end TableFilter.Keyed
