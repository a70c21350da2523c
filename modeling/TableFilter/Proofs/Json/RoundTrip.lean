import TableFilter.Proofs.Json.Reals
import TableFilter.Proofs.Json.Strings

/-!
# Written values read back

The text of a value that does not nest too deep is read as that value, but for its floating-point
numbers (`parse_text_of_isStored`): each of them becomes the one that its text denotes. So a value
whose numbers are whole ones of 64 bits is read back as it is (`parse_text`).

* `Json.reread` is the value with its numbers so exchanged.
* A value is `Recovered` when it is read back in front of any text that is `Delimited`, by any fuel
  of at least two steps a character. Each kind of value has its own lemma, and `recovered` puts
  them together.
* `Json.induction` is the induction on values whose hypothesis speaks of the members of a list.
-/

namespace TableFilter.Json

open TableFilter.Number

/-- Induction on values: what holds of the items of an array, or of the values of an object's
entries, may be used for the whole. -/
theorem induction {P : Json → Prop} (null : P .null) (bool : ∀ b, P (.bool b))
    (number : ∀ n, P (.number n)) (string : ∀ s, P (.string s))
    (array : ∀ items, (∀ j ∈ items, P j) → P (.array items))
    (object : ∀ entries, (∀ e ∈ entries, P e.2) → P (.object entries)) : ∀ j, P j
  | .null => null
  | .bool b => bool b
  | .number n => number n
  | .string s => string s
  | .array items => array items fun j _ => induction null bool number string array object j
  | .object entries =>
    object entries fun e _ => induction null bool number string array object e.2
termination_by j => sizeOf j
decreasing_by
  · have := List.sizeOf_lt_of_mem ‹j ∈ items›
    simp only [Json.array.sizeOf_spec]
    omega
  · have := List.sizeOf_lt_of_mem ‹e ∈ entries›
    have : sizeOf e.2 < sizeOf e := by cases e; simp +arith
    simp only [Json.object.sizeOf_spec]
    omega

mutual

/-- The numbers in a value. -/
def numbers : Json → List Json.Number
  | .number n => [n]
  | .array items => numbersOfItems items
  | .object entries => numbersOfEntries entries
  | _ => []

/-- The numbers in the items of an array. -/
def numbersOfItems : List Json → List Json.Number
  | [] => []
  | j :: js => j.numbers ++ numbersOfItems js

/-- The numbers in the entries of an object. -/
def numbersOfEntries : List (String × Json) → List Json.Number
  | [] => []
  | (_, j) :: rest => j.numbers ++ numbersOfEntries rest

end

mutual

/-- The value with every number exchanged for the one that its text denotes. -/
def reread : Json → Json
  | .number n => .number n.reread
  | .array items => .array (rereadItems items)
  | .object entries => .object (rereadEntries entries)
  | j => j

/-- The items of an array, each with its numbers exchanged. -/
def rereadItems : List Json → List Json
  | [] => []
  | j :: js => j.reread :: rereadItems js

/-- The entries of an object, each with the numbers of its value exchanged. -/
def rereadEntries : List (String × Json) → List (String × Json)
  | [] => []
  | (key, j) :: rest => (key, j.reread) :: rereadEntries rest

end

mutual

/-- The number of containers around the innermost part of a value. -/
def nesting : Json → Nat
  | .array items => nestingOfItems items + 1
  | .object entries => nestingOfEntries entries + 1
  | _ => 0

/-- The greatest nesting of the items of an array. -/
def nestingOfItems : List Json → Nat
  | [] => 0
  | j :: js => max j.nesting (nestingOfItems js)

/-- The greatest nesting of the values of an object's entries. -/
def nestingOfEntries : List (String × Json) → Nat
  | [] => 0
  | (_, j) :: rest => max j.nesting (nestingOfEntries rest)

end

theorem nestingOfItems_le {items : List Json} {n : Nat} (h : ∀ j ∈ items, j.nesting ≤ n) :
    nestingOfItems items ≤ n := by
  induction items with
  | nil => exact Nat.zero_le n
  | cons j js ih =>
    rw [List.forall_mem_cons] at h
    exact max_le h.1 (ih h.2)

/-- The characters with which a value begins. -/
def Opens (c : Char) : Prop := c ∉ [' ', '\n', '\t', '\r', ',', ':', ']', '\x7d']

instance (c : Char) : Decidable (Opens c) := inferInstanceAs (Decidable (c ∉ _))

/-- The value is read back in front of any delimited text, its numbers as the ones that their texts
denote, if its containers do not nest deeper than the reader goes. -/
structure Recovered (j : Json) : Prop where
  opens : ∃ c cs, j.chars = c :: cs ∧ Opens c
  read : ∀ fuel rest, 2 * j.chars.length ≤ fuel + 1 → Delimited rest →
    ∃ v, readValue (fuel + 1) (j.chars ++ rest) = (v, some rest) ∧
      ∀ depth, j.nesting ≤ depth → v.toJson depth = .ok j.reread

theorem skipBlanks_of_opens {c : Char} (h : Opens c) (cs : List Char) :
    skipBlanks (c :: cs) = c :: cs := by
  rw [skipBlanks, if_neg]
  rintro (rfl | rfl | rfl | rfl) <;> exact absurd h (by decide)

theorem recovered_null : Recovered .null where
  opens := ⟨_, _, rfl, by decide⟩
  read fuel rest _ _ := by
    refine ⟨.null, ?_, fun _ _ => by simp [Reading.toJson, reread]⟩
    simp [chars, readValue, skipBlanks, readWord]

theorem recovered_bool (b : Bool) : Recovered (.bool b) where
  opens := by cases b <;> exact ⟨_, _, rfl, by decide⟩
  read fuel rest _ _ := by
    refine ⟨.bool b, ?_, fun _ _ => by simp [Reading.toJson, reread]⟩
    cases b <;> simp [chars, readValue, skipBlanks, readWord]

theorem recovered_string (s : String) : Recovered (.string s) where
  opens := ⟨_, _, rfl, by decide⟩
  read fuel rest _ _ := by
    refine ⟨.string (.ok s), ?_, fun _ _ => by simp [Reading.toJson, reread]; rfl⟩
    have hread := readString_escape s rest
    simp only [chars, quoted, List.cons_append, List.append_assoc]
    simp [readValue, skipBlanks, hread]

theorem opens_digitChar {d : Nat} (h : d < 10) : Opens d.digitChar := by
  revert d
  decide

theorem Numeral.IsWritten.chars_eq_cons {n : Numeral} (h : n.IsWritten) : ∃ c cs, n.chars = c :: cs ∧
    (c = '-' ∨ (digit? c).isSome) ∧ Opens c := by
  obtain ⟨negative, whole, fraction, exponent⟩ := n
  cases negative with
  | true => exact ⟨'-', _, rfl, .inl rfl, by decide⟩
  | false =>
    obtain ⟨d, ds, rfl⟩ := List.exists_cons_of_ne_nil h.whole_ne_nil
    have hd := h.whole_lt d List.mem_cons_self
    exact ⟨_, _, rfl, .inr (by rw [digit?_digitChar hd]; rfl), opens_digitChar hd⟩

theorem readValue_digit {c : Char} (h : c = '-' ∨ (digit? c).isSome) (hc : Opens c) (fuel : Nat)
    (cs : List Char) : readValue (fuel + 1) (c :: cs) =
      match readNumeral (c :: cs) with
      | .ok (n, rest) => (.number n, some rest)
      | .error b => (.broken b, none) := by
  have hne (a : Char) (ha : a ≠ '-' ∧ digit? a = none) : c ≠ a := by
    rintro rfl
    rcases h with h | h
    · exact ha.1 h
    · rw [ha.2] at h
      exact absurd h (by decide)
  -- What begins a number begins no other value.
  have h₁ := hne '"' (by decide)
  have h₂ := hne '[' (by decide)
  have h₃ := hne '\x7b' (by decide)
  have h₄ := hne 'n' (by decide)
  have h₅ := hne 't' (by decide)
  have h₆ := hne 'f' (by decide)
  rw [readValue, skipBlanks_of_opens hc]
  split
  · next heq => cases heq
  · next heq => exact absurd (List.cons.inj heq).1 h₁
  · next heq => exact absurd (List.cons.inj heq).1 h₂
  · next heq => exact absurd (List.cons.inj heq).1 h₃
  · next heq => exact absurd (List.cons.inj heq).1 h₄
  · next heq => exact absurd (List.cons.inj heq).1 h₅
  · next heq => exact absurd (List.cons.inj heq).1 h₆
  · next heq =>
    cases heq
    exact if_pos h

theorem recovered_number {n : Json.Number} (h : n.IsStored) : Recovered (.number n) := by
  obtain ⟨literal, hwritten, htext, hvalue⟩ := h.exists_literal
  obtain ⟨c, cs, hchars, hdigit, hc⟩ := hwritten.chars_eq_cons
  refine ⟨⟨c, cs, htext.trans hchars, hc⟩, fun fuel rest _ hrest => ?_⟩
  refine ⟨.number literal, ?_, fun depth _ => ?_⟩
  · have hread := readNumeral_chars hwritten hrest
    rw [chars, htext]
    rw [hchars, List.cons_append] at hread ⊢
    rw [readValue_digit hdigit hc, hread]
  · simp [Reading.toJson, reread, hvalue]

/-! ### Arrays and objects -/

section

variable {fuel : Nat} {cs r rest : List Char} {key : String} {v : Reading}

theorem readItems_last (h : readValue fuel cs = (v, some (']' :: rest))) :
    readItems (fuel + 1) cs = ([v], some rest) := by
  simp [readItems, h, skipBlanks]

theorem readItems_more {vs : List Reading} {o : Option (List Char)}
    (h : readValue fuel cs = (v, some (',' :: r))) (hr : readItems fuel r = (vs, o)) :
    readItems (fuel + 1) cs = (v :: vs, o) := by
  simp [readItems, h, hr, skipBlanks]

theorem readEntries_last (h : readValue fuel cs = (v, some ('\x7d' :: rest))) :
    readEntries (fuel + 1) (quoted key ++ ':' :: cs) = ([(.ok key, v)], some rest) := by
  have hkey := readString_escape key (':' :: cs)
  simp only [quoted, List.cons_append, List.append_assoc, List.nil_append]
  simp [readEntries, hkey, h, skipBlanks]

theorem readEntries_more {es : List (Except Fault String × Reading)} {o : Option (List Char)}
    (h : readValue fuel cs = (v, some (',' :: r))) (hr : readEntries fuel r = (es, o)) :
    readEntries (fuel + 1) (quoted key ++ ':' :: cs) = ((.ok key, v) :: es, o) := by
  have hkey := readString_escape key (':' :: cs)
  simp only [quoted, List.cons_append, List.append_assoc, List.nil_append]
  rw [readEntries]
  simp [hkey, h, hr, skipBlanks]

end

theorem readItems_chars {items : List Json} (hne : items ≠ []) (h : ∀ j ∈ items, Recovered j)
    (fuel : Nat) (rest : List Char) (hfuel : 2 * (itemChars items).length ≤ fuel) :
    ∃ vs, readItems (fuel + 1) (itemChars items ++ ']' :: rest) = (vs, some rest) ∧
      ∀ depth, nestingOfItems items ≤ depth → Reading.toItems depth vs = .ok (rereadItems items) := by
  induction items generalizing fuel with
  | nil => exact absurd rfl hne
  | cons j js ih =>
    rw [List.forall_mem_cons] at h
    obtain ⟨c, cs, hj, -⟩ := h.1.opens
    cases js with
    | nil =>
      obtain ⟨fuel, rfl⟩ : ∃ k, fuel = k + 1 := ⟨fuel - 1, by simp [itemChars, hj] at hfuel; omega⟩
      obtain ⟨v, hv, htree⟩ := h.1.read fuel (']' :: rest) hfuel (delimited_cons (by decide) rest)
      refine ⟨[v], readItems_last hv, fun depth hdepth => ?_⟩
      have hj := htree depth (Nat.max_le.1 hdepth).1
      simp only [Reading.toItems, hj]
      rfl
    | cons k js =>
      -- One step goes to the item, and what is left suffices for the others after the comma.
      have hlen : 2 * j.chars.length + 2 + 2 * (itemChars (k :: js)).length ≤ fuel := by
        simp only [itemChars, List.length_append, List.length_cons] at hfuel
        omega
      obtain ⟨fuel, rfl⟩ : ∃ k, fuel = k + 1 := ⟨fuel - 1, by omega⟩
      obtain ⟨v, hv, htree⟩ := h.1.read fuel (',' :: (itemChars (k :: js) ++ ']' :: rest))
        (by omega) (delimited_cons (by decide) _)
      obtain ⟨vs, hvs, htrees⟩ := ih (by simp) h.2 fuel (by omega)
      refine ⟨v :: vs, ?_, fun depth hdepth => ?_⟩
      · rw [itemChars, List.append_assoc]
        exact readItems_more hv hvs
      · have hdepth := Nat.max_le.1 hdepth
        simp only [Reading.toItems, htree depth hdepth.1, htrees depth hdepth.2]
        rfl

theorem readEntries_chars {entries : List (String × Json)} (hne : entries ≠ [])
    (h : ∀ e ∈ entries, Recovered e.2) (fuel : Nat) (rest : List Char)
    (hfuel : 2 * (entryChars entries).length ≤ fuel) :
    ∃ es, readEntries (fuel + 1) (entryChars entries ++ '\x7d' :: rest) = (es, some rest) ∧
      ∀ depth, nestingOfEntries entries ≤ depth →
        Reading.toEntries depth es = .ok (rereadEntries entries) := by
  induction entries generalizing fuel with
  | nil => exact absurd rfl hne
  | cons e es ih =>
    obtain ⟨key, j⟩ := e
    obtain ⟨hj, h⟩ : Recovered j ∧ ∀ e ∈ es, Recovered e.2 := List.forall_mem_cons.1 h
    cases es with
    | nil =>
      have hlen : 2 * j.chars.length + 2 ≤ fuel := by
        simp only [entryChars, List.length_append, List.length_cons] at hfuel
        omega
      obtain ⟨fuel, rfl⟩ : ∃ k, fuel = k + 1 := ⟨fuel - 1, by omega⟩
      obtain ⟨v, hv, htree⟩ := hj.read fuel ('\x7d' :: rest) (by omega)
        (delimited_cons (by decide) rest)
      refine ⟨[(.ok key, v)], ?_, fun depth hdepth => ?_⟩
      · rw [entryChars, List.append_assoc]
        exact readEntries_last hv
      · have hj := htree depth (Nat.max_le.1 hdepth).1
        simp only [Reading.toEntries, hj]
        rfl
    | cons e es =>
      have hlen : 2 * j.chars.length + 2 + 2 * (entryChars (e :: es)).length ≤ fuel := by
        simp only [entryChars, List.length_append, List.length_cons] at hfuel
        omega
      obtain ⟨fuel, rfl⟩ : ∃ k, fuel = k + 1 := ⟨fuel - 1, by omega⟩
      obtain ⟨v, hv, htree⟩ := hj.read fuel (',' :: (entryChars (e :: es) ++ '\x7d' :: rest))
        (by omega) (delimited_cons (by decide) _)
      obtain ⟨vs, hvs, htrees⟩ := ih (by simp) h fuel (by omega)
      refine ⟨(.ok key, v) :: vs, ?_, fun depth hdepth => ?_⟩
      · rw [entryChars, List.append_assoc, List.append_assoc]
        exact readEntries_more hv hvs
      · have hdepth := Nat.max_le.1 hdepth
        simp only [Reading.toEntries, htree depth hdepth.1, htrees depth hdepth.2]
        rfl

theorem readValue_array {c : Char} (hc : Opens c) {fuel : Nat} {cs : List Char}
    {vs : List Reading} {o : Option (List Char)} (h : readItems fuel (c :: cs) = (vs, o)) :
    readValue (fuel + 1) ('[' :: c :: cs) = (.array vs, o) := by
  have hne : c ≠ ']' := by
    rintro rfl
    exact absurd hc (by decide)
  rw [readValue]
  simp only [skipBlanks_of_opens (show Opens '[' by decide), skipBlanks_of_opens hc]
  split
  · next heq => exact absurd (List.cons.inj heq).1 hne
  · next heq => rw [h]

theorem readValue_object {fuel : Nat} {key : String} {cs : List Char}
    {es : List (Except Fault String × Reading)} {o : Option (List Char)}
    (h : readEntries fuel (quoted key ++ cs) = (es, o)) :
    readValue (fuel + 1) ('\x7b' :: (quoted key ++ cs)) = (.object es, o) := by
  rw [readValue]
  simp only [quoted, List.cons_append] at h ⊢
  simp only [skipBlanks_of_opens (show Opens '\x7b' by decide),
    skipBlanks_of_opens (show Opens '"' by decide)]
  exact congrArg (fun r => (Reading.object r.1, r.2)) h

theorem recovered_array {items : List Json} (h : ∀ j ∈ items, Recovered j) :
    Recovered (.array items) where
  opens := ⟨_, _, rfl, by decide⟩
  read fuel rest hfuel _ := by
    cases items with
    | nil =>
      refine ⟨.array [], by simp [chars, itemChars, readValue, skipBlanks], fun depth hdepth => ?_⟩
      obtain ⟨d, rfl⟩ := Nat.exists_eq_add_of_le' hdepth
      rfl
    | cons j js =>
      obtain ⟨c, cs, hj, hc⟩ := (h j List.mem_cons_self).opens
      -- The items begin as the first of them does, not with a bracket.
      obtain ⟨ds, hitems⟩ : ∃ ds, itemChars (j :: js) = c :: ds := by
        cases js with
        | nil => exact ⟨_, hj⟩
        | cons k ks => exact ⟨_, by rw [itemChars, hj, List.cons_append]⟩
      have hlen : 2 * (itemChars (j :: js)).length + 3 ≤ fuel := by
        simp only [chars, List.length_append, List.length_cons] at hfuel
        omega
      obtain ⟨fuel, rfl⟩ : ∃ k, fuel = k + 1 := ⟨fuel - 1, by omega⟩
      obtain ⟨vs, hvs, htrees⟩ := readItems_chars (List.cons_ne_nil j js) h fuel rest (by omega)
      refine ⟨.array vs, ?_, fun depth hdepth => ?_⟩
      · rw [hitems] at hvs
        rw [chars, hitems, List.append_assoc]
        exact readValue_array hc hvs
      · rw [nesting] at hdepth
        obtain ⟨d, rfl⟩ := Nat.exists_eq_add_of_le' hdepth
        rw [← Nat.add_assoc, Reading.toJson, htrees _ (Nat.le_add_left _ _)]
        rfl

theorem recovered_object {entries : List (String × Json)} (h : ∀ e ∈ entries, Recovered e.2) :
    Recovered (.object entries) where
  opens := ⟨_, _, rfl, by decide⟩
  read fuel rest hfuel _ := by
    cases entries with
    | nil =>
      refine ⟨.object [], by simp [chars, entryChars, readValue, skipBlanks],
        fun depth hdepth => ?_⟩
      obtain ⟨d, rfl⟩ := Nat.exists_eq_add_of_le' hdepth
      rfl
    | cons e es =>
      obtain ⟨ds, hentries⟩ : ∃ ds, entryChars (e :: es) = quoted e.1 ++ ds := by
        cases es with
        | nil => exact ⟨_, rfl⟩
        | cons f fs => exact ⟨_, List.append_assoc _ _ _⟩
      have hlen : 2 * (entryChars (e :: es)).length + 3 ≤ fuel := by
        simp only [chars, List.length_append, List.length_cons] at hfuel
        omega
      obtain ⟨fuel, rfl⟩ : ∃ k, fuel = k + 1 := ⟨fuel - 1, by omega⟩
      obtain ⟨vs, hvs, htrees⟩ := readEntries_chars (List.cons_ne_nil e es) h fuel rest (by omega)
      refine ⟨.object vs, ?_, fun depth hdepth => ?_⟩
      · rw [hentries, List.append_assoc] at hvs
        rw [chars, hentries, List.append_assoc, List.cons_append, List.append_assoc]
        exact readValue_object hvs
      · rw [nesting] at hdepth
        obtain ⟨d, rfl⟩ := Nat.exists_eq_add_of_le' hdepth
        rw [← Nat.add_assoc, Reading.toJson, htrees _ (Nat.le_add_left _ _)]
        rfl

/-! ### Whole texts -/

theorem numbersOfItems_eq (items : List Json) : numbersOfItems items = items.flatMap numbers := by
  induction items with
  | nil => rfl
  | cons j js ih => rw [numbersOfItems, ih, List.flatMap_cons]

theorem numbersOfEntries_eq (entries : List (String × Json)) :
    numbersOfEntries entries = entries.flatMap fun e => e.2.numbers := by
  induction entries with
  | nil => rfl
  | cons e es ih => rw [numbersOfEntries, ih, List.flatMap_cons]

theorem rereadItems_eq (items : List Json) : rereadItems items = items.map reread := by
  induction items with
  | nil => rfl
  | cons j js ih => rw [rereadItems, ih, List.map_cons]

theorem rereadEntries_eq (entries : List (String × Json)) :
    rereadEntries entries = entries.map fun e => (e.1, e.2.reread) := by
  induction entries with
  | nil => rfl
  | cons e es ih => rw [rereadEntries, ih, List.map_cons]

/-- A value stays as it is if its numbers do. -/
theorem reread_eq_self {j : Json} (h : ∀ n ∈ j.numbers, n.reread = n) : j.reread = j := by
  induction j using Json.induction with
  | null | bool b | string s => rw [reread] <;> nofun
  | number n => rw [reread, h n (List.mem_singleton_self n)]
  | array items ih =>
    rw [numbers, numbersOfItems_eq] at h
    rw [reread, rereadItems_eq]
    have hitem : ∀ j ∈ items, j.reread = id j := fun j hj =>
      ih j hj fun n hn => h n (List.mem_flatMap.2 ⟨j, hj, hn⟩)
    rw [List.map_congr_left hitem, List.map_id]
  | object entries ih =>
    rw [numbers, numbersOfEntries_eq] at h
    rw [reread, rereadEntries_eq]
    have hentry : ∀ e ∈ entries, (e.1, e.2.reread) = id e := fun e he =>
      congrArg (Prod.mk e.1) (ih e he fun n hn => h n (List.mem_flatMap.2 ⟨e, he, hn⟩))
    rw [List.map_congr_left hentry, List.map_id]

/-- **A value is read back in front of any delimited text.** -/
theorem recovered {j : Json} (h : ∀ n ∈ j.numbers, n.IsStored) : Recovered j := by
  induction j using Json.induction with
  | null => exact recovered_null
  | bool b => exact recovered_bool b
  | number n => exact recovered_number (h n (List.mem_singleton_self n))
  | string s => exact recovered_string s
  | array items ih =>
    rw [numbers, numbersOfItems_eq] at h
    exact recovered_array fun j hj => ih j hj fun n hn => h n (List.mem_flatMap.2 ⟨j, hj, hn⟩)
  | object entries ih =>
    rw [numbers, numbersOfEntries_eq] at h
    exact recovered_object fun e he => ih e he fun n hn => h n (List.mem_flatMap.2 ⟨e, he, hn⟩)

/-- The text of a value is read whole, as something that is the value with its numbers exchanged. -/
theorem read_text {j : Json} (h : ∀ n ∈ j.numbers, n.IsStored) :
    ∃ v, read j.text = (v, none) ∧ ∀ depth, j.nesting ≤ depth → v.toJson depth = .ok j.reread := by
  obtain ⟨v, hv, htree⟩ := (recovered h).read (2 * j.chars.length + 1) [] (by omega) delimited_nil
  rw [List.append_nil] at hv
  refine ⟨v, ?_, htree⟩
  rw [read, text, String.toList_ofList, hv]
  rfl

/-- **The text of a value is read as the value with its numbers exchanged.** -/
theorem parse_text_of_isStored {j : Json} (h : ∀ n ∈ j.numbers, n.IsStored)
    (hdepth : j.nesting ≤ maxDepth) : parse j.text = .ok j.reread := by
  obtain ⟨v, hv, htree⟩ := read_text h
  rw [parse, hv]
  dsimp only
  rw [htree maxDepth hdepth]

/-- **The text of a value is read as the value,** if its numbers are whole ones of 64 bits. -/
theorem parse_text {j : Json} (h : ∀ n ∈ j.numbers, n.IsWord) (hdepth : j.nesting ≤ maxDepth) :
    parse j.text = .ok j := by
  have hread := parse_text_of_isStored (fun n hn => (h n hn).isStored) hdepth
  rwa [reread_eq_self fun n hn => Number.reread_of_isWord (h n hn)] at hread

end TableFilter.Json
