import TableFilter.Document.Text
import TableFilter.Proofs.Json.RoundTrip
import TableFilter.Proofs.Json.Sorted

/-!
# Query documents read back

A document is written with the fields of its leaves as they are, or sorted and each field once.
Either text is read as the same document, the `Document.canonical` one: the fields of every leaf are
collapsed (`parse_text_and_literal`).

* `Document.leaves` are the field lists of a document, and conditions on a document's scalars and on
  the order of its fields speak of them.
* `toLiteral_sorted` says that sorting the data of a document writes its canonical form, and
  `ofObject_sorted` that reading it gives that form.
-/

namespace TableFilter

/-- Whether the scalar is a whole number of 64 bits, if it is a number. -/
def Scalar.IsWord : Scalar → Prop
  | .number n => n.IsWord
  | _ => True

instance : DecidablePred Scalar.IsWord
  | .number n => inferInstanceAs (Decidable n.IsWord)
  | .null | .bool _ | .string _ => inferInstanceAs (Decidable True)

namespace Document

/-- Induction on documents: what holds of every member of a list may be used for the whole. -/
theorem induction {P : Document → Prop} (empty : P .empty)
    (leaf : ∀ test fields, P (.leaf test fields)) (not : ∀ inner, P inner → P (.not inner))
    (all : ∀ children, (∀ d ∈ children, P d) → P (.all children))
    (any : ∀ children, (∀ d ∈ children, P d) → P (.any children)) : ∀ d, P d
  | .empty => empty
  | .leaf test fields => leaf test fields
  | .not inner => not inner (induction empty leaf not all any inner)
  | .all children => all children fun d _ => induction empty leaf not all any d
  | .any children => any children fun d _ => induction empty leaf not all any d
termination_by d => sizeOf d
decreasing_by
  · simp +arith
  · have := List.sizeOf_lt_of_mem ‹d ∈ children›
    simp only [Document.all.sizeOf_spec]
    omega
  · have := List.sizeOf_lt_of_mem ‹d ∈ children›
    simp only [Document.any.sizeOf_spec]
    omega

mutual

/-- The field lists of the leaves, in order. -/
def leaves : Document → List (List (String × Scalar))
  | empty => []
  | leaf _ fields => [fields]
  | not inner => inner.leaves
  | all children => leavesOf children
  | any children => leavesOf children

/-- The field lists of the leaves of documents. -/
def leavesOf : List Document → List (List (String × Scalar))
  | [] => []
  | d :: ds => d.leaves ++ leavesOf ds

end

mutual

/-- The document with the fields of every leaf sorted by name, a repeated field once with its last
value. -/
def canonical : Document → Document
  | empty => empty
  | leaf test fields => leaf test (Keyed.collapsed fields)
  | not inner => not inner.canonical
  | all children => all (canonicals children)
  | any children => any (canonicals children)

/-- The documents with the fields of every leaf sorted and each once. -/
def canonicals : List Document → List Document
  | [] => []
  | d :: ds => d.canonical :: canonicals ds

end

/-- Whether every number in the document is a whole one of 64 bits. -/
def IsWord (d : Document) : Prop := ∀ fields ∈ d.leaves, ∀ e ∈ fields, Scalar.IsWord e.2

/-- Whether the fields of every leaf are sorted and not repeated. -/
def InOrder (d : Document) : Prop := ∀ fields ∈ d.leaves, Json.InOrder fields

instance (d : Document) : Decidable d.IsWord :=
  inferInstanceAs (Decidable (∀ fields ∈ d.leaves, ∀ e ∈ fields, Scalar.IsWord e.2))

theorem leavesOf_eq (ds : List Document) : leavesOf ds = ds.flatMap leaves := by
  induction ds with
  | nil => rfl
  | cons d ds ih => rw [leavesOf, ih, List.flatMap_cons]

theorem canonicals_eq (ds : List Document) : canonicals ds = ds.map canonical := by
  induction ds with
  | nil => rfl
  | cons d ds ih => rw [canonicals, ih, List.map_cons]

theorem toLiterals_eq (ds : List Document) : toLiterals ds = ds.map toLiteral := by
  induction ds with
  | nil => rfl
  | cons d ds ih => rw [toLiterals, ih, List.map_cons]

/-! ### The canonical form -/

theorem leaves_canonical (d : Document) : d.canonical.leaves = d.leaves.map Keyed.collapsed := by
  have hlist {ds : List Document}
      (ih : ∀ d ∈ ds, d.canonical.leaves = d.leaves.map Keyed.collapsed) :
      leavesOf (canonicals ds) = (leavesOf ds).map Keyed.collapsed := by
    rw [leavesOf_eq, leavesOf_eq, canonicals_eq, List.flatMap_map, List.map_flatMap]
    exact List.flatMap_congr ih
  induction d using Document.induction with
  | empty => rfl
  | leaf test fields => rfl
  | not inner ih => exact ih
  | all children ih => exact hlist ih
  | any children ih => exact hlist ih

theorem canonical_of_inOrder {d : Document} (h : d.InOrder) : d.canonical = d := by
  have hlist {ds : List Document} (ih : ∀ d ∈ ds, d.InOrder → d.canonical = d)
      (h : ∀ fields ∈ leavesOf ds, Json.InOrder fields) : canonicals ds = ds := by
    rw [leavesOf_eq] at h
    rw [canonicals_eq]
    refine (List.map_congr_left fun d hd => ih d hd fun fields hf => ?_).trans (List.map_id ds)
    exact h fields (List.mem_flatMap.2 ⟨d, hd, hf⟩)
  induction d using Document.induction with
  | empty => rfl
  | leaf test fields =>
    have hf := h fields (List.mem_singleton_self _)
    rw [canonical, ← Json.sortEntries_eq_collapsed, hf.sortEntries_eq]
  | not inner ih => rw [canonical, ih h]
  | all children ih => rw [canonical, hlist ih h]
  | any children ih => rw [canonical, hlist ih h]

theorem inOrder_canonical (d : Document) : d.canonical.InOrder := by
  intro fields hf
  rw [leaves_canonical] at hf
  obtain ⟨fields, -, rfl⟩ := List.mem_map.1 hf
  rw [← Json.sortEntries_eq_collapsed]
  exact Json.inOrder_sortEntries fields

theorem IsWord.canonical {d : Document} (h : d.IsWord) : d.canonical.IsWord := by
  intro fields hf e he
  rw [leaves_canonical] at hf
  obtain ⟨written, hw, rfl⟩ := List.mem_map.1 hf
  exact h written hw e (Json.mem_of_mem_collapsed he)

/-! ### The data of a document -/

theorem fieldEntries_eq (fields : List (String × Scalar)) :
    fieldEntries fields = fields.map fun e => (e.1, e.2.toJson) := rfl

theorem readFields_fieldEntries (fields : List (String × Scalar)) :
    readFields (fieldEntries fields) = fields := by
  rw [readFields, fieldEntries, List.filterMap_map]
  refine (List.filterMap_congr fun e _ => ?_).trans List.filterMap_some
  obtain ⟨field, value⟩ := e
  simp [Scalar.ofJson?_toJson]

theorem sorted_toJson (s : Scalar) : s.toJson.sorted = s.toJson := by
  cases s <;> rfl

theorem sortedValues_fieldEntries (fields : List (String × Scalar)) :
    Json.sortedValues (fieldEntries fields) = fieldEntries fields := by
  induction fields with
  | nil => rfl
  | cons e rest ih =>
    rw [fieldEntries_eq] at ih ⊢
    rw [List.map_cons, Json.sortedValues, sorted_toJson, ih]

theorem sortedItems_eq (items : List Json) : Json.sortedItems items = items.map Json.sorted := by
  induction items with
  | nil => rfl
  | cons j js ih => rw [Json.sortedItems, ih, List.map_cons]

theorem sorted_singleton (key : String) (j : Json) :
    (Json.object [(key, j)]).sorted = .object [(key, j.sorted)] := by
  simp only [Json.sorted, Json.sortedValues]
  rw [(Json.inOrder_singleton key j.sorted).sortEntries_eq]

/-- **Sorting the data of a document writes its canonical form.** -/
theorem toLiteral_sorted (d : Document) : d.toLiteral.sorted = d.canonical.toLiteral := by
  have hlist {ds : List Document} (ih : ∀ d ∈ ds, d.toLiteral.sorted = d.canonical.toLiteral) :
      Json.sortedItems (toLiterals ds) = toLiterals (canonicals ds) := by
    rw [sortedItems_eq, toLiterals_eq, toLiterals_eq, canonicals_eq, List.map_map, List.map_map]
    exact List.map_congr_left ih
  induction d using Document.induction with
  | empty => rfl
  | leaf test fields =>
    rw [toLiteral, sorted_singleton, canonical, toLiteral]
    simp only [Json.sorted]
    rw [sortedValues_fieldEntries, fieldEntries_eq, fieldEntries_eq, Json.sortEntries_map,
      Json.sortEntries_eq_collapsed]
  | not inner ih => rw [toLiteral, sorted_singleton, ih, canonical, toLiteral]
  | all children ih =>
    rw [toLiteral, sorted_singleton, Json.sorted, hlist ih, canonical, toLiteral]
  | any children ih =>
    rw [toLiteral, sorted_singleton, Json.sorted, hlist ih, canonical, toLiteral]

/-- The data of a document is an object, which is read as the document. -/
theorem ofObject_toLiteral (d : Document) :
    ∃ entries, d.toLiteral = .object entries ∧ ofObject entries = d := by
  have hlist {ds : List Document}
      (ih : ∀ d ∈ ds, ∃ entries, d.toLiteral = .object entries ∧ ofObject entries = d) :
      ofItems (toLiterals ds) = ds := by
    induction ds with
    | nil => rfl
    | cons d ds ihs =>
      rw [List.forall_mem_cons] at ih
      obtain ⟨⟨entries, hd, hread⟩, ih⟩ := ih
      rw [toLiterals, hd, ofItems, ihs ih]
      exact congrArg (· :: ds) hread
  induction d using Document.induction with
  | empty => exact ⟨[], rfl, rfl⟩
  | leaf test fields =>
    refine ⟨_, rfl, ?_⟩
    simp only [ofObject, ofEntries, ofEntry?, Test.ofKey?_key, readFields_fieldEntries]
    rfl
  | not inner ih =>
    obtain ⟨entries, hd, hread⟩ := ih
    refine ⟨_, rfl, ?_⟩
    -- No test goes by the key of a negation.
    have hkey : Test.ofKey? "$not" = none := by decide
    simp only [ofObject, ofEntries, hd, ofEntry?, hkey]
    exact congrArg not hread
  | all children ih =>
    refine ⟨_, rfl, ?_⟩
    simp only [ofObject, ofEntries, ofEntry?, hlist ih]
    rfl
  | any children ih =>
    refine ⟨_, rfl, ?_⟩
    simp only [ofObject, ofEntries, ofEntry?, hlist ih]
    rfl

/-- The numbers in a document's data are scalars of its leaves. -/
theorem mem_leaves_of_mem_numbers {d : Document} {n : Json.Number} (h : n ∈ d.toLiteral.numbers) :
    ∃ fields ∈ d.leaves, ∃ e ∈ fields, e.2 = .number n := by
  have hlist {ds : List Document}
      (ih : ∀ d ∈ ds, n ∈ d.toLiteral.numbers → ∃ fields ∈ d.leaves, ∃ e ∈ fields, e.2 = .number n)
      (h : n ∈ Json.numbersOfItems (toLiterals ds) ++ []) :
      ∃ fields ∈ leavesOf ds, ∃ e ∈ fields, e.2 = .number n := by
    rw [List.append_nil, Json.numbersOfItems_eq, toLiterals_eq, List.flatMap_map] at h
    obtain ⟨d, hd, hn⟩ := List.mem_flatMap.1 h
    obtain ⟨fields, hf, he⟩ := ih d hd hn
    exact ⟨fields, leavesOf_eq ds ▸ List.mem_flatMap.2 ⟨d, hd, hf⟩, he⟩
  induction d using Document.induction with
  | empty => exact absurd h List.not_mem_nil
  | leaf test fields =>
    simp only [toLiteral, Json.numbers, Json.numbersOfEntries, List.append_nil] at h
    rw [fieldEntries_eq, Json.numbersOfEntries_eq, List.flatMap_map] at h
    obtain ⟨e, he, hn⟩ := List.mem_flatMap.1 h
    refine ⟨fields, List.mem_singleton_self _, e, he, ?_⟩
    cases hs : e.2 <;> simp only [hs, Scalar.toJson, Json.numbers, List.not_mem_nil] at hn
    rw [List.mem_singleton.1 hn]
  | not inner ih =>
    simp only [toLiteral, Json.numbers, Json.numbersOfEntries, List.append_nil] at h
    exact ih h
  | all children ih => exact hlist ih h
  | any children ih => exact hlist ih h

theorem numbers_toLiteral {d : Document} (h : d.IsWord) : ∀ n ∈ d.toLiteral.numbers, n.IsWord := by
  intro n hn
  obtain ⟨fields, hf, e, he, hs⟩ := mem_leaves_of_mem_numbers hn
  have hword := h fields hf e he
  rwa [hs] at hword

theorem nestingOfEntries_fieldEntries (fields : List (String × Scalar)) :
    Json.nestingOfEntries (fieldEntries fields) = 0 := by
  induction fields with
  | nil => rfl
  | cons e rest ih =>
    rw [fieldEntries_eq] at ih ⊢
    rw [List.map_cons, Json.nestingOfEntries, ih]
    cases e.2 <;> rfl

theorem nesting_canonical (d : Document) : d.canonical.toLiteral.nesting = d.toLiteral.nesting := by
  have hlist {ds : List Document}
      (ih : ∀ d ∈ ds, d.canonical.toLiteral.nesting = d.toLiteral.nesting) :
      Json.nestingOfItems (toLiterals (canonicals ds)) = Json.nestingOfItems (toLiterals ds) := by
    induction ds with
    | nil => rfl
    | cons d ds ihs =>
      rw [List.forall_mem_cons] at ih
      simp only [canonicals, toLiterals, Json.nestingOfItems, ih.1, ihs ih.2]
  induction d using Document.induction with
  | empty => rfl
  | leaf test fields =>
    simp only [canonical, toLiteral, Json.nesting, Json.nestingOfEntries,
      nestingOfEntries_fieldEntries]
  | not inner ih => simp only [canonical, toLiteral, Json.nesting, Json.nestingOfEntries, ih]
  | all children ih =>
    simp only [canonical, toLiteral, Json.nesting, Json.nestingOfEntries, hlist ih]
  | any children ih =>
    simp only [canonical, toLiteral, Json.nesting, Json.nestingOfEntries, hlist ih]

/-! ### Texts -/

theorem parse_literal {d : Document} (hwords : d.IsWord)
    (hdepth : d.toLiteral.nesting ≤ Json.maxDepth) : parse d.literal = .ok d.canonical := by
  obtain ⟨entries, hd, hread⟩ := ofObject_toLiteral d.canonical
  rw [parse, literal, Json.parse_text (numbers_toLiteral hwords) hdepth]
  dsimp only
  rw [toLiteral_sorted, hd, ofJson, hread]

theorem text_eq_literal (d : Document) : d.text = d.canonical.literal := by
  rw [text, toJson, toLiteral_sorted, literal]

theorem parse_text {d : Document} (hwords : d.IsWord)
    (hdepth : d.toLiteral.nesting ≤ Json.maxDepth) : parse d.text = .ok d.canonical := by
  rw [text_eq_literal, parse_literal hwords.canonical ((nesting_canonical d).trans_le hdepth),
    canonical_of_inOrder (inOrder_canonical d)]

/-- **Both writers are read as the canonical form,** which is the document itself if its leaves are
sorted and free of repeats. -/
theorem parse_text_and_literal {d : Document} (hwords : d.IsWord)
    (hdepth : d.toLiteral.nesting ≤ Json.maxDepth) :
    parse d.text = .ok d.canonical ∧ parse d.literal = .ok d.canonical ∧
      (d.InOrder → parse d.text = .ok d ∧ parse d.literal = .ok d) := by
  have htext := parse_text hwords hdepth
  have hliteral := parse_literal hwords hdepth
  refine ⟨htext, hliteral, fun h => ?_⟩
  rw [canonical_of_inOrder h] at htext hliteral
  exact ⟨htext, hliteral⟩

/-- A document with an unsorted leaf and a repeated field, a negated empty document, an empty list,
an empty leaf and the least and greatest numbers. -/
theorem parse_text_and_literal_mixed :
    let d := all [leaf .equal [("b", .string "\"\\\n\x01"), ("a", .null),
      ("b", .number (.integer (2 ^ 64 - 1)))], not empty, any [], leaf .present [],
      leaf (.compare .lt) [("n", .number (.integer (-2 ^ 63)))]]
    let e := all [leaf .equal [("a", .null), ("b", .number (.integer (2 ^ 64 - 1)))],
      not empty, any [], leaf .present [],
      leaf (.compare .lt) [("n", .number (.integer (-2 ^ 63)))]]
    (d.IsWord ∧ d.toLiteral.nesting ≤ Json.maxDepth) ∧
      parse d.text = .ok e ∧ parse d.literal = .ok e := by
  intro d e
  have hwords : d.IsWord := by decide
  have hdepth : d.toLiteral.nesting ≤ Json.maxDepth := by decide
  have hcanonical : d.canonical = e := by
    simp only [d, canonical, canonicals, ← Json.sortEntries_eq_collapsed]
    rfl
  obtain ⟨htext, hliteral, -⟩ := parse_text_and_literal hwords hdepth
  exact ⟨⟨hwords, hdepth⟩, hcanonical ▸ htext, hcanonical ▸ hliteral⟩

end Document

end TableFilter
