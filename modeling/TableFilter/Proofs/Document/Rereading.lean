import TableFilter.Proofs.Document.RoundTrip

/-!
# Numbers of documents read back

A document whose numbers are such as JSON data holds is read back from its text, but for its
floating-point numbers: each of them becomes the one that its text denotes, which may be a neighbour
(`Document.parse_literal_of_isStored`).

* `Document.reread` is the document with its numbers so exchanged. It is the document itself if every
  number is read as itself (`Document.reread_eq_self`).
* The tests and the fields of a document stay, and so do its shape and whether an alternative occurs
  in it.
-/

namespace TableFilter

namespace Scalar

/-- The scalar, if it is a number exchanged for the one that its text denotes. -/
def reread : Scalar → Scalar
  | .number n => .number n.reread
  | s => s

/-- Whether the scalar, if it is a number, is one that JSON data holds. -/
def IsStored : Scalar → Prop
  | .number n => n.IsStored
  | _ => True

theorem toJson_reread (s : Scalar) : s.reread.toJson = s.toJson.reread := by
  cases s <;> rfl

end Scalar

namespace Document

mutual

/-- The document with every number exchanged for the one that its text denotes. -/
def reread : Document → Document
  | empty => empty
  | leaf test fields => leaf test (fields.map fun e => (e.1, e.2.reread))
  | not inner => not inner.reread
  | all children => all (rereads children)
  | any children => any (rereads children)

/-- The documents with every number exchanged. -/
def rereads : List Document → List Document
  | [] => []
  | d :: ds => d.reread :: rereads ds

end

/-- Whether every number in the document is one that JSON data holds. -/
def IsStored (d : Document) : Prop := ∀ fields ∈ d.leaves, ∀ e ∈ fields, Scalar.IsStored e.2

theorem rereads_eq (ds : List Document) : rereads ds = ds.map reread := by
  induction ds with
  | nil => rfl
  | cons d ds ih => rw [rereads, ih, List.map_cons]

/-- The numbers of a document's data are exchanged as those of the document. -/
theorem toLiteral_reread (d : Document) : d.reread.toLiteral = d.toLiteral.reread := by
  have hlist {ds : List Document} (ih : ∀ d ∈ ds, d.reread.toLiteral = d.toLiteral.reread) :
      toLiterals (rereads ds) = Json.rereadItems (toLiterals ds) := by
    rw [toLiterals_eq, rereads_eq, Json.rereadItems_eq, toLiterals_eq, List.map_map, List.map_map]
    exact List.map_congr_left ih
  induction d using Document.induction with
  | empty => rfl
  | leaf test fields =>
    simp only [reread, toLiteral, Json.reread, Json.rereadEntries]
    rw [fieldEntries_eq, fieldEntries_eq, Json.rereadEntries_eq, List.map_map, List.map_map]
    simp only [Function.comp_def, Scalar.toJson_reread]
  | not inner ih => simp only [reread, toLiteral, Json.reread, Json.rereadEntries, ih]
  | all children ih => simp only [reread, toLiteral, Json.reread, Json.rereadEntries, hlist ih]
  | any children ih => simp only [reread, toLiteral, Json.reread, Json.rereadEntries, hlist ih]

theorem leaves_reread (d : Document) :
    d.reread.leaves = d.leaves.map fun fields => fields.map fun e => (e.1, e.2.reread) := by
  have hlist {ds : List Document}
      (ih : ∀ d ∈ ds, d.reread.leaves = d.leaves.map fun fields =>
        fields.map fun e => (e.1, e.2.reread)) :
      leavesOf (rereads ds) = (leavesOf ds).map fun fields =>
        fields.map fun e => (e.1, e.2.reread) := by
    rw [leavesOf_eq, leavesOf_eq, rereads_eq, List.flatMap_map, List.map_flatMap]
    exact List.flatMap_congr ih
  induction d using Document.induction with
  | empty => rfl
  | leaf test fields => rfl
  | not inner ih => exact ih
  | all children ih => exact hlist ih
  | any children ih => exact hlist ih

theorem reread_eq_self {d : Document} (h : ∀ fields ∈ d.leaves, ∀ e ∈ fields, e.2.reread = e.2) :
    d.reread = d := by
  have hlist {ds : List Document}
      (ih : ∀ d ∈ ds, (∀ fields ∈ d.leaves, ∀ e ∈ fields, e.2.reread = e.2) → d.reread = d)
      (h : ∀ fields ∈ leavesOf ds, ∀ e ∈ fields, e.2.reread = e.2) : rereads ds = ds := by
    rw [leavesOf_eq] at h
    rw [rereads_eq]
    refine (List.map_congr_left fun d hd => ih d hd fun fields hf => ?_).trans (List.map_id ds)
    exact h fields (List.mem_flatMap.2 ⟨d, hd, hf⟩)
  induction d using Document.induction with
  | empty => rfl
  | leaf test fields =>
    have hentry : ∀ e ∈ fields, (e.1, e.2.reread) = id e := fun e he =>
      congrArg (Prod.mk e.1) (h fields (List.mem_singleton_self _) e he)
    rw [reread, List.map_congr_left hentry, List.map_id]
  | not inner ih => rw [reread, ih h]
  | all children ih => rw [reread, hlist ih h]
  | any children ih => rw [reread, hlist ih h]

theorem reread_of_isWord {d : Document} (h : d.IsWord) : d.reread = d := by
  refine reread_eq_self fun fields hf e he => ?_
  have hword := h fields hf e he
  cases hs : e.2 with
  | number n =>
    rw [hs] at hword
    exact congrArg Scalar.number (Json.Number.reread_of_isWord hword)
  | _ => rfl

theorem reread_combine (join : Join) (ds : List Document) :
    (combine join ds).reread = combine join (ds.map reread) := by
  match ds with
  | [] => rfl
  | [d] => rfl
  | d :: e :: ds => cases join <;> simp only [combine, reread, rereads_eq, List.map_cons]

theorem hasAny_reread (d : Document) : d.reread.hasAny = d.hasAny := by
  have hlist {ds : List Document} (ih : ∀ d ∈ ds, d.reread.hasAny = d.hasAny) :
      someHasAny (rereads ds) = someHasAny ds := by
    induction ds with
    | nil => rfl
    | cons d ds ihs =>
      rw [List.forall_mem_cons] at ih
      rw [rereads, someHasAny, someHasAny, ih.1, ihs ih.2]
  induction d using Document.induction with
  | empty => rfl
  | leaf test fields => rfl
  | not inner ih => exact ih
  | all children ih => exact hlist ih
  | any children ih => rfl

theorem inOrder_reread {d : Document} (h : d.InOrder) : d.reread.InOrder := by
  intro fields hf
  rw [leaves_reread] at hf
  obtain ⟨written, hw, rfl⟩ := List.mem_map.1 hf
  unfold Json.InOrder
  rw [List.map_map]
  exact h written hw

/-! ### Texts -/

theorem numbers_of_isStored {d : Document} (h : d.IsStored) :
    ∀ n ∈ d.toLiteral.numbers, n.IsStored := by
  intro n hn
  obtain ⟨fields, hf, e, he, hs⟩ := mem_leaves_of_mem_numbers hn
  have hstored := h fields hf e he
  rwa [hs] at hstored

/-- **A document is read back from its text with its numbers exchanged.** -/
theorem parse_literal_of_isStored {d : Document} (hstored : d.IsStored)
    (hdepth : d.toLiteral.nesting ≤ Json.maxDepth) : parse d.literal = .ok d.reread.canonical := by
  obtain ⟨entries, hd, hread⟩ := ofObject_toLiteral d.reread.canonical
  rw [parse, literal, Json.parse_text_of_isStored (numbers_of_isStored hstored) hdepth]
  dsimp only
  rw [← toLiteral_reread, toLiteral_sorted, hd, ofJson, hread]

end Document

end TableFilter
