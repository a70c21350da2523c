import Mathlib.Data.List.TakeWhile
import TableFilter.Document.Conditions
import TableFilter.Proofs.Condition.Scalars
import TableFilter.Proofs.Json.Unambiguous

/-!
# Conditions recovered from a text

A query document gives conditions, one for each test of a field in it, and these compile to
fragments again.

* A text that is a document has a character that is not blank, and gives the conditions of that
  document (`Conditions.ofText_of_parse`).
* The `Document.questions` of a document are its tests of single fields, and the conditions that the
  document gives are those of its questions.
* Compiled conditions give those of their document back, its numbers exchanged for the ones that
  their texts denote (`Conditions.ofText_text_eq_reread`).
* `Question.recovered` is what the condition of a question compiles to. It holds no number, so that
  nothing is lost when the document is written and read (`Conditions.ofText_text`).
* Whatever a text is, the conditions read from it compile to a document without numbers
  (`noNumbers_document_ofText`), which no other document shares its text with
  (`document_eq_of_text_eq`).
-/

namespace TableFilter

theorem Text.trimmed_ne_nil {c : Char} (h : isBlank c = false) (cs : List Char) :
    trimmed (c :: cs) ≠ [] := by
  unfold trimmed
  rw [List.dropWhile_cons_of_neg (by simp [h]), ne_eq, List.reverse_eq_nil_iff,
    List.dropWhile_eq_nil_iff]
  intro hall
  have hc := hall c (by simp)
  rw [h] at hc
  exact absurd hc (by decide)

namespace Json

theorem trimmed_skipBlanks (cs : List Char) : Text.trimmed (skipBlanks cs) = Text.trimmed cs := by
  induction cs with
  | nil => rfl
  | cons c cs ih =>
    rw [skipBlanks]
    split
    · next h =>
      have hblank : Text.isBlank c = true := by rcases h with rfl | rfl | rfl | rfl <;> decide
      rw [ih, Text.trimmed, Text.trimmed, List.dropWhile_cons_of_pos hblank]
    · rfl

theorem isBlank_eq_false_of_digit? {c : Char} (h : (Number.digit? c).isSome = true) :
    Text.isBlank c = false := by
  have hrange : '0' ≤ c ∧ c ≤ '9' := by
    by_contra hrange
    simp [Number.digit?, hrange] at h
  have hlow : 48 ≤ c.toNat := hrange.1
  have hhigh : c.toNat ≤ 57 := hrange.2
  simp [Text.isBlank]
  omega

/-- A value that could be read begins with a character that is not blank in any sense. -/
theorem exists_of_readValue {n depth : Nat} {cs : List Char} {j : Json}
    (h : (readValue n cs).1.toJson depth = .ok j) :
    ∃ c r, skipBlanks cs = c :: r ∧ Text.isBlank c = false := by
  cases n with
  | zero => cases h
  | succ n =>
    rw [readValue] at h
    split at h
    · cases h
    -- Strings, arrays, objects and words begin with fixed characters, only numbers do not.
    any_goals exact ⟨_, _, ‹_›, rfl⟩
    next c r _ _ _ _ _ _ hskip =>
    split at h
    · next hc =>
      refine ⟨c, r, hskip, ?_⟩
      rcases hc with rfl | hdigit
      · decide
      · exact isBlank_eq_false_of_digit? hdigit
    · cases h

/-- A text of blank characters only is no value. -/
theorem isEmpty_trim_of_parse {s : String} {j : Json} (h : parse s = .ok j) :
    (Text.trim s).isEmpty = false := by
  have hread : (read s).1.toJson maxDepth = .ok j := by
    unfold parse at h
    dsimp only at h
    split at h
    · cases h
    · exact h
  have hvalue : (read s).1 = (readValue (2 * s.toList.length + 2) s.toList).1 := by
    unfold read
    split <;> simp [*]
  rw [hvalue] at hread
  obtain ⟨c, r, hskip, hc⟩ := exists_of_readValue hread
  rw [Text.trim, ← trimmed_skipBlanks, hskip, Bool.eq_false_iff]
  intro hempty
  exact Text.trimmed_ne_nil hc r (by simpa using hempty)

end Json

namespace Document

/-- Whether no scalar of the document is a number. -/
def NoNumbers (d : Document) : Prop := ∀ fields ∈ d.leaves, ∀ e ∈ fields, ∀ n, e.2 ≠ .number n

theorem NoNumbers.isWord {d : Document} (h : d.NoNumbers) : d.IsWord := by
  intro fields hf e he
  cases hs : e.2 with
  | number n => exact absurd hs (h fields hf e he n)
  | _ => trivial

theorem NoNumbers.numbers_eq_nil {d : Document} (h : d.NoNumbers) : d.toLiteral.numbers = [] := by
  rw [List.eq_nil_iff_forall_not_mem]
  intro n hn
  obtain ⟨fields, hf, e, he, hs⟩ := mem_leaves_of_mem_numbers hn
  exact h fields hf e he n hs

theorem noNumbers_combine {ds : List Document} (h : ∀ d ∈ ds, d.NoNumbers) (join : Join) :
    (combine join ds).NoNumbers :=
  forall_leaves_combine h join

theorem noNumbers_singleton {d : Document} {e : String × Scalar} (hd : d.leaves = [[e]])
    (h : ∀ n, e.2 ≠ .number n) : d.NoNumbers := by
  intro fields hf f he n
  rw [hd, List.mem_singleton] at hf
  rw [hf, List.mem_singleton] at he
  exact he ▸ h n

end Document

open Document

/-- A test of one field with its scalar. -/
structure Question where
  test : Test
  field : String
  value : Scalar
  deriving DecidableEq, Repr

namespace Question

/-- The condition that a question gives. -/
def condition (q : Question) : Condition := q.test.condition q.field q.value

/-- What the condition of a question compiles to: the question with its scalar as a text, or the
negation of one if it asks for being different or absent. -/
def recovered (q : Question) : Document :=
  match q.test with
  | .equal => .equal q.field (.string q.value.text)
  | .compare .ne => .not (.equal q.field (.string q.value.text))
  | .compare c => .compare c q.field (.string q.value.text)
  | .present => if q.value.isTruthy then .present q.field else .not (.present q.field)

theorem fragment?_condition (q : Question) : q.condition.fragment? = some q.recovered := by
  obtain ⟨test, field, value⟩ := q
  cases test with
  | equal => rfl
  | compare c => cases c <;> rfl
  | present =>
    unfold condition recovered Test.condition
    dsimp only
    split <;> rfl

/-- A question is recovered as one test of its field or as the negation of one. -/
theorem recovered_eq (q : Question) : ∃ test value, (∀ n, value ≠ Scalar.number n) ∧
    (q.recovered = .leaf test [(q.field, value)] ∨
      q.recovered = .not (.leaf test [(q.field, value)])) := by
  obtain ⟨test, field, value⟩ := q
  cases test with
  | equal => exact ⟨_, .string value.text, fun _ => nofun, .inl rfl⟩
  | compare c =>
    cases c with
    | ne => exact ⟨_, .string value.text, fun _ => nofun, .inr rfl⟩
    | _ => exact ⟨_, .string value.text, fun _ => nofun, .inl rfl⟩
  | present =>
    unfold recovered
    dsimp only
    split
    · exact ⟨_, .bool true, fun _ => nofun, .inl rfl⟩
    · exact ⟨_, .bool true, fun _ => nofun, .inr rfl⟩

/-- There are no numbers in what a question is recovered as. -/
theorem noNumbers_recovered (q : Question) : q.recovered.NoNumbers := by
  obtain ⟨test, value, hvalue, h | h⟩ := q.recovered_eq <;> rw [h]
  · exact noNumbers_singleton rfl hvalue
  · exact noNumbers_singleton rfl hvalue

theorem field_condition (q : Question) : q.condition.field = q.field := by
  obtain ⟨test, field, value⟩ := q
  cases test <;> rfl

end Question

namespace Document

mutual

/-- The tests of single fields in a document, in order. -/
def questions : Document → List Question
  | empty => []
  | leaf test fields => fields.map fun (field, value) => ⟨test, field, value⟩
  | not inner => inner.questions
  | all children => questionsOf children
  | any children => questionsOf children

/-- The tests of single fields in documents. -/
def questionsOf : List Document → List Question
  | [] => []
  | d :: ds => d.questions ++ questionsOf ds

end

theorem questionsOf_eq (ds : List Document) : questionsOf ds = ds.flatMap questions := by
  induction ds with
  | nil => rfl
  | cons d ds ih => rw [questionsOf, ih, List.flatMap_cons]

theorem conditionsOf_eq (ds : List Document) : conditionsOf ds = ds.flatMap conditions := by
  induction ds with
  | nil => rfl
  | cons d ds ih => rw [conditionsOf, ih, List.flatMap_cons]

/-- The conditions of a document are those of its questions. -/
theorem conditions_eq (d : Document) : d.conditions = d.questions.map Question.condition := by
  have hlist {ds : List Document}
      (ih : ∀ d ∈ ds, d.conditions = d.questions.map Question.condition) :
      conditionsOf ds = (questionsOf ds).map Question.condition := by
    rw [conditionsOf_eq, questionsOf_eq, List.map_flatMap]
    exact List.flatMap_congr ih
  induction d using Document.induction with
  | empty => rfl
  | leaf test fields =>
    rw [conditions, questions, List.map_map]
    rfl
  | not inner ih => exact ih
  | all children ih => exact hlist ih
  | any children ih => exact hlist ih

theorem questions_combine (join : Join) (ds : List Document) :
    (combine join ds).questions = ds.flatMap questions := by
  rcases length_cases ds with rfl | ⟨d, rfl⟩ | hlen
  · rfl
  · simp [combine]
  · rw [combine_of_two_le hlen]
    cases join <;> exact questionsOf_eq ds

end Document

theorem Question.questions_recovered (q : Question) :
    ∃ again, q.recovered.questions = [again] ∧ again.field = q.field := by
  obtain ⟨test, value, -, h | h⟩ := q.recovered_eq <;> rw [h]
  · exact ⟨_, rfl, rfl⟩
  · exact ⟨_, rfl, rfl⟩

namespace Conditions

open Document

/-- What the conditions of questions compile to. -/
theorem fragments_questions (r : Registry) (qs : List Question) :
    fragments r (qs.map Question.condition) =
      (qs.filter fun q => !r.isStandalone q.field).map Question.recovered := by
  induction qs with
  | nil => rfl
  | cons q qs ih =>
    unfold fragments at ih ⊢
    rw [List.map_cons, List.filter_cons, List.filter_cons, q.field_condition]
    split
    · rw [List.filterMap_cons, q.fragment?_condition, ih, List.map_cons]
    · exact ih

theorem conditions_ofDocument (d : Document) :
    (ofDocument d).conditions = d.questions.map Question.condition := d.conditions_eq

/-- What the conditions of a document compile to, and their join. -/
theorem document_ofDocument (r : Registry) (d : Document) :
    (ofDocument d).document r = .combine (if d.hasAny then .or else .and)
      ((d.questions.filter fun q => !r.isStandalone q.field).map Question.recovered) := by
  rw [document, conditions_ofDocument, fragments_questions, ofDocument]

/-! ### Texts -/

theorem isEmpty_iff (d : Document) : d.isEmpty = true ↔ d = .empty := by
  cases d <;> simp [Document.isEmpty]

theorem text_eq (cs : Conditions) (r : Registry) :
    cs.text r = if (cs.document r).isEmpty then "" else (cs.document r).literal := by
  rw [text, text_eq_literal, canonical_of_inOrder (cs.inOrder_document r)]

theorem text_congr {cs others : Conditions} {r : Registry}
    (h : cs.document r = others.document r) : cs.text r = others.text r := by
  rw [text_eq, text_eq, h]

theorem literal_eq_cons (d : Document) : ∃ cs, d.literal.toList = '\x7b' :: cs := by
  obtain ⟨entries, hd, -⟩ := ofObject_toLiteral d
  rw [literal, hd, Json.text, String.toList_ofList]
  exact ⟨_, rfl⟩

theorem literal_ne_empty (d : Document) : d.literal ≠ "" := by
  obtain ⟨cs, hcs⟩ := literal_eq_cons d
  intro h
  rw [h] at hcs
  exact absurd hcs (by simp)

theorem toLiteral_inj {d e : Document} (h : d.toLiteral = e.toLiteral) : d = e := by
  obtain ⟨entries, hd, hread⟩ := ofObject_toLiteral d
  obtain ⟨others, he, hother⟩ := ofObject_toLiteral e
  rw [hd, he] at h
  rw [← hread, ← hother, Json.object.inj h]

/-- Conditions that compile to a text compile to one document, if it is one without numbers. -/
theorem document_eq_of_text_eq {cs others : Conditions} {r : Registry}
    (hnumbers : (others.document r).toLiteral.numbers = []) (h : cs.text r = others.text r) :
    cs.document r = others.document r := by
  -- Only the empty document has the empty text.
  rw [text_eq, text_eq] at h
  split at h
  · next hd =>
    split at h
    · next he => rw [(isEmpty_iff _).1 hd, (isEmpty_iff _).1 he]
    · exact absurd h.symm (literal_ne_empty _)
  · split at h
    · exact absurd h (literal_ne_empty _)
    · exact toLiteral_inj (Json.text_inj hnumbers h)

theorem trim_literal (d : Document) : (Text.trim d.literal).isEmpty = false := by
  obtain ⟨cs, hcs⟩ := literal_eq_cons d
  have hne := Text.trimmed_ne_nil (show Text.isBlank '\x7b' = false by decide) cs
  rw [Text.trim, hcs, Bool.eq_false_iff]
  intro h
  exact hne (by simpa using h)

/-- A text that is a document gives the conditions of that document. -/
theorem ofText_of_parse {s : String} {d : Document} (h : Document.parse s = .ok d) :
    ofText s = ofDocument d := by
  have hblank : (Text.trim s).isEmpty = false := by
    unfold Document.parse at h
    split at h
    · next hvalue => exact Json.isEmpty_trim_of_parse hvalue
    · cases h
  simp [ofText, hblank, h]

/-- The text of a document in order gives the conditions of the document with its numbers
exchanged. -/
theorem ofText_document_text {d : Document} (horder : d.InOrder) (hstored : d.IsStored)
    (hdepth : d.toLiteral.nesting ≤ Json.maxDepth) : ofText d.text = ofDocument d.reread := by
  have hparse := parse_literal_of_isStored hstored hdepth
  rw [canonical_of_inOrder (inOrder_reread horder)] at hparse
  rw [text_eq_literal, canonical_of_inOrder horder, ofText, trim_literal, hparse]
  rfl

/-- **Compiled conditions give those of their document back,** with its numbers exchanged. -/
theorem ofText_text_eq_reread (cs : Conditions) (r : Registry) :
    ofText (cs.text r) = ofDocument (cs.document r).reread := by
  unfold text
  dsimp only
  split
  · next hempty =>
    rw [(isEmpty_iff _).1 hempty]
    rfl
  · exact ofText_document_text (cs.inOrder_document r) (cs.isStored_document r)
      (cs.nesting_document_le r)

/-- Conditions whose document has no numbers but whole ones of 64 bits give the conditions of that
document back. -/
theorem ofText_text {cs : Conditions} {r : Registry} (h : (cs.document r).IsWord) :
    ofText (cs.text r) = ofDocument (cs.document r) := by
  rw [ofText_text_eq_reread, reread_of_isWord h]

/-- The conditions of a text are those of questions. -/
theorem conditions_ofText (s : String) :
    ∃ qs : List Question, (ofText s).conditions = qs.map Question.condition := by
  unfold ofText
  split
  · exact ⟨[], rfl⟩
  split
  · next d _ => exact ⟨d.questions, d.conditions_eq⟩
  · exact ⟨[], rfl⟩

/-- **Conditions read from a text compile to a document without numbers,** whatever the text is. -/
theorem noNumbers_document_ofText (s : String) (r : Registry) :
    ((ofText s).document r).NoNumbers := by
  obtain ⟨qs, hqs⟩ := conditions_ofText s
  rw [document, hqs, fragments_questions]
  refine noNumbers_combine (fun d hd => ?_) _
  obtain ⟨q, -, rfl⟩ := List.mem_map.1 hd
  exact q.noNumbers_recovered

/-- A text that was compiled from the conditions of another gives those of their document. -/
theorem ofText_text_ofText (s : String) (r : Registry) :
    ofText ((ofText s).text r) = ofDocument ((ofText s).document r) :=
  ofText_text (noNumbers_document_ofText s r).isWord

end Conditions

end TableFilter
