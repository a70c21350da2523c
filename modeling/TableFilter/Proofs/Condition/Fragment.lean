import TableFilter.Proofs.Condition.Grammar
import TableFilter.Proofs.Document.RoundTrip

/-!
# The shape of fragments

A condition compiles to a single test of one field, to the negation of one, or to several tests of
which all or any must hold, the latter possibly negated (`Condition.isFragment_of_fragment?`). A
test never compares by being different, and asks for presence with the scalar true. This is the
grammar of fragments with less said of them: it is all that the order of their entries and the depth
of their texts depend on.
-/

namespace TableFilter

namespace Document

/-- Whether the document is a leaf with one field as the compiler writes it. -/
def IsTest : Document → Prop
  | leaf test [(_, value)] => test ≠ .compare .ne ∧ (test = .present → value = .bool true)
  | _ => False

/-- The shapes of compiled conditions. -/
inductive IsFragment : Document → Prop where
  | test {d : Document} (h : d.IsTest) : IsFragment d
  | notTest {d : Document} (h : d.IsTest) : IsFragment (not d)
  | all {ds : List Document} (hlen : 2 ≤ ds.length) (h : ∀ d ∈ ds, d.IsTest) : IsFragment (all ds)
  | any {ds : List Document} (hlen : 2 ≤ ds.length) (h : ∀ d ∈ ds, d.IsTest) : IsFragment (any ds)
  | notAny {ds : List Document} (hlen : 2 ≤ ds.length) (h : ∀ d ∈ ds, d.IsTest) :
      IsFragment (not (any ds))

theorem IsTest.eq_leaf {d : Document} (h : d.IsTest) :
    ∃ test field value, d = leaf test [(field, value)] ∧
      test ≠ .compare .ne ∧ (test = .present → value = .bool true) := by
  unfold IsTest at h
  split at h
  · exact ⟨_, _, _, rfl, h⟩
  · exact absurd h id

theorem IsLeafOn.isTest {field : String} {d : Document} (h : d.IsLeafOn field) : d.IsTest := by
  cases h with
  | equal => exact ⟨nofun, nofun⟩
  | present => exact ⟨nofun, fun _ => rfl⟩
  | compare hc => exact ⟨fun h => hc (Test.compare.inj h), nofun⟩

theorem isTest_choice {field : String} {values : List Scalar} (h : ∀ v ∈ values, v ≠ .null) :
    ∀ d ∈ values.map (Document.equal field), d.IsTest := by
  intro d hd
  obtain ⟨v, hv, rfl⟩ := List.mem_map.1 hd
  exact IsLeafOn.isTest (.equal (h v hv))

theorem IsFragmentOn.isFragment {field : String} {d : Document} (h : d.IsFragmentOn field) :
    d.IsFragment := by
  cases h with
  | leaf h => exact .test h.isTest
  | notEqual h => exact .notTest (IsLeafOn.isTest (.equal h))
  | notPresent => exact .notTest (IsLeafOn.isTest .present)
  | bounds hlow hhigh =>
    refine .all (Nat.le_refl 2)
      (List.forall_mem_cons.2 ⟨IsLeafOn.isTest (.compare nofun hlow), ?_⟩)
    exact List.forall_mem_singleton.2 (IsLeafOn.isTest (.compare nofun hhigh))
  | choice hlen h => exact .any ((List.length_map _).symm ▸ hlen) (isTest_choice h)
  | notChoice hlen h => exact .notAny ((List.length_map _).symm ▸ hlen) (isTest_choice h)

end Document

open Document

/-- **A condition compiles to one of the five shapes.** -/
theorem Condition.isFragment_of_fragment? {c : Condition} {d : Document}
    (h : c.fragment? = some d) : d.IsFragment := by
  obtain ⟨field, hd⟩ := isFragmentOn_of_fragment? h
  exact hd.isFragment

theorem Conditions.isFragment_of_mem {r : Registry} {cs : List Condition} {d : Document}
    (h : d ∈ fragments r cs) : d.IsFragment := by
  obtain ⟨c, -, hc⟩ := List.mem_filterMap.1 h
  exact Condition.isFragment_of_fragment? hc

/-! ### Compiled documents -/

namespace Document

theorem leaves_combine (join : Join) (ds : List Document) :
    (combine join ds).leaves = ds.flatMap leaves := by
  rcases length_cases ds with rfl | ⟨d, rfl⟩ | hlen
  · rfl
  · simp [combine]
  · rw [combine_of_two_le hlen]
    cases join <;> exact leavesOf_eq ds

/-- What holds of the leaves of documents holds of those of the joined ones. -/
theorem forall_leaves_combine {P : List (String × Scalar) → Prop} {ds : List Document}
    (h : ∀ d ∈ ds, ∀ fields ∈ d.leaves, P fields) (join : Join) :
    ∀ fields ∈ (combine join ds).leaves, P fields := by
  intro fields hf
  rw [leaves_combine] at hf
  obtain ⟨d, hd, hf⟩ := List.mem_flatMap.1 hf
  exact h d hd fields hf

theorem IsTest.leaves {d : Document} (h : d.IsTest) : ∃ e, d.leaves = [[e]] := by
  obtain ⟨test, field, value, rfl, -⟩ := h.eq_leaf
  exact ⟨_, rfl⟩

theorem IsFragment.inOrder {d : Document} (h : d.IsFragment) : d.InOrder := by
  have htest {d : Document} (h : d.IsTest) : d.InOrder := by
    obtain ⟨e, he⟩ := h.leaves
    intro fields hf
    rw [he, List.mem_singleton] at hf
    exact hf ▸ Json.inOrder_singleton e.1 e.2
  have htests {ds : List Document} (h : ∀ d ∈ ds, d.IsTest) :
      ∀ fields ∈ leavesOf ds, Json.InOrder fields := by
    intro fields hf
    rw [leavesOf_eq] at hf
    obtain ⟨d, hd, hf⟩ := List.mem_flatMap.1 hf
    exact htest (h d hd) fields hf
  cases h with
  | test h => exact htest h
  | notTest h =>
    have hinner := htest h
    exact hinner
  | all _ h => exact htests h
  | any _ h => exact htests h
  | notAny _ h => exact htests h

theorem nestingOfItems_le {ds : List Document} {n : Nat}
    (h : ∀ d ∈ ds, d.toLiteral.nesting ≤ n) : Json.nestingOfItems (toLiterals ds) ≤ n := by
  induction ds with
  | nil => exact Nat.zero_le n
  | cons d ds ih =>
    rw [List.forall_mem_cons] at h
    exact Nat.max_le.2 ⟨h.1, ih h.2⟩

theorem nesting_singleton (key : String) (j : Json) :
    (Json.object [(key, j)]).nesting = j.nesting + 1 := by
  simp [Json.nesting, Json.nestingOfEntries]

theorem IsTest.nesting {d : Document} (h : d.IsTest) : d.toLiteral.nesting = 2 := by
  obtain ⟨test, field, value, rfl, -⟩ := h.eq_leaf
  rw [toLiteral, nesting_singleton, Json.nesting, nestingOfEntries_fieldEntries]

theorem IsFragment.nesting_le {d : Document} (h : d.IsFragment) : d.toLiteral.nesting ≤ 5 := by
  have htests {ds : List Document} (h : ∀ d ∈ ds, d.IsTest) :
      Json.nestingOfItems (toLiterals ds) ≤ 2 := nestingOfItems_le fun d hd => (h d hd).nesting.le
  cases h with
  | test h => have := h.nesting; omega
  | notTest h =>
    have := h.nesting
    rw [toLiteral, nesting_singleton]
    omega
  | all _ h | any _ h =>
    have := htests h
    rw [toLiteral, nesting_singleton, Json.nesting]
    omega
  | notAny _ h =>
    have := htests h
    rw [toLiteral, nesting_singleton, toLiteral, nesting_singleton, Json.nesting]
    omega

theorem inOrder_combine {ds : List Document} (h : ∀ d ∈ ds, d.InOrder) (join : Join) :
    (combine join ds).InOrder :=
  forall_leaves_combine h join

theorem nesting_combine_le {ds : List Document} {n : Nat} (h : ∀ d ∈ ds, d.toLiteral.nesting ≤ n)
    (join : Join) : (combine join ds).toLiteral.nesting ≤ n + 2 := by
  rcases length_cases ds with rfl | ⟨d, rfl⟩ | hlen
  · exact Nat.le_add_left 1 (n + 1)
  · exact (h d (List.mem_singleton_self d)).trans (Nat.le_add_right n 2)
  · have := nestingOfItems_le h
    rw [combine_of_two_le hlen]
    cases join <;> (dsimp only; rw [toLiteral, nesting_singleton, Json.nesting]; omega)

end Document

namespace Conditions

theorem inOrder_document (cs : Conditions) (r : Registry) : (cs.document r).InOrder :=
  inOrder_combine (fun _ hd => (isFragment_of_mem hd).inOrder) _

theorem nesting_document_le (cs : Conditions) (r : Registry) :
    (cs.document r).toLiteral.nesting ≤ Json.maxDepth :=
  (nesting_combine_le (fun _ hd => (isFragment_of_mem hd).nesting_le) _).trans (by decide)

end Conditions

end TableFilter
