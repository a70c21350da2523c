import Mathlib.Data.List.Nodup
import TableFilter.Field.Registry
import TableFilter.Proofs.Keyed

/-!
# The validation of field registries

* Declaring fields one after the other leaves one field for each id, in the order in which the ids
  first came, with the configuration that was given last (`Keyed.ofList_eq`).
* A configuration `Breaks` the rules of its operators, its bounds and its step. The problem that is
  reported is of the first of these (`FieldConfig.problem?_eq_some_iff`).
* A registry is refused for the first field that is not sound, and if all are sound, for the first
  field whose parameter is used already (`Registry.problem?_eq_some_iff`); it passes if there is no
  such field (`Registry.problem?_eq_none_iff`).
-/

namespace TableFilter

/-! ### One field -/

namespace FieldConfig

/-- Whether the configuration has a problem. -/
inductive Breaks (c : FieldConfig) : FieldProblem → Prop
  | noOperators (h : c.operators = some []) : Breaks c .noOperators
  | reversedBounds {min max : Number.Binary64} (hmin : c.min = some min) (hmax : c.max = some max)
      (h : max.lt min = true) : Breaks c (.reversedBounds min max)
  | badStep {step : Number.Binary64} (hstep : c.step = some step)
      (h : ¬(step.isFinite = true ∧ step.isPositive = true)) : Breaks c (.badStep step)

/-- A configuration without a problem: an override of the operators names some, a lower bound is not
greater than an upper one, and a step is finite and positive. -/
structure IsSound (c : FieldConfig) : Prop where
  operators : c.operators ≠ some []
  bounds : ∀ min ∈ c.min, ∀ max ∈ c.max, max.lt min = false
  step : ∀ step ∈ c.step, step.isFinite = true ∧ step.isPositive = true

end FieldConfig

/-- The order in which the problems of a field are looked for. -/
def FieldProblem.rank : FieldProblem → Nat
  | .noOperators => 0
  | .reversedBounds .. => 1
  | .badStep _ => 2

namespace FieldConfig

variable {c : FieldConfig} {p : FieldProblem}

theorem isSound_iff : c.IsSound ↔ ∀ p, ¬c.Breaks p := by
  constructor
  · rintro h p (hop | ⟨hmin, hmax, hlt⟩ | ⟨hstep, hbad⟩)
    · exact h.operators hop
    · rw [h.bounds _ hmin _ hmax] at hlt
      cases hlt
    · exact hbad (h.step _ hstep)
  · intro h
    refine ⟨fun hop => h _ (.noOperators hop), fun min hmin max hmax => ?_, fun step hstep => ?_⟩
    · exact Bool.eq_false_iff.2 fun hlt => h _ (.reversedBounds hmin hmax hlt)
    · exact Decidable.byContradiction fun hbad => h _ (.badStep hstep hbad)

/-- A configuration has one problem of each kind at most. -/
theorem Breaks.eq_of_rank {q : FieldProblem} (hp : c.Breaks p) (hq : c.Breaks q)
    (h : p.rank = q.rank) : p = q := by
  cases hp <;> cases hq <;> simp_all [FieldProblem.rank]

theorem breaks_of_boundsProblem? (h : c.boundsProblem? = some p) : c.Breaks p ∧ p.rank = 1 := by
  unfold boundsProblem? at h
  split at h
  · next hmin hmax =>
    split at h
    · next hlt =>
      cases h
      exact ⟨.reversedBounds hmin hmax hlt, rfl⟩
    · cases h
  · cases h

theorem breaks_of_stepProblem? (h : c.stepProblem? = some p) : c.Breaks p ∧ p.rank = 2 := by
  unfold stepProblem? at h
  split at h
  · next hstep =>
    split at h
    · cases h
    · next hbad =>
      cases h
      refine ⟨.badStep hstep fun hgood => hbad ?_, rfl⟩
      rw [hgood.1, hgood.2]
      rfl
  · cases h

theorem boundsProblem?_of_breaks {min max : Number.Binary64}
    (h : c.Breaks (.reversedBounds min max)) :
    c.boundsProblem? = some (.reversedBounds min max) := by
  cases h with
  | reversedBounds hmin hmax hlt =>
    rw [boundsProblem?, hmin, hmax]
    exact if_pos hlt

theorem stepProblem?_of_breaks {step : Number.Binary64} (h : c.Breaks (.badStep step)) :
    c.stepProblem? = some (.badStep step) := by
  cases h with
  | badStep hstep hbad =>
    rw [stepProblem?, hstep]
    exact if_neg fun hgood => hbad (by simpa [and_comm] using hgood)

/-- **The first problem of a field:** the operators before the bounds before the step. -/
theorem first_of_problem? (h : c.problem? = some p) :
    c.Breaks p ∧ ∀ q, c.Breaks q → p.rank ≤ q.rank := by
  unfold problem? at h
  split at h
  · next hop =>
    cases h
    exact ⟨.noOperators hop, fun q _ => Nat.zero_le _⟩
  next hop =>
  rcases Option.or_eq_some_iff.1 h with hbounds | ⟨hbounds, hstep⟩
  · obtain ⟨hbreaks, hrank⟩ := breaks_of_boundsProblem? hbounds
    refine ⟨hbreaks, fun q hq => ?_⟩
    cases hq with
    | noOperators hq => exact absurd hq hop
    | reversedBounds => exact Nat.le_of_eq hrank
    | badStep => exact Nat.le_succ_of_le (Nat.le_of_eq hrank)
  · obtain ⟨hbreaks, hrank⟩ := breaks_of_stepProblem? hstep
    refine ⟨hbreaks, fun q hq => ?_⟩
    cases hq with
    | noOperators hq => exact absurd hq hop
    | reversedBounds hmin hmax hlt =>
      rw [boundsProblem?_of_breaks (.reversedBounds hmin hmax hlt)] at hbounds
      cases hbounds
    | badStep => exact Nat.le_of_eq hrank

theorem problem?_eq_none_iff : c.problem? = none ↔ c.IsSound := by
  rw [isSound_iff]
  constructor
  · intro h q hq
    unfold problem? at h
    split at h
    · cases h
    next hop =>
    obtain ⟨hbounds, hstep⟩ := Option.or_eq_none_iff.1 h
    cases hq with
    | noOperators hq => exact hop hq
    | reversedBounds hmin hmax hlt =>
      rw [boundsProblem?_of_breaks (.reversedBounds hmin hmax hlt)] at hbounds
      cases hbounds
    | badStep hbroken hbad =>
      rw [stepProblem?_of_breaks (.badStep hbroken hbad)] at hstep
      cases hstep
  · intro h
    cases hp : c.problem? with
    | none => rfl
    | some p => exact absurd (first_of_problem? hp).1 (h p)

theorem problem?_eq_some_iff :
    c.problem? = some p ↔ c.Breaks p ∧ ∀ q, c.Breaks q → p.rank ≤ q.rank := by
  refine ⟨first_of_problem?, fun ⟨hp, hfirst⟩ => ?_⟩
  cases hq : c.problem? with
  | none => exact absurd hp (isSound_iff.1 (problem?_eq_none_iff.1 hq) p)
  | some q =>
    obtain ⟨hbreaks, hle⟩ := first_of_problem? hq
    rw [hbreaks.eq_of_rank hp (Nat.le_antisymm (hle p hp) (hfirst q hbreaks))]

end FieldConfig

/-! ### All fields -/

namespace Registry

/-- Whether no two fields have the same parameter. -/
def ParamsApart (fields : List (String × FieldConfig)) : Prop :=
  fields.Pairwise fun e f => ∀ param ∈ e.2.param, f.2.param ≠ some param

/-- The first thing wrong with fields: the first problem of the first field that is not sound; or, if
all are sound, the parameter of the first field whose parameter is one before it, with the field that
has it there. -/
inductive FirstProblem (fields : List (String × FieldConfig)) : RegistryProblem → Prop
  | field {before after : List (String × FieldConfig)} {id : String} {c : FieldConfig}
      {problem : FieldProblem} (hfields : fields = before ++ (id, c) :: after)
      (hbefore : ∀ e ∈ before, e.2.IsSound) (hbreaks : c.Breaks problem)
      (hfirst : ∀ other, c.Breaks other → problem.rank ≤ other.rank) :
      FirstProblem fields (.field id problem)
  | sharedParam {before after : List (String × FieldConfig)} {first second param : String}
      {c d : FieldConfig} (hsound : ∀ e ∈ fields, e.2.IsSound)
      (hfields : fields = before ++ (second, d) :: after) (hapart : ParamsApart before)
      (hfirst : (first, c) ∈ before) (hc : c.param = some param) (hd : d.param = some param) :
      FirstProblem fields (.sharedParam param first second)

variable {problem : RegistryProblem} {seen rest : List (String × String)} {id param : String}

theorem find?_param_eq_none_iff :
    seen.find? (·.2 == param) = none ↔ param ∉ seen.map (·.2) := by
  rw [List.find?_eq_none, List.mem_map, not_exists]
  exact forall_congr' fun e => by simp

theorem find?_param_eq_some (hseen : (seen.map (·.2)).Nodup) {first : String}
    (h : (first, param) ∈ seen) : seen.find? (·.2 == param) = some (first, param) := by
  cases hfind : seen.find? (·.2 == param) with
  | none => exact absurd (List.mem_map_of_mem h) (find?_param_eq_none_iff.1 hfind)
  | some e =>
    have hparam : e.2 = param := by simpa using List.find?_some hfind
    exact congrArg some (List.inj_on_of_nodup_map hseen (List.mem_of_find?_eq_some hfind) h hparam)

/-- Parameters that are apart stay so when one comes that none of them is. -/
theorem nodup_append_singleton (hseen : (seen.map (·.2)).Nodup)
    (h : seen.find? (·.2 == param) = none) : ((seen ++ [(id, param)]).map (·.2)).Nodup := by
  rw [List.map_append]
  exact hseen.append (List.nodup_singleton _) (by simpa using find?_param_eq_none_iff.1 h)

/-- Parameters that are apart are passed over. -/
theorem sharedParam?_append {before : List (String × String)}
    (h : ((seen ++ before).map (·.2)).Nodup) (rest : List (String × String)) :
    sharedParam? seen (before ++ rest) = sharedParam? (seen ++ before) rest := by
  induction before generalizing seen with
  | nil => rw [List.nil_append, List.append_nil]
  | cons e before ih =>
    obtain ⟨id, param⟩ := e
    rw [List.append_cons] at h ⊢
    have hfree : param ∉ seen.map (·.2) := by
      rw [List.map_append, List.map_append, List.append_assoc] at h
      exact fun hmem => (List.nodup_append.1 h).2.2 param hmem param (by simp) rfl
    rw [List.cons_append, sharedParam?, find?_param_eq_none_iff.2 hfree, ih h]

/-- **The first parameter that is used already,** with the field that has it and the one before. -/
theorem sharedParam?_eq_some_iff (hseen : (seen.map (·.2)).Nodup) :
    sharedParam? seen rest = some problem ↔
      ∃ before after first second param, rest = before ++ (second, param) :: after ∧
        ((seen ++ before).map (·.2)).Nodup ∧ (first, param) ∈ seen ++ before ∧
        problem = .sharedParam param first second := by
  constructor
  · intro h
    induction rest generalizing seen with
    | nil => cases h
    | cons e rest ih =>
      obtain ⟨id, param⟩ := e
      rw [sharedParam?] at h
      split at h
      · next first other hfind =>
        have hparam : other = param := by simpa using List.find?_some hfind
        have hmem : (first, param) ∈ seen := hparam ▸ List.mem_of_find?_eq_some hfind
        cases h
        exact ⟨[], rest, first, id, param, rfl, by simpa using hseen, by simpa using hmem, rfl⟩
      · next hfind =>
        obtain ⟨before, after, first, second, shared, rfl, hnodup, hmem, rfl⟩ :=
          ih (nodup_append_singleton hseen hfind) h
        rw [← List.append_cons] at hnodup hmem
        exact ⟨(id, param) :: before, after, first, second, shared, rfl, hnodup, hmem, rfl⟩
  · rintro ⟨before, after, first, second, param, rfl, hnodup, hmem, rfl⟩
    rw [sharedParam?_append hnodup, sharedParam?, find?_param_eq_some hnodup hmem]

theorem sharedParam?_eq_none_iff (hseen : (seen.map (·.2)).Nodup) :
    sharedParam? seen rest = none ↔ ((seen ++ rest).map (·.2)).Nodup := by
  constructor
  · intro h
    induction rest generalizing seen with
    | nil => rwa [List.append_nil]
    | cons e rest ih =>
      rw [sharedParam?] at h
      split at h
      · cases h
      · next hfind =>
        rw [List.append_cons]
        exact ih (nodup_append_singleton hseen hfind) h
  · intro h
    rw [← List.append_nil rest, sharedParam?_append h]
    rfl

/-! #### Fields and their parameters -/

theorem mem_params {r : Registry} {field : String} (h : (field, param) ∈ r.params) :
    ∃ config, (field, config) ∈ r.fields ∧ config.param = some param := by
  obtain ⟨⟨id, config⟩, hmem, heq⟩ := List.mem_filterMap.1 h
  obtain ⟨p, hp, heq⟩ := Option.map_eq_some_iff.1 heq
  cases heq
  exact ⟨config, hmem, hp⟩

theorem paramsApart_iff (fields : List (String × FieldConfig)) :
    ParamsApart fields ↔ ((params ⟨fields⟩).map (·.2)).Nodup := by
  rw [ParamsApart, params, List.Nodup, List.pairwise_map, List.pairwise_filterMap]
  refine List.Pairwise.iff fun e f => ?_
  simp only [Option.map_eq_some_iff]
  constructor
  · rintro h _ ⟨p, hp, rfl⟩ _ ⟨q, hq, rfl⟩ rfl
    exact h p hp hq
  · exact fun h p hp hq => h _ ⟨p, hp, rfl⟩ _ ⟨p, hq, rfl⟩ rfl

theorem params_append_cons (before after : List (String × FieldConfig)) {c : FieldConfig}
    (hc : c.param = some param) :
    params ⟨before ++ (id, c) :: after⟩ =
      params ⟨before⟩ ++ (id, param) :: params ⟨after⟩ := by
  simp [params, List.filterMap_append, hc]

/-- Where a field's parameter stands among the parameters, there stands the field. -/
theorem exists_of_params_eq {fields : List (String × FieldConfig)}
    {before after : List (String × String)}
    (h : params ⟨fields⟩ = before ++ (id, param) :: after) :
    ∃ front c back, fields = front ++ (id, c) :: back ∧ params ⟨front⟩ = before ∧
      c.param = some param := by
  obtain ⟨front, others, rfl, rfl, hothers⟩ := List.filterMap_eq_append_iff.1 h
  obtain ⟨between, ⟨field, c⟩, back, rfl, hbetween, hc, -⟩ := List.filterMap_eq_cons_iff.1 hothers
  obtain ⟨p, hp, heq⟩ := Option.map_eq_some_iff.1 hc
  cases heq
  refine ⟨front ++ between, c, back, by rw [List.append_assoc], ?_, hp⟩
  rw [params, List.filterMap_append, List.filterMap_eq_nil_iff.2 hbetween, List.append_nil]

/-! #### Registries -/

theorem fieldProblem?_eq_none_iff (r : Registry) :
    r.fieldProblem? = none ↔ ∀ e ∈ r.fields, e.2.IsSound := by
  rw [fieldProblem?, List.findSome?_eq_none_iff]
  exact forall₂_congr fun e _ => by rw [Option.map_eq_none_iff, FieldConfig.problem?_eq_none_iff]

/-- **When a registry passes.** -/
theorem problem?_eq_none_iff (r : Registry) :
    r.problem? = none ↔ (∀ e ∈ r.fields, e.2.IsSound) ∧ ParamsApart r.fields := by
  have hnone : (([] : List (String × String)).map (·.2)).Nodup := List.nodup_nil
  rw [problem?, Option.or_eq_none_iff, fieldProblem?_eq_none_iff, sharedParam?_eq_none_iff hnone,
    paramsApart_iff]
  rfl

/-- **What a registry is refused for.** -/
theorem problem?_eq_some_iff (r : Registry) :
    r.problem? = some problem ↔ FirstProblem r.fields problem := by
  have hnone : (([] : List (String × String)).map (·.2)).Nodup := List.nodup_nil
  rw [problem?, Option.or_eq_some_iff, fieldProblem?_eq_none_iff, sharedParam?_eq_some_iff hnone]
  constructor
  · rintro (hfield | ⟨hsound, hshared⟩)
    · obtain ⟨before, ⟨id, c⟩, after, hfields, hproblem, hbefore⟩ :=
        List.findSome?_eq_some_iff.1 hfield
      obtain ⟨p, hp, rfl⟩ := Option.map_eq_some_iff.1 hproblem
      obtain ⟨hbreaks, hfirst⟩ := FieldConfig.first_of_problem? hp
      refine .field hfields (fun e he => ?_) hbreaks hfirst
      exact FieldConfig.problem?_eq_none_iff.1 (Option.map_eq_none_iff.1 (hbefore e he))
    · obtain ⟨before, after, first, second, param, hparams, hapart, hfirst, rfl⟩ := hshared
      obtain ⟨front, d, back, hfields, rfl, hd⟩ := exists_of_params_eq hparams
      obtain ⟨c, hmem, hc⟩ := mem_params hfirst
      exact .sharedParam hsound hfields ((paramsApart_iff front).2 hapart) hmem hc hd
  · rintro (⟨hfields, hbefore, hbreaks, hfirst⟩ | ⟨hsound, hfields, hapart, hmem, hc, hd⟩)
    · have hproblem := FieldConfig.problem?_eq_some_iff.2 ⟨hbreaks, hfirst⟩
      refine .inl (List.findSome?_eq_some_iff.2 ⟨_, _, _, hfields, ?_, fun e he => ?_⟩)
      · exact Option.map_eq_some_iff.2 ⟨_, hproblem, rfl⟩
      · exact Option.map_eq_none_iff.2 (FieldConfig.problem?_eq_none_iff.2 (hbefore e he))
    · obtain ⟨fields⟩ := r
      dsimp only at hfields
      subst hfields
      refine .inr ⟨hsound, _, _, _, _, _, params_append_cons _ _ hd, ?_, ?_, rfl⟩
      · exact (paramsApart_iff _).1 hapart
      · exact List.mem_filterMap.2 ⟨_, hmem, Option.map_eq_some_iff.2 ⟨_, hc, rfl⟩⟩

/-! ### Declared fields -/

/-- Fields that are declared one after the other. -/
theorem foldl_declare (declarations : List (String × FieldConfig)) :
    declarations.foldl (fun r d => r.declare d.1 d.2) empty = ofList declarations := by
  induction declarations using List.reverseRecOn with
  | nil => rfl
  | append_singleton declarations d ih =>
    rw [List.foldl_append, ih]
    exact congrArg Registry.mk (Keyed.ofList_append_singleton declarations d).symm

theorem validated_eq_ok_iff {r s : Registry} : r.validated = .ok s ↔ r.problem? = none ∧ s = r := by
  unfold validated
  cases r.problem? <;> simp [eq_comm]

theorem validated_eq_error_iff {r : Registry} :
    r.validated = .error problem ↔ r.problem? = some problem := by
  unfold validated
  cases r.problem? <;> simp

/-- **Fields are declared and then validated.** What is declared is one field for each id, in the
order in which the ids first came and with the last configuration of each. It passes, as it is,
exactly if every field is sound and no two have the same parameter, and otherwise it is refused for
the first thing wrong. -/
theorem validated_declared (declarations : List (String × FieldConfig)) :
    let r := declarations.foldl (fun r d => r.declare d.1 d.2) empty
    (r.fields = (declarations.map (·.1)).eraseDups.filterMap fun id =>
        (declarations.reverse.lookup id).map (id, ·)) ∧
      (∀ s, r.validated = .ok s ↔
        s = r ∧ (∀ e ∈ r.fields, e.2.IsSound) ∧ ParamsApart r.fields) ∧
      ∀ problem, r.validated = .error problem ↔ FirstProblem r.fields problem := by
  intro r
  refine ⟨?_, fun s => ?_, fun problem => ?_⟩
  · exact (congrArg fields (foldl_declare declarations)).trans (Keyed.ofList_eq declarations)
  · rw [validated_eq_ok_iff, problem?_eq_none_iff, and_comm]
  · rw [validated_eq_error_iff, problem?_eq_some_iff]

end Registry

end TableFilter
