import TableFilter.Proofs.Condition.Reload
import TableFilter.Proofs.Navigation.Zipper
import TableFilter.Proofs.Synchronizer.Output
import TableFilter.Proofs.Value

/-!
# Hydration settles

A table that is hydrated again and again from one navigation rewrites it at most twice.

* A hydration leaves a navigation that shows the conditions which the table has read from it
  (`Synchronizer.shows_fresh`), and leaves one alone that shows them already
  (`Synchronizer.fresh_of_shows`).
* What the compiled query gives is lossy once (`Conditions.text_ofText_twice`). A parameter of a
  field's own may be overruled by the query in the first round; after that it is only normalized
  (`Table.paramText_conditions`), once (`Registry.written_written`).
* So the parameters after the second hydration show what the table reads from them
  (`Table.Shows.settled`).
-/

namespace TableFilter

/-! ### The parameter of a field's own -/

namespace Registry

/-- The condition that the parameter of a field's own gives, if it is not empty. -/
def ownCondition? (r : Registry) (field raw : String) : Option Condition :=
  if raw.isEmpty then none else Synchronizer.paramCondition? r field raw

/-- What the parameter of a field's own is written as after it has been read. -/
def written (r : Registry) (field raw : String) : String :=
  match r.ownCondition? field raw with
  | some c => c.value.toParam
  | none => ""

variable {r : Registry} {field raw : String} {c : Condition}

theorem condition_eq_ok {op : Option Operator} {value : Value}
    (h : r.condition field op value = .ok c) : c.field = field ∧ c.value = value := by
  obtain ⟨config, -, rfl⟩ := eq_of_condition h
  exact ⟨rfl, rfl⟩

theorem paramCondition?_eq_some (h : Synchronizer.paramCondition? r field raw = some c) :
    c.field = field ∧ ∃ config, r.get? field = some config ∧
      r.condition field none (.ofParam config.variant raw) = .ok c := by
  unfold Synchronizer.paramCondition? at h
  split at h
  · next config hconfig =>
    cases hc : r.condition field none (.ofParam config.variant raw) with
    | error e =>
      rw [hc] at h
      cases h
    | ok d =>
      rw [hc] at h
      cases h
      exact ⟨(condition_eq_ok hc).1, config, hconfig, hc⟩
  · cases h

theorem field_of_ownCondition? (h : r.ownCondition? field raw = some c) : c.field = field := by
  unfold ownCondition? at h
  split at h
  · cases h
  · exact (paramCondition?_eq_some h).1

/-- The value of a condition that a parameter gave gives that condition. -/
theorem paramCondition?_toParam (h : Synchronizer.paramCondition? r field raw = some c) :
    Synchronizer.paramCondition? r field c.value.toParam = some c := by
  obtain ⟨-, config, hconfig, hc⟩ := paramCondition?_eq_some h
  rw [Synchronizer.paramCondition?, hconfig, (condition_eq_ok hc).2]
  dsimp only
  rw [Value.ofParam_toParam_ofParam, hc]
  rfl

/-- **What a parameter is written as is written as itself.** -/
theorem written_written (r : Registry) (field raw : String) :
    r.written field (r.written field raw) = r.written field raw := by
  cases hread : r.ownCondition? field raw with
  | none =>
    have hwritten : r.written field raw = "" := by rw [written, hread]
    rw [hwritten]
    rfl
  | some c =>
    have hwritten : r.written field raw = c.value.toParam := by rw [written, hread]
    rw [hwritten]
    -- The value may be empty, as a list without items is; then it is not read again.
    by_cases hempty : c.value.toParam.isEmpty
    · rw [written, ownCondition?, if_pos hempty]
      exact (by simpa using hempty : c.value.toParam = "").symm
    · have hparam : Synchronizer.paramCondition? r field raw = some c := by
        unfold ownCondition? at hread
        split at hread
        · cases hread
        · exact hread
      rw [written, ownCondition?, if_neg hempty, paramCondition?_toParam hparam]

end Registry

/-! ### What a table reads -/

namespace Table

/-- The conditions that a table reads from parameters. -/
def conditions (t : Table) (p : Params) : Conditions :=
  Synchronizer.readConditions t.fields t.key p

/-- The conditions that a table reads from the parameters of its fields' own. -/
def ownConditions (t : Table) (p : Params) : List Condition :=
  t.fields.params.filterMap fun e => t.fields.ownCondition? e.1 (p.value e.2)

variable {t : Table} {p : Params} {cs : Conditions}

theorem conditions_eq (t : Table) (p : Params) :
    t.conditions p =
      ⟨(Conditions.ofText (p.value t.key)).conditions ++ t.ownConditions p,
        (Conditions.ofText (p.value t.key)).join⟩ := rfl

theorem conditions_conditions (t : Table) (p : Params) :
    (t.conditions p).conditions =
      (Conditions.ofText (p.value t.key)).conditions ++ t.ownConditions p := by
  rw [conditions_eq]

theorem isStandalone_of_mem_ownConditions (ht : t.IsAccepted) {c : Condition}
    (h : c ∈ t.ownConditions p) : t.fields.isStandalone c.field = true := by
  obtain ⟨e, he, hc⟩ := List.mem_filterMap.1 h
  rw [Registry.field_of_ownCondition? hc]
  exact Registry.isStandalone_of_mem_params ht.ids he

/-- The conditions that a table reads compile to what the query alone gives. -/
theorem text_conditions (ht : t.IsAccepted) (p : Params) :
    (t.conditions p).text t.fields = (Conditions.ofText (p.value t.key)).text t.fields := by
  -- The fields with their own parameters stand outside the query.
  have hown : (t.ownConditions p).filter (fun c => !t.fields.isStandalone c.field) = [] := by
    rw [List.filter_eq_nil_iff]
    intro c hc
    rw [isStandalone_of_mem_ownConditions ht hc]
    simp
  refine Conditions.text_congr ?_
  rw [Conditions.document, Conditions.document, Conditions.fragments, Conditions.fragments,
    conditions_eq, List.filter_append, hown, List.append_nil]

theorem find?_filterMap_of_notMem {params : List (String × String)}
    {f : String × String → Option Condition} (hf : ∀ e c, f e = some c → c.field = e.1)
    {field : String} (h : field ∉ params.map (·.1)) :
    (params.filterMap f).find? (fun c => c.field == field) = none := by
  rw [List.find?_eq_none]
  intro c hc hfield
  obtain ⟨e, he, hec⟩ := List.mem_filterMap.1 hc
  have hsame : e.1 = field := (hf e c hec).symm.trans (by simpa using hfield)
  exact h (hsame ▸ List.mem_map_of_mem he)

theorem find?_filterMap_param {params : List (String × String)} (h : (params.map (·.1)).Nodup)
    {f : String × String → Option Condition} (hf : ∀ e c, f e = some c → c.field = e.1)
    {e : String × String} (he : e ∈ params) :
    (params.filterMap f).find? (fun c => c.field == e.1) = f e := by
  induction params with
  | nil => cases he
  | cons g rest ih =>
    rw [List.map_cons, List.nodup_cons] at h
    rw [List.filterMap_cons]
    rcases List.mem_cons.1 he with rfl | hr
    · cases hc : f e with
      | none => exact find?_filterMap_of_notMem hf h.1
      | some c => exact List.find?_cons_of_pos (by simpa using hf e c hc)
    · have hne : g.1 ≠ e.1 := fun heq => h.1 (heq ▸ List.mem_map_of_mem hr)
      cases hc : f g with
      | none => exact ih h.2 hr
      | some c =>
        dsimp only
        rw [List.find?_cons_of_neg (by simpa [hf g c hc] using hne)]
        exact ih h.2 hr

/-- The first condition that a table reads on a field with its own parameter is the first one of the
query, and that of the parameter where the query has none on the field. -/
theorem find?_conditions (ht : t.IsAccepted) (p : Params) {e : String × String}
    (he : e ∈ t.fields.params) :
    (t.conditions p).conditions.find? (fun c => c.field == e.1) =
      ((Conditions.ofText (p.value t.key)).conditions.find? fun c => c.field == e.1).or
        (t.fields.ownCondition? e.1 (p.value e.2)) := by
  have hown : (t.ownConditions p).find? (fun c => c.field == e.1) =
      t.fields.ownCondition? e.1 (p.value e.2) :=
    find?_filterMap_param (Registry.nodup_fields_params ht.ids)
      (f := fun e => t.fields.ownCondition? e.1 (p.value e.2))
      (fun _ _ hc => Registry.field_of_ownCondition? hc) he
  rw [conditions_conditions, List.find?_append, hown]

/-- **What a table reads of a field with its own parameter,** where the query says nothing about the
field. -/
theorem paramText_conditions (ht : t.IsAccepted)
    (hquery : ∀ c ∈ (Conditions.ofText (p.value t.key)).conditions,
      t.fields.isStandalone c.field = false) {e : String × String} (he : e ∈ t.fields.params) :
    (t.conditions p).paramText e.1 = t.fields.written e.1 (p.value e.2) := by
  have hnone : (Conditions.ofText (p.value t.key)).conditions.find? (fun c => c.field == e.1) =
      none := by
    rw [List.find?_eq_none]
    intro c hc hfield
    have hout := hquery c hc
    have hstand := Registry.isStandalone_of_mem_params ht.ids he
    rw [(by simpa using hfield : c.field = e.1), hstand] at hout
    cases hout
  rw [Conditions.paramText, find?_conditions ht p he, hnone, Option.none_or]
  rfl

/-! ### Two rounds -/

/-- What the query parameter shows after a round is compiled from what was read of it. -/
theorem Shows.text (ht : t.IsAccepted) {q : Params} (h : t.Shows q (t.conditions p)) :
    q.value t.key = (Conditions.ofText (p.value t.key)).text t.fields :=
  h.key.trans (text_conditions ht p)

theorem Shows.isStandalone_of_mem (ht : t.IsAccepted) {q : Params} (h : t.Shows q (t.conditions p))
    {c : Condition} (hc : c ∈ (Conditions.ofText (q.value t.key)).conditions) :
    t.fields.isStandalone c.field = false := by
  rw [h.text ht] at hc
  exact Conditions.isStandalone_of_mem_ofText hc

/-- **Parameters have settled after two rounds:** they show what the table reads from them. -/
theorem Shows.settled (ht : t.IsAccepted) {p q u : Params} (hfirst : t.Shows q (t.conditions p))
    (hsecond : t.Shows u (t.conditions q)) : t.Shows u (t.conditions u) := by
  refine ⟨?_, fun e he => ?_⟩
  · rw [text_conditions ht, hsecond.text ht, hfirst.text ht, Conditions.text_ofText_twice]
  · have hread : u.value e.2 = t.fields.written e.1 (q.value e.2) :=
      (hsecond.own e he).trans
        (paramText_conditions ht (fun _ hc => hfirst.isStandalone_of_mem ht hc) he)
    have hagain : (t.conditions u).paramText e.1 = t.fields.written e.1 (u.value e.2) :=
      paramText_conditions ht (fun _ hc => hsecond.isStandalone_of_mem ht hc) he
    rw [hagain, hread, Registry.written_written]

/-- The second round leaves the query parameter as the first one left it exactly when the table read
no test of the query that asks for being different or absent. -/
theorem Shows.value_key_eq_iff (ht : t.IsAccepted) {p q u : Params}
    (hfirst : t.Shows q (t.conditions p)) (hsecond : t.Shows u (t.conditions q)) :
    u.value t.key = q.value t.key ↔
      ∀ c ∈ (t.conditions p).conditions, t.fields.isStandalone c.field = false →
        c.operator ≠ .ne ∧ c.operator ≠ .isEmpty := by
  rw [hsecond.text ht, hfirst.text ht, Conditions.text_ofText_ofText_iff, conditions_conditions]
  constructor
  · intro h c hc hout
    rcases List.mem_append.1 hc with hc | hc
    · exact h c hc hout
    · rw [isStandalone_of_mem_ownConditions ht hc] at hout
      cases hout
  · exact fun h c hc => h c (List.mem_append_left _ hc)

end Table

/-! ### Hydration -/

theorem History.params_write (h : History) (patch : Patch) :
    (h.write patch).params = h.params.apply patch := by
  rw [params, current_write]
  exact Params.parse_text (h.params.apply patch)

namespace Synchronizer

variable {t : Table}

/-- A fresh synchronizer filled from a navigation. -/
def filledFrom (t : Table) (n : CountedHistory) : Synchronizer :=
  (ofTable t).filled n.history.current

theorem store_filledFrom (t : Table) (n : CountedHistory) :
    (filledFrom t n).store =
      ((Store.empty t.fields).replace (t.conditions n.history.params)).2 := by
  simp only [filledFrom, filled, populate, ofTable, new, Store.empty, Table.conditions,
    History.params]

theorem conditions_filledFrom (t : Table) (n : CountedHistory) :
    (filledFrom t n).store.conditions = t.conditions n.history.params := by
  rw [store_filledFrom, Store.conditions_replace]

theorem shows_output_filledFrom (ht : t.IsAccepted) (n : CountedHistory) (p : Params) :
    p.shows (filledFrom t n).output = true ↔ t.Shows p (t.conditions n.history.params) := by
  have hfields : (filledFrom t n).store.registry = t.fields := by
    rw [store_filledFrom, Store.registry_replace]
    rfl
  rw [shows_output_iff ht rfl hfields, conditions_filledFrom]

theorem store_performSome {ν : Type} (access : Access ν) (s : Synchronizer) (n : ν)
    (turn : Option Turn) : (s.performSome access n turn).1.store = s.store := by
  cases turn with
  | none => rfl
  | some turn => cases turn <;> rfl

theorem fresh_eq (t : Table) (n : CountedHistory) :
    fresh .counted t n =
      ((filledFrom t n).performSome .counted n
        (some ((filledFrom t n).outbound n.history.current))) := by
  have hread : Access.counted.read n = n.history.current := rfl
  rw [fresh, hread, hydrate_ambient rfl]
  rfl

/-- What a fresh synchronizer does: nothing to a navigation that shows its output already, and
otherwise one write. -/
theorem outbound_filledFrom (t : Table) (n : CountedHistory) :
    (filledFrom t n).outbound n.history.current =
      if n.history.params.shows (filledFrom t n).output then
        .adopt (filledFrom t n).output.content
      else .write (filledFrom t n).output (filledFrom t n).output.content := by
  have hnone : (filledFrom t n).committed = none := rfl
  unfold outbound
  dsimp only
  rw [hnone, if_neg (by simp)]
  rfl

theorem conditions_fresh (t : Table) (n : CountedHistory) :
    (fresh .counted t n).1.store.conditions = t.conditions n.history.params := by
  rw [fresh_eq, store_performSome, conditions_filledFrom]

/-- **A navigation that shows what a table reads from it is left alone.** -/
theorem fresh_of_shows (ht : t.IsAccepted) {n : CountedHistory}
    (h : t.Shows n.history.params (t.conditions n.history.params)) :
    (fresh .counted t n).2 = (n, some .adopted) := by
  rw [fresh_eq, outbound_filledFrom, if_pos ((shows_output_filledFrom ht n _).2 h)]
  rfl

/-- **A hydration leaves a navigation that shows what the table has read.** -/
theorem shows_fresh (ht : t.IsAccepted) (n : CountedHistory) :
    t.Shows (fresh .counted t n).2.1.history.params (t.conditions n.history.params) := by
  by_cases hshows : t.Shows n.history.params (t.conditions n.history.params)
  · rw [fresh_of_shows ht hshows]
    exact hshows
  · have hnot : ¬n.history.params.shows (filledFrom t n).output = true := fun h =>
      hshows ((shows_output_filledFrom ht n _).1 h)
    have hwritten : (fresh .counted t n).2.1.history.params =
        n.history.params.apply (filledFrom t n).output := by
      rw [fresh_eq, outbound_filledFrom, if_neg hnot]
      exact n.history.params_write _
    rw [hwritten, ← shows_output_filledFrom ht]
    exact Params.shows_apply (nodup_output _) _

/-- **Hydration settles.** Of three fresh synchronizers of an accepted table that are hydrated one
after the other from a navigation, whatever it shows, the third finds its output shown and writes
nothing. The second leaves the parameter of the query as the first left it exactly when the first
has read no filter on a field of the query that asks for being different or absent. -/
theorem fresh_settles (ht : t.IsAccepted) (n : CountedHistory) :
    let first := fresh .counted t n
    let second := fresh .counted t first.2.1
    let third := fresh .counted t second.2.1
    third.2 = (second.2.1, some .adopted) ∧
      (second.2.1.history.params.value t.key = first.2.1.history.params.value t.key ↔
        ∀ f ∈ first.1.store.filters, t.fields.isStandalone f.condition.field = false →
          f.condition.operator ≠ .ne ∧ f.condition.operator ≠ .isEmpty) := by
  -- Each round shows what was read in the one before, so two rounds settle what the third reads.
  dsimp only
  have hread := conditions_fresh t n
  have hfirst := shows_fresh ht n
  have hsecond := shows_fresh ht (fresh .counted t n).2.1
  refine ⟨fresh_of_shows ht (hfirst.settled ht hsecond), ?_⟩
  rw [hfirst.value_key_eq_iff ht hsecond, ← hread, Store.conditions, List.forall_mem_map]

/-- A query that asks for a status to be different takes two rounds, beside an owner with a
parameter of its own. -/
theorem fresh_settles_different :
    let owner := { FieldConfig.plain "Owner" .text with param := some "owner" }
    let t : Table := ⟨"orders", none, ⟨[("status", .plain "Status" .text), ("owner", owner)]⟩⟩
    let n := CountedHistory.start "orders=%7B%22$ne%22:%7B%22status%22:%22open%22%7D%7D&owner=ann"
    let first := fresh .counted t n
    let second := fresh .counted t first.2.1
    let third := fresh .counted t second.2.1
    t.IsAccepted ∧ third.2 = (second.2.1, some .adopted) ∧
      second.2.1.history.params.value t.key ≠ first.2.1.history.params.value t.key := by
  intro owner t n
  have ht : t.IsAccepted := ⟨by decide, by decide, by decide⟩
  have hlossy : ¬∀ f ∈ (fresh .counted t n).1.store.filters,
      t.fields.isStandalone f.condition.field = false →
        f.condition.operator ≠ .ne ∧ f.condition.operator ≠ .isEmpty := by decide +kernel
  obtain ⟨hthird, hkey⟩ := fresh_settles ht n
  exact ⟨ht, hthird, fun heq => hlossy (hkey.1 heq)⟩

end Synchronizer

end TableFilter
