import TableFilter.Proofs.Session.Reports
import TableFilter.Proofs.Synchronizer.Frames

/-!
# Parameters that no view owns

What is done in the views of a session stays within the parameters that the views own, whatever the
other views write on hearing of it. Everything else of the navigation is as it was: the pairs of all
other keys with their order and their repeats, the entries before and after the current one, and so
its place among them.

* A cascade keeps what lies outside the keys of all views (`Told.sameOutside`), and so does every
  step of a view that writes its output (`Stepped.sameOutside`).

The exception are saved filters: the parameters that they hold are written as they stand.
-/

namespace TableFilter

namespace Session

/-- Every parameter of a mounted view is among the keys. -/
def Covered (keys : List String) (s : Session) : Prop :=
  ∀ n v, s.view? n = some v → ∀ k ∈ v.sync.ownKeys, k ∈ keys

/-- The parameters that the mounted views own. -/
def ownedKeys (s : Session) : List String := s.views.flatMap fun e => e.2.sync.ownKeys

variable {s t u : Session} {n : Nat} {v x : View} {e : Emission} {turn : Turn} {keys : List String}
  {ls : List Listener} {as : List Answer}

theorem covered_ownedKeys (s : Session) : s.Covered s.ownedKeys := fun _ v hv _ hk =>
  List.mem_flatMap.2 ⟨(_, v), Keyed.mem_of_lookup_eq_some hv, hk⟩

theorem Alike.symm (h : s.Alike t) : t.Alike s := fun m => (h m).symm

theorem Alike.covered (h : s.Alike t) (hs : s.Covered keys) : t.Covered keys := by
  intro m w hw
  obtain ⟨v, hv, hrole⟩ := h.view? hw
  rw [← Synchronizer.ownKeys_congr (View.role_eq_iff.1 hrole).2]
  exact hs m v hv

theorem Covered.writing (h : s.Covered keys) (hv : ∀ k ∈ v.sync.ownKeys, k ∈ keys) (patch : Patch) :
    ((s.setView n v.writing).written patch).Covered keys := by
  intro m w hw
  have hset : (s.setView n v.writing).view? m = some w := hw
  rcases view?_setView_cases hset with ⟨-, rfl⟩ | ⟨-, hw⟩
  · exact hv
  · exact h m w hw

theorem sameOutside_written (h : ∀ k ∈ v.sync.ownKeys, k ∈ keys) (s : Session) :
    s.navigation.history.SameOutside keys (s.written v.sync.output).navigation.history :=
  History.sameOutside_write
    (fun _ he => h _ (Synchronizer.mem_ownKeys_of_mem_output he)) s.navigation.history

/-! ### Steps -/

/-- **A cascade keeps what no view owns.** -/
theorem Told.sameOutside (h : Told s ls as t) (hs : s.Rested) (hk : s.Covered keys) :
    s.navigation.history.SameOutside keys t.navigation.history := by
  induction h with
  | nil => exact History.sameOutside_refl keys _
  | absent _ _ ih => exact ih hs hk
  | busy hv hb _ ih =>
    obtain ⟨hrest, hlike⟩ := rested_and_alike_busy hs hv hb
    exact ih hrest (hlike.covered hk)
  | still hv hb hw _ ih =>
    obtain ⟨hrest, hlike⟩ := rested_and_alike_still hs hv hb hw
    exact ih hrest (hlike.covered hk)
  | @wrote s t u n v w sync patch content ls inner as hv hb hin hinner hw _ ih₁ ih₂ =>
    obtain ⟨hu, hwriting⟩ := hinner.rested_and_alike hs.writing
    obtain ⟨hrest, hlike⟩ := rested_and_alike_wrote hv hb hin hu hwriting hw
    obtain ⟨rfl, -, hscope⟩ := inbound_write hin
    -- The view that writes is the one that was told, as far as its parameters go.
    have hown : ∀ k ∈ sync.ownKeys, k ∈ keys := by
      rw [Synchronizer.ownKeys_congr hscope]
      exact hk n v hv
    have hwritten := sameOutside_written (v := { v with sync := sync }) hown s
    have hinside := ih₁ hs.writing (hk.writing (v := { v with sync := sync }) hown _)
    exact (hwritten.trans hinside).trans (ih₂ hrest (hlike.covered hk))

/-- A step of a view keeps the views with their parameters, and none is writing that was not. -/
theorem Stepped.alike (h : Stepped s n x turn as t e) (hs : s.ReadyBut n) (hv : s.view? n = some v)
    (hx : x.role = v.role) (hb : v.isBusy = false) : s.Alike t := by
  -- When its turn is made the view is not writing, as before.
  have hcommit (content : Patch.Content) (query : String) :
      ({ x with sync := x.sync.commit content query } : View).role = v.role :=
    View.role_eq_iff.2 ⟨hb.symm, (View.role_eq_iff.1 hx).2⟩
  cases h with
  | unchanged => exact (alike_refl s).setView hv hx
  | adopted content => exact (alike_refl s).setView hv (hcommit content s.query)
  | @written u patch content as htold =>
    exact (htold.alike (hs.rested_writing hv patch)).finished hv (hcommit content u.query)

/-- **A step of a view that writes nothing but its output** keeps what none of the views owns. -/
theorem Stepped.sameOutside (h : Stepped s n x turn as t e) (hs : s.ReadyBut n)
    (hv : s.view? n = some v) (hx : x.role = v.role) (hb : v.isBusy = false)
    (hp : turn.Presents x.sync s.query) :
    s.navigation.history.SameOutside t.ownedKeys t.navigation.history := by
  have hk : s.Covered t.ownedKeys := (h.alike hs hv hx hb).symm.covered (covered_ownedKeys t)
  cases h with
  | unchanged => exact History.sameOutside_refl _ _
  | adopted content => exact History.sameOutside_refl _ _
  | @written u patch content as htold =>
    obtain rfl := hp.write patch content rfl
    generalize (u.setView n (x.finished content u.query)).ownedKeys = keys at hk ⊢
    have hown : ∀ k ∈ x.sync.ownKeys, k ∈ keys := by
      rw [Synchronizer.ownKeys_congr (View.role_eq_iff.1 hx).2]
      exact hk n v hv
    have hrest := hs.rested_writing (w := x) hv x.sync.output
    exact (sameOutside_written hown s).trans (htold.sameOutside hrest (hk.writing hown _))

end Session

/-- Whether the operation is one in a view, with no saved filter. -/
def Operation.inView : Operation → Bool
  | .mount _ _ saved => saved.isNone
  | .unmount _ => true
  | .request _ (.load _) => false
  | .request _ _ => true
  | .navigate _ | .back | .forward | .write _ => false

namespace Session

variable {s : Session} {op : Operation}

theorem AtRest.sameOutside_mount (hs : s.AtRest) (name : String) (table : Table) :
    s.navigation.history.SameOutside (s.run (.mount name table none)).ownedKeys
      (s.run (.mount name table none)).navigation.history := by
  have hself : (s.enlist name table).view? s.nextId = some (.ofTable name table) := by
    rw [view?_enlist hs, if_pos rfl]
  obtain ⟨as, t, e, hrun, -, hstepped⟩ := hs.stepped_mount name table none
  have hsame : (s.enlist name table).navigation.history.SameOutside t.ownedKeys
      t.navigation.history := by
    refine hstepped.sameOutside (hs.enlist name table) hself (View.role_eq_iff.2 ⟨?_, ?_⟩) rfl ?_
    · obtain ⟨hphase, -, -⟩ := hydrating_fits name table none s.query
      exact congrArg (fun phase => decide (phase = Phase.emitting)) hphase
    · exact Synchronizer.scope_hydrate (View.ofTable name table).sync none s.query
    · exact hydrating_presents (View.ofTable name table).sync rfl s.query
  rw [hrun]
  exact hsame

theorem AtRest.sameOutside_request (hs : s.AtRest) (n : Nat) {r : Request}
    (hr : ∀ saved, r ≠ .load saved) :
    s.navigation.history.SameOutside (s.run (.request n r)).ownedKeys
      (s.run (.request n r)).navigation.history := by
  cases hv : s.view? n with
  | none =>
    rw [run, hv]
    exact History.sameOutside_refl _ _
  | some v =>
    have hidle := (hs.settled n v hv).isBusy_eq_false
    obtain ⟨as, t, e, hrun, -, hstepped⟩ := hs.stepped_request hv r
    rw [hrun]
    refine hstepped.sameOutside (hs.ready.but n) hv (View.role_eq_iff.2 ⟨?_, ?_⟩) hidle ?_
    · obtain ⟨hphase, -⟩ := r.step_frame v.sync s.query
      exact congrArg (fun phase => decide (phase = Phase.emitting)) hphase
    · exact r.scope_step v.sync s.query
    · exact r.presents hr v.sync s.query

/-- **Step.** Every operation in a view that is given no saved filter keeps what no view owns. -/
theorem AtRest.sameOutside_run (hs : s.AtRest) (h : op.inView = true) :
    s.navigation.history.SameOutside (s.run op).ownedKeys (s.run op).navigation.history := by
  cases op with
  | mount name table saved =>
    obtain rfl : saved = none := Option.isNone_iff_eq_none.1 h
    exact hs.sameOutside_mount name table
  | unmount n => exact History.sameOutside_refl _ _
  | request n r =>
    refine hs.sameOutside_request n ?_
    rintro saved rfl
    cases h
  | navigate | back | forward | write => cases h

theorem navigation_saveAs (s : Session) (v : View) (entered : String) :
    (s.saveAs v entered).2.navigation = s.navigation := by
  unfold saveAs
  cases s.saved.submit entered s.query v.sync.table
  rfl

/-- **What is done in views stays within the parameters that they own.** After any operations on a
new navigation, an operation in a view that is given no saved filter ends, with all that the views
write on hearing of it, in a navigation of the same length at the same place, with the same other
entries; and in the current entry the pairs of keys that no mounted view owns are the same pairs in
the same order. Saving a filter leaves the navigation as it is. -/
theorem foreign_after_runs (query : String) (ops : List Operation) (op : Operation)
    (h : op.inView = true) :
    let s := (start query).runs ops
    let t := s.run op
    t.params.outside t.ownedKeys = s.params.outside t.ownedKeys ∧
      t.navigation.history.length = s.navigation.history.length ∧
      t.navigation.history.past = s.navigation.history.past ∧
      t.navigation.history.future = s.navigation.history.future ∧
      ∀ v entered, (s.saveAs v entered).2.navigation = s.navigation := by
  intro s t
  have hs : s.AtRest := atRest_runs (atRest_start query) ops
  have hsame := hs.sameOutside_run h
  refine ⟨hsame.pairs, ?_, hsame.past, hsame.future, s.navigation_saveAs⟩
  rw [History.length_eq, History.length_eq, hsame.past, hsame.future]

/-- A page that stands twice around the parameter of a view keeps both of its places when the view's
filter changes. -/
theorem foreign_after_runs_repeated :
    let owner := { FieldConfig.plain "Owner" .text with param := some "owner" }
    let t : Table := ⟨"orders", none, ⟨[("owner", owner)]⟩⟩
    let before := (start "page=2&owner=eve&page=3").runs [.mount "orders" t none]
    let op : Operation := .request 1 (.update 1 none (some (.text "ann")))
    let after := before.run op
    op.inView = true ∧ after.query = "page=2&owner=ann&page=3" ∧
      after.params.outside after.ownedKeys = [("page", "2"), ("page", "3")] ∧
      after.navigation.history.past = before.navigation.history.past := by
  intro owner t
  have h := foreign_after_runs "page=2&owner=eve&page=3" [.mount "orders" t none]
    (.request 1 (.update 1 none (some (.text "ann")))) rfl
  dsimp only at h ⊢
  exact ⟨rfl, by decide +kernel, h.1.trans (by decide +kernel), h.2.2.1⟩

end Session

end TableFilter
