import TableFilter.Proofs.Session.Steps

/-!
# Reports

Views report what has come of their turns: the answer to a request, the outcome of the hydration,
and the outcome of each change that a view has answered. Where no parameter is owned by two views,
the reports can be relied on (`reports_after_runs`):

* a view reports that it has written if it has written once, and anything else if it has not
  written;
* when the operation is over, the navigation shows the output of every view that has reported more
  than that its output was committed already.

A view that is shown stays shown in a cascade, whatever it answers and whoever else writes
(`Told.shows`). This carries what has been reported on the way to the end of the operation.
-/

namespace TableFilter

/-- Whether a report tells how often the view has written in between: once if it says so, and
otherwise not at all. -/
def Emission.Truthful (e : Emission) (s t : Session) (n : Nat) : Prop :=
  (e = .written ↔ t.writesOf n = s.writesOf n + 1) ∧
    (e ≠ .written → t.writesOf n = s.writesOf n)

/-- Whether the answer tells how often the view has written, and is what the view has noted. -/
structure Answer.Truthful (a : Answer) : Prop where
  writes : a.outcome.Truthful a.before a.after a.view
  noted : (a.after.view? a.view).map View.lastExternal = some (some a.outcome)

/-- Whether the operation has a view filled from a saved filter. -/
def Operation.loads : Operation → Bool
  | .mount _ _ saved => saved.isSome
  | .request _ (.load _) => true
  | _ => false

namespace Session

/-- The navigation shows the output of a view. -/
def Shows (s : Session) (n : Nat) : Prop :=
  ∃ v, s.view? n = some v ∧ s.params.shows v.sync.output = true

/-- The session in which a view of the operation takes its turn. -/
def staged (s : Session) : Operation → Session
  | .mount name table _ => s.enlist name table
  | _ => s

/-- The session whose listeners are told of the write of a view, if its turn is to write. -/
def begun? (s : Session) (n : Nat) (v : View) : Turn → Option Session
  | .write patch _ => some ((s.setView n v.writing).written patch)
  | _ => none

/-- The session whose listeners are told of a change when the operation begins, if there is one. -/
def onset? (s : Session) : Operation → Option Session
  | .mount name table saved =>
    let v := View.ofTable name table
    let (sync, turn) := hydrating saved v.sync s.query
    (s.enlist name table).begun? s.nextId { v with sync := sync } turn
  | .unmount _ => none
  | .request n r => do
    let v ← s.view? n
    let (sync, turn) := r.step v.sync s.query
    s.begun? n { v with sync := sync } turn
  | .navigate query => some (s.setHistory (s.navigation.history.navigate query))
  | .back => s.navigation.history.back?.map s.setHistory
  | .forward => s.navigation.history.forward?.map s.setHistory
  | .write patch => some (s.written patch)

/-- The report on a request; a refused one has none. -/
def report? (s : Session) (n : Nat) (v : View) : Request → Option Emission
  | .add field operator value => (s.add n v field operator value).1.toOption.map (·.2)
  | .update id operator value => (s.update n v id operator value).1.toOption
  | .remove id => (s.remove n v id).1.toOption
  | .setJoin join => some (s.setJoin n v join).2
  | .reset => some (s.reset n).2
  | .load saved => some (s.load n saved).2

/-- The report of the view of an operation. -/
def reported? (s : Session) : Operation → Option (Nat × Emission)
  | .mount name table saved =>
    some (s.nextId, ((s.enlist name table).step s.nextId (hydrating saved)).2)
  | .request n r => do
    let v ← s.view? n
    let e ← s.report? n v r
    return (n, e)
  | _ => none

/-- Whether the reports on an operation can be relied on: that of the view which it is made in, and
those of the other views which answer a change. -/
structure Honest (s : Session) (op : Operation) : Prop where
  own : ∀ n e, s.reported? op = some (n, e) →
    e.Truthful s (s.run op) n ∧ (op.loads = false → e ≠ .unchanged → (s.run op).Shows n) ∧
      ((s.run op).view? n).map View.lastExternal = ((s.staged op).view? n).map View.lastExternal
  answers : ∀ u, s.onset? op = some u → ∃ as, Told u u.listeners as u.publish ∧
    ∀ a ∈ as, a.Truthful ∧ (a.outcome ≠ .unchanged → (s.run op).Shows a.view)

variable {s t u : Session} {n m : Nat} {v w x : View} {e : Emission} {turn : Turn} {patch : Patch}
  {ls : List Listener} {as : List Answer} {op : Operation}

/-! ### Reports of one turn -/

theorem truthful_written (h : t.writesOf n = s.writesOf n + 1) : Emission.written.Truthful s t n :=
  ⟨by simp [h], fun hne => absurd rfl hne⟩

theorem truthful_of_ne (he : e ≠ .written) (h : t.writesOf n = s.writesOf n) : e.Truthful s t n :=
  ⟨by simp [he, h], fun _ => h⟩

/-- A view that is exchanged for one with as many writes has not written. -/
theorem truthful_setView (hv : s.view? n = some v) (hw : w.writes = v.writes) (he : e ≠ .written) :
    e.Truthful s (s.setView n w) n :=
  truthful_of_ne he (writesOf_setView hv hw n)

/-- Wherever a view that has written once is put, it may say so. -/
theorem truthful_setView_written (hv : s.view? n = some v) (hx : u.view? n = some x)
    (hw : w.writes = v.writes + 1) : Emission.written.Truthful s (u.setView n w) n :=
  truthful_written (by rw [writesOf_setView_self hx, writesOf_eq hv, hw])

theorem truthful_answer_still {e : Option Emission} {query : String} (hv : s.view? n = some v)
    (hrest : v.AtRest) (hw : v.still? query = some (w, e)) {o : Emission} (ho : e = some o) :
    (Answer.mk n s o (s.setView n w)).Truthful := by
  have hstill := stilled hrest hw
  refine ⟨truthful_setView hv hstill.writes fun h => hstill.ne_written (h ▸ ho), ?_⟩
  rw [view?_setView_self hv]
  subst ho
  unfold View.still? at hw
  split at hw <;> cases hw <;> rfl

theorem truthful_answer_wrote (hv : s.view? n = some v) (hx : u.view? n = some x)
    (hwrites : w.writes = v.writes + 1) (hnoted : w.lastExternal = some .written) :
    (Answer.mk n s .written (u.setView n w)).Truthful := by
  refine ⟨truthful_setView_written hv hx hwrites, ?_⟩
  rw [view?_setView_self hx]
  exact congrArg some hnoted

/-! ### What is shown stays shown -/

/-- Exchanging one view has no bearing on whether another is shown. -/
theorem shows_setView_of_ne (h : s.Shows m) (hm : m ≠ n) : (s.setView n w).Shows m := by
  obtain ⟨v, hv, hshows⟩ := h
  exact ⟨v, (view?_setView_of_ne hm).trans hv, hshows⟩

/-- A view may be exchanged for one of the same output. -/
theorem shows_setView (h : s.Shows m) (hv : s.view? n = some v)
    (hw : w.sync.output.content = v.sync.output.content) : (s.setView n w).Shows m := by
  by_cases hm : m = n
  · subst hm
    obtain ⟨x, hx, hshows⟩ := h
    rw [hv, Option.some.injEq] at hx
    subst hx
    exact ⟨w, view?_setView_self hv, (Params.shows_congr_content hw s.params).trans hshows⟩
  · exact shows_setView_of_ne h hm

theorem shows_still {e : Option Emission} (h : s.Shows m) (hv : s.view? n = some v)
    (hrest : v.AtRest) (hw : v.still? s.query = some (w, e)) : (s.setView n w).Shows m := by
  have hstill := stilled hrest hw
  by_cases he : e = some .adopted
  · by_cases hm : m = n
    · subst hm
      exact ⟨w, view?_setView_self hv, hstill.shown he⟩
    · exact shows_setView_of_ne h hm
  · exact shows_setView h hv (hstill.same he)

/-- What one view writes leaves the others shown. -/
theorem shows_writing (h : s.Shows m) (ha : s.Apart) (hv : s.view? n = some v)
    (hx : x.sync.scope = v.sync.scope) (hm : m ≠ n) :
    ((s.setView n x.writing).written x.sync.output).Shows m := by
  obtain ⟨w, hw, hshows⟩ := h
  refine ⟨w, (view?_setView_of_ne hm).trans hw, ?_⟩
  rw [params_written]
  refine (Synchronizer.shows_output_congr fun k hk => ?_).trans hshows
  refine Synchronizer.value_apply_output ?_ s.params
  rw [Synchronizer.ownKeys_congr hx]
  exact ha m n w v hm hw hv k hk

/-- A view is shown when its write has returned. -/
theorem shows_wrote {sync : Synchronizer} {content : Patch.Content} (hs : s.Rested) (ha : s.Apart)
    (hv : s.view? n = some v) (hin : v.sync.inbound s.query = (sync, some (.write patch content)))
    (htold : Told ((s.setView n { v with sync := sync }.writing).written patch) ls as u)
    (hw : { ({ v with sync := sync } : View).finished content u.query with
      lastExternal := some .written } = w) : (u.setView n w).Shows n := by
  obtain ⟨rfl, -, hscope⟩ := inbound_write hin
  have hshown := htold.shows_written (x := { v with sync := sync }) hs.writing ha hv hscope
  obtain ⟨y, hy⟩ := htold.view?_writing hs.writing hv
  subst hw
  exact ⟨_, view?_setView_self hy, hshown⟩

/-- **A view that is shown stays shown.** -/
theorem Told.shows (h : Told s ls as t) (hs : s.Rested) (ha : s.Apart) (hm : s.Shows m) :
    t.Shows m := by
  induction h with
  | nil => exact hm
  | absent _ _ ih => exact ih hs ha hm
  | busy hv hb _ ih =>
    obtain ⟨hrest, hlike⟩ := rested_and_alike_busy hs hv hb
    exact ih hrest (hlike.apart ha) (shows_setView hm hv rfl)
  | still hv hb hw _ ih =>
    obtain ⟨hrest, hlike⟩ := rested_and_alike_still hs hv hb hw
    exact ih hrest (hlike.apart ha) (shows_still hm hv (hs _ _ hv hb) hw)
  | @wrote s t u n v w sync patch content ls inner as hv hb hin hinner hw _ ih₁ ih₂ =>
    obtain ⟨hu, hwriting⟩ := hinner.rested_and_alike hs.writing
    obtain ⟨hrest, hlike⟩ := rested_and_alike_wrote hv hb hin hu hwriting hw
    refine ih₂ hrest (hlike.apart ha) ?_
    by_cases hmn : m = n
    · subst hmn
      exact shows_wrote hs ha hv hin hinner hw
    · obtain ⟨rfl, -, hscope⟩ := inbound_write hin
      have hapart : (s.setView n { v with sync := sync }.writing).Apart := ha.setView hv hscope
      have hkept := shows_writing (x := { v with sync := sync }) hm ha hv hscope hmn
      exact shows_setView_of_ne (ih₁ hs.writing hapart hkept) hmn

/-- **All answers in a cascade are truthful,** and the views that have answered with more than that
nothing was to be done are shown when it ends. -/
theorem Told.answers (h : Told s ls as t) (hs : s.Rested) (ha : s.Apart) {a : Answer}
    (hmem : a ∈ as) : a.Truthful ∧ (a.outcome ≠ .unchanged → t.Shows a.view) := by
  induction h with
  | nil => cases hmem
  | absent _ _ ih => exact ih hs ha hmem
  | busy hv hb _ ih =>
    obtain ⟨hrest, hlike⟩ := rested_and_alike_busy hs hv hb
    exact ih hrest (hlike.apart ha) hmem
  | @still s t n v w e ls as hv hb hw hlater ih =>
    obtain ⟨hrest, hlike⟩ := rested_and_alike_still hs hv hb hw
    rcases List.mem_append.1 hmem with hmem | hmem
    · obtain ⟨o, ho, rfl⟩ := List.mem_map.1 hmem
      have he : e = some o := Option.mem_toList.1 ho
      have hstill := stilled (hs n v hv hb) hw
      refine ⟨truthful_answer_still hv (hs n v hv hb) hw he, fun hun => ?_⟩
      have hshown : (s.setView n w).Shows n := by
        cases o with
        | written => exact absurd he hstill.ne_written
        | unchanged => exact absurd rfl hun
        | adopted => exact ⟨w, view?_setView_self hv, hstill.shown he⟩
      exact hlater.shows hrest (hlike.apart ha) hshown
    · exact ih hrest (hlike.apart ha) hmem
  | @wrote s t u n v w sync patch content ls inner as hv hb hin hinner hw hlater ih₁ ih₂ =>
    obtain ⟨hu, hwriting⟩ := hinner.rested_and_alike hs.writing
    obtain ⟨hrest, hlike⟩ := rested_and_alike_wrote hv hb hin hu hwriting hw
    rcases List.mem_append.1 hmem with hmem | hmem
    -- Answers inside the write are those of other views, which the rest of the cascade keeps shown.
    · obtain ⟨-, -, hscope⟩ := inbound_write hin
      have hapart : (s.setView n { v with sync := sync }.writing).Apart := ha.setView hv hscope
      obtain ⟨htrue, hshown⟩ := ih₁ hs.writing hapart hmem
      obtain ⟨hne, -⟩ := awake_of_writing (hinner.awake hs.writing hmem)
      exact ⟨htrue, fun hun =>
        hlater.shows hrest (hlike.apart ha) (shows_setView_of_ne (hshown hun) hne)⟩
    rcases List.mem_cons.1 hmem with rfl | hmem
    · obtain ⟨y, hy⟩ := hinner.view?_writing hs.writing hv
      refine ⟨truthful_answer_wrote hv hy (by subst hw; rfl) (by subst hw; rfl), fun _ => ?_⟩
      exact hlater.shows hrest (hlike.apart ha) (shows_wrote hs ha hv hin hinner hw)
    · exact ih₂ hrest (hlike.apart ha) hmem

/-- **What comes of a turn is reported truthfully,** by the view itself and by all that answer. -/
theorem Stepped.honest (h : Stepped s n x turn as t e) (hs : s.ReadyBut n) (ha : s.Apart)
    (hv : s.view? n = some v) (hx : x.sync.scope = v.sync.scope) (hwrites : x.writes = v.writes) :
    e.Truthful s t n ∧ (turn.Presents x.sync s.query → e ≠ .unchanged → t.Shows n) ∧
      ∀ a ∈ as, a.Truthful ∧ (a.outcome ≠ .unchanged → t.Shows a.view) := by
  cases h with
  | unchanged =>
    exact ⟨truthful_setView hv hwrites (by simp), fun _ hne => absurd rfl hne,
      fun _ hmem => by cases hmem⟩
  | adopted content =>
    exact ⟨truthful_setView hv hwrites (by simp),
      fun hpresents _ => ⟨_, view?_setView_self hv, hpresents.adopt content rfl⟩,
      fun _ hmem => by cases hmem⟩
  | @written u patch content _ htold =>
    have hrested := hs.rested_writing (w := x) hv patch
    obtain ⟨y, hy⟩ := htold.view?_writing hrested hv
    refine ⟨truthful_setView_written hv hy (congrArg (· + 1) hwrites), fun hpresents _ => ?_,
      fun a hmem => ?_⟩
    · obtain rfl := hpresents.write patch content rfl
      exact ⟨_, view?_setView_self hy, htold.shows_written hrested ha hv hx⟩
    · have hapart : (s.setView n x.writing).Apart := ha.setView hv hx
      obtain ⟨htrue, hshown⟩ := htold.answers hrested hapart hmem
      obtain ⟨hne, -⟩ := awake_of_writing (htold.awake hrested hmem)
      exact ⟨htrue, fun hun => shows_setView_of_ne (hshown hun) hne⟩

/-- A view does not answer the changes that it makes itself. -/
theorem Stepped.silent (h : Stepped s n x turn as t e) (hs : s.ReadyBut n)
    (hv : s.view? n = some v) (hx : x.lastExternal = v.lastExternal) :
    (t.view? n).map View.lastExternal = (s.view? n).map View.lastExternal := by
  rw [hv]
  cases h with
  | unchanged => rw [view?_setView_self hv]; exact congrArg some hx
  | adopted content => rw [view?_setView_self hv]; exact congrArg some hx
  | written htold =>
    obtain ⟨y, hy⟩ := htold.view?_writing (hs.rested_writing hv _) hv
    rw [view?_setView_self hy]
    exact congrArg some hx

end Session

/-! ### Reports of an operation -/

/-- The turn of every request but that for a saved filter presents the output. -/
theorem Request.presents (r : Request) (hr : ∀ saved, r ≠ .load saved) (sync : Synchronizer)
    (query : String) : (r.step sync query).2.Presents (r.step sync query).1 query := by
  cases r with
  | add | update | remove | setJoin => exact Synchronizer.outbound_presents _ query
  | reset => exact sync.reset_presents query
  | load saved => exact absurd rfl (hr saved)

namespace Session

variable {s t u : Session} {n m : Nat} {v x : View} {e : Emission} {turn : Turn} {as : List Answer}
  {op : Operation}

/-- The first turn of a view presents the output, unless it is filled from a saved filter. -/
theorem hydrating_presents (sync : Synchronizer) (h : sync.hydrated = false) (query : String) :
    (hydrating none sync query).2.Presents (hydrating none sync query).1 query := by
  have hfirst : hydrating none sync query =
      (sync.filled query, (sync.filled query).outbound query) := by
    unfold hydrating
    rw [Synchronizer.hydrate_ambient h]
    rfl
  rw [hfirst]
  exact Synchronizer.outbound_presents _ query

/-- The report on a request is the outcome of the step. -/
theorem eq_of_report? {r : Request} {o : Emission} (hv : s.view? n = some v)
    (h : s.report? n v r = some o) (hstep : s.step n r.step = (t, e)) : o = e := by
  cases r with
  | add field operator value =>
    rw [Request.step, ← change_eq hv fun store => store.add field operator value] at hstep
    rw [report?, add] at h
    split at h <;> simp_all [Except.toOption]
  | update id operator value =>
    rw [Request.step, ← change_eq hv fun store => store.update id operator value] at hstep
    rw [report?, update] at h
    split at h <;> simp_all [Except.toOption]
  | remove id =>
    rw [Request.step, ← change_eq hv fun store => store.remove id] at hstep
    rw [report?, remove] at h
    split at h <;> simp_all [Except.toOption]
  | setJoin join =>
    rw [Request.step, ← change_eq hv fun store => store.setJoin join] at hstep
    rw [report?, setJoin, hstep] at h
    exact (Option.some.inj h).symm
  | reset =>
    rw [report?, Session.reset, show s.step n Synchronizer.reset = (t, e) from hstep] at h
    exact (Option.some.inj h).symm
  | load saved =>
    rw [report?, load,
      show (s.step n fun sync query => sync.load saved query) = (t, e) from hstep] at h
    exact (Option.some.inj h).symm

/-- The cascade of a step is that of its write. -/
theorem Stepped.told_publish (h : Stepped s n x turn as t e) (hs : s.ReadyBut n)
    (hv : s.view? n = some v) (hu : s.begun? n x turn = some u) :
    Told u u.listeners as u.publish := by
  cases h with
  | unchanged => cases hu
  | adopted content => cases hu
  | written htold =>
    cases hu
    obtain ⟨bs, hpublish⟩ := (hs.writing (v := x) hv _).told_publish
    obtain ⟨rfl, -⟩ := hpublish.unique htold
    exact hpublish

theorem AtRest.honest_mount (hs : s.AtRest) (name : String) (table : Table)
    (saved : Option SavedFilter) (ha : (s.enlist name table).Apart) :
    s.Honest (.mount name table saved) := by
  have hself : (s.enlist name table).view? s.nextId = some (.ofTable name table) := by
    rw [view?_enlist hs, if_pos rfl]
  obtain ⟨as, t, e, hrun, hstep, hstepped⟩ := hs.stepped_mount name table saved
  obtain ⟨htrue, hshown, hanswers⟩ := hstepped.honest (hs.enlist name table) ha hself
    (Synchronizer.scope_hydrate (View.ofTable name table).sync saved s.query) rfl
  refine ⟨fun n o hreport => ?_, fun u hu => ⟨as, ?_, hrun ▸ hanswers⟩⟩
  · rw [reported?, hstep] at hreport
    cases hreport
    rw [hrun]
    refine ⟨?_, fun hloads hne => hshown ?_ hne, hstepped.silent (hs.enlist name table) hself rfl⟩
    · unfold Emission.Truthful at htrue
      rwa [writesOf_enlist hs] at htrue
    · obtain rfl : saved = none := by simpa [Operation.loads] using hloads
      exact hydrating_presents (View.ofTable name table).sync rfl s.query
  · exact hstepped.told_publish (hs.enlist name table) hself hu

/-- Where no view reports and nobody is told of anything, there is nothing to rely on. -/
theorem honest_of_none (hr : s.reported? op = none) (ho : s.onset? op = none) : s.Honest op :=
  ⟨fun n o hreport => (by rw [hr] at hreport; cases hreport),
    fun u hu => (by rw [ho] at hu; cases hu)⟩

theorem AtRest.honest_request (hs : s.AtRest) (ha : s.Apart) (n : Nat) (r : Request) :
    s.Honest (.request n r) := by
  cases hv : s.view? n with
  | none => exact honest_of_none (by rw [reported?, hv]; rfl) (by rw [onset?, hv]; rfl)
  | some v =>
    obtain ⟨as, t, e, hrun, hstep, hstepped⟩ := hs.stepped_request hv r
    obtain ⟨htrue, hshown, hanswers⟩ := hstepped.honest (hs.ready.but n) ha hv
      (r.scope_step v.sync s.query) rfl
    refine ⟨fun m o hreport => ?_, fun u hu => ⟨as, ?_, hrun ▸ hanswers⟩⟩
    · rw [reported?, hv] at hreport
      obtain ⟨o', ho, hreport⟩ := Option.bind_eq_some_iff.1
        (show ((s.report? n v r).bind fun e => some (n, e)) = some (m, o) from hreport)
      cases hreport
      obtain rfl := eq_of_report? hv ho hstep
      rw [hrun]
      refine ⟨htrue, fun hloads hne => hshown (r.presents ?_ v.sync s.query) hne,
        hstepped.silent (hs.ready.but n) hv rfl⟩
      rintro saved rfl
      cases hloads
    · rw [onset?, hv] at hu
      exact hstepped.told_publish (hs.ready.but n) hv hu

/-- What the host does to the navigation is answered truthfully. -/
theorem AtRest.honest_host (hs : s.AtRest) (ha : s.Apart) {nav : CountedHistory}
    (hr : s.reported? op = none) (ho : s.onset? op = some { s with navigation := nav })
    (hrun : s.run op = ({ s with navigation := nav } : Session).publish) : s.Honest op := by
  refine ⟨fun n o hreport => (by rw [hr] at hreport; cases hreport), fun u hu => ?_⟩
  obtain rfl := Option.some.inj (ho.symm.trans hu)
  obtain ⟨as, htold⟩ := hs.told_publish nav
  rw [hrun]
  exact ⟨as, htold, fun a hmem => htold.answers hs.rested ha hmem⟩

/-- **Step.** Reports on an operation can be relied on, if no parameter has two owners while it
lasts. -/
theorem AtRest.honest (hs : s.AtRest) (op : Operation) (ha : (s.staged op).Apart) :
    s.Honest op := by
  cases op with
  | mount name table saved => exact hs.honest_mount name table saved ha
  | unmount n => exact honest_of_none rfl rfl
  | request n r => exact hs.honest_request ha n r
  | navigate query => exact hs.honest_host ha rfl rfl rfl
  | back =>
    cases hh : s.navigation.history.back? with
    | none => exact honest_of_none rfl (by rw [onset?, hh]; rfl)
    | some h =>
      exact hs.honest_host ha rfl (by rw [onset?, hh]; rfl) (by rw [run, back_eq, hh]; rfl)
  | forward =>
    cases hh : s.navigation.history.forward? with
    | none => exact honest_of_none rfl (by rw [onset?, hh]; rfl)
    | some h =>
      exact hs.honest_host ha rfl (by rw [onset?, hh]; rfl) (by rw [run, forward_eq, hh]; rfl)
  | write patch => exact hs.honest_host ha rfl rfl rfl

/-- **What views report can be relied on,** after any operations on a new navigation and whatever
the next one is, if no parameter is owned by two of the views then mounted. -/
theorem reports_after_runs (query : String) (ops : List Operation) (op : Operation)
    (ha : (((start query).runs ops).staged op).Apart) : ((start query).runs ops).Honest op :=
  (atRest_runs (atRest_start query) ops).honest op ha

/-- A filter added in one view makes another, whose parameter has an empty item, write as well. -/
theorem reports_after_runs_two_views :
    let field (variant : Variant) (param : String) : FieldConfig :=
      { FieldConfig.plain param variant with param := some param }
    let notes : Table := ⟨"notes", none, ⟨[("note", field .text "n")]⟩⟩
    let tags : Table := ⟨"tags", none, ⟨[("tag", field .multiSelect "t")]⟩⟩
    let s := (start "").runs [.mount "notes" notes none, .mount "tags" tags none,
      .request 2 (.add "tag" none (.list ["p", "", "q"]))]
    let op : Operation := .request 1 (.add "note" none (.text "x"))
    s.Apart ∧ s.query = "t=p%2C%2Cq" ∧ s.reported? op = some (1, .written) ∧
      (s.run op).query = "t=p%2Cq&n=x" ∧ s.Honest op := by
  intro field notes tags s op
  have ha : s.Apart := apart_of_pairwise (by decide +kernel)
  exact ⟨ha, by decide +kernel, by decide +kernel, by decide +kernel,
    reports_after_runs "" _ op ha⟩

end Session

end TableFilter
