import TableFilter.Proofs.Session.Quiescence

/-!
# Runs of a session

What the host and the users do to a session, one operation after another, beginning with a
navigation that nobody watches. Between operations a session is at rest (`Session.AtRest`): its
views are those who listen, and each is settled. Every operation ends, and leaves the session at
rest again (`perform?_atRest`); while it lasts, no view writes twice (`rest_after_runs`).
-/

namespace TableFilter

/-- What a user does in a mounted view. -/
inductive Request where
  | add (field : String) (operator : Option Operator) (value : Value)
  | update (id : Nat) (operator : Option Operator) (value : Option Value)
  | remove (id : Nat)
  | setJoin (join : Join)
  | reset
  | load (saved : SavedFilter)

/-- What the host and the users do to a session; views go by their numbers. -/
inductive Operation where
  | mount (name : String) (table : Table) (saved : Option SavedFilter)
  | unmount (n : Nat)
  | request (n : Nat) (r : Request)
  | navigate (query : String)
  | back
  | forward
  | write (patch : Patch)

/-- How often the host writes the navigation itself. -/
def Operation.hostWrites : Operation → Nat
  | .write _ => 1
  | _ => 0

namespace Session

/-! ### Operations -/

/-- The session after a request in a view. -/
def request (s : Session) (n : Nat) (v : View) : Request → Session
  | .add field operator value => (s.add n v field operator value).2
  | .update id operator value => (s.update n v id operator value).2
  | .remove id => (s.remove n v id).2
  | .setJoin join => (s.setJoin n v join).1
  | .reset => (s.reset n).1
  | .load saved => (s.load n saved).1

/-- The session after an operation. -/
def run (s : Session) : Operation → Session
  | .mount name table saved => s.attach name table saved
  | .unmount n => s.dismiss fun m _ => m = n
  | .request n r =>
    match s.view? n with
    | some v => s.request n v r
    | none => s
  | .navigate query => s.navigate query
  | .back => s.back.2
  | .forward => s.forward.2
  | .write patch => s.write patch

/-- The session after several operations. -/
def runs (s : Session) (ops : List Operation) : Session := ops.foldl run s

/-- A change of a store as a step of its synchronizer. -/
def storing (f : Store → Store) (sync : Synchronizer) (query : String) : Synchronizer × Turn :=
  let sync := { sync with store := f sync.store }
  (sync, sync.outbound query)

end Session

/-- A request as a step of a view's synchronizer. -/
def Request.step : Request → Synchronizer → String → Synchronizer × Turn
  | .add field operator value => Session.storing fun s => (s.add field operator value).2
  | .update id operator value => Session.storing fun s => (s.update id operator value).2
  | .remove id => Session.storing fun s => (s.remove id).2
  | .setJoin join => Session.storing fun s => (s.setJoin join).2
  | .reset => Synchronizer.reset
  | .load saved => fun sync query => sync.load saved query

theorem Session.storing_fits (f : Store → Store) (sync : Synchronizer) (query : String) :
    (Session.storing f sync query).2.Fits (Session.storing f sync query).1 :=
  Synchronizer.outbound_fits _ query

theorem Request.step_fits (r : Request) (sync : Synchronizer) (query : String) :
    (r.step sync query).2.Fits (r.step sync query).1 := by
  cases r with
  | add => exact Session.storing_fits _ sync query
  | update => exact Session.storing_fits _ sync query
  | remove => exact Session.storing_fits _ sync query
  | setJoin => exact Session.storing_fits _ sync query
  | reset => exact Synchronizer.reset_fits sync query
  | load saved => exact Synchronizer.load_fits sync saved query

/-- No request touches what the synchronizer knows of the navigation before its turn is made. -/
theorem Request.step_frame (r : Request) (sync : Synchronizer) (query : String) :
    (r.step sync query).1.phase = sync.phase ∧ (r.step sync query).1.snapshot = sync.snapshot := by
  cases r <;> exact ⟨rfl, rfl⟩

namespace Session

/-- The first step of a view. -/
def hydrating (saved : Option SavedFilter) (sync : Synchronizer) (query : String) :
    Synchronizer × Turn :=
  let (sync, turn) := sync.hydrate saved query
  (sync, turn.getD .unchanged)

/-- The session with a view that does not listen yet. -/
def enlist (s : Session) (name : String) (table : Table) : Session :=
  { s with views := s.views ++ [(s.nextId, .ofTable name table)], nextId := s.nextId + 1 }

/-- The session with one more listener. -/
def listen (s : Session) (n : Nat) : Session := { s with listeners := s.listeners ++ [.view n] }

/-- The session after an operation, unless the cascade that it sets off outlasts its bound. -/
def perform? (s : Session) : Operation → Option Session
  | .mount name table saved =>
    ((s.enlist name table).step? s.nextId (hydrating saved)).map fun r => r.1.listen s.nextId
  | .unmount n => some (s.dismiss fun m _ => m = n)
  | .request n r =>
    match s.view? n with
    | some _ => (s.step? n r.step).map (·.1)
    | none => some s
  | .navigate query =>
    let s := s.setHistory (s.navigation.history.navigate query)
    publish? s.bound s
  | .back =>
    match s.navigation.history.back? with
    | some h => publish? (s.setHistory h).bound (s.setHistory h)
    | none => some s
  | .forward =>
    match s.navigation.history.forward? with
    | some h => publish? (s.setHistory h).bound (s.setHistory h)
    | none => some s
  | .write patch => publish? (s.written patch).bound (s.written patch)

variable {s t : Session} {n : Nat} {v : View}

theorem step_eq_of_step? {f : Synchronizer → String → Synchronizer × Turn} {e : Emission}
    (h : s.step? n f = some (t, e)) : s.step n f = (t, e) := by
  rw [step, h]; rfl

theorem publish_eq_of_publish? (h : publish? s.bound s = some t) : s.publish = t := by
  rw [publish, h]; rfl

theorem change_eq {α : Type} (hv : s.view? n = some v) (f : Store → α × Store) :
    (s.change n v f).2 = s.step n (storing fun store => (f store).2) := by
  have hstep : s.step? n (fun sync query =>
        let sync := { sync with store := (f v.sync.store).2 }
        (sync, sync.outbound query)) =
      s.step? n (storing fun store => (f store).2) := by
    rw [step?, step?, hv]; rfl
  exact congrArg (·.getD (s, .unchanged)) hstep

theorem request_eq (hv : s.view? n = some v) (r : Request) :
    s.request n v r = (s.step n r.step).1 := by
  cases r with
  | add field operator value =>
    rw [Request.step, ← change_eq hv fun store => store.add field operator value]
    rw [request, add]
    split <;> simp_all
  | update id operator value =>
    rw [Request.step, ← change_eq hv fun store => store.update id operator value]
    rw [request, update]
    split <;> simp_all
  | remove id =>
    rw [Request.step, ← change_eq hv fun store => store.remove id]
    rw [request, remove]
    split <;> simp_all
  | setJoin join =>
    rw [Request.step, ← change_eq hv fun store => store.setJoin join]
    rfl
  | reset => rfl
  | load saved => rfl

/-- **An operation whose cascades end within the bound has the session that they end in.** -/
theorem run_eq_of_perform? {op : Operation} (h : s.perform? op = some t) : s.run op = t := by
  cases op with
  | mount name table saved =>
    obtain ⟨⟨u, e⟩, hu, rfl⟩ := Option.map_eq_some_iff.1 h
    have hstep := step_eq_of_step? hu
    change ((s.enlist name table).step s.nextId (hydrating saved)).1.listen s.nextId = _
    rw [hstep]
  | unmount n => exact Option.some.inj h
  | request n r =>
    cases hv : s.view? n with
    | none =>
      rw [perform?, hv] at h
      rw [run, hv]
      exact Option.some.inj h
    | some v =>
      rw [perform?, hv] at h
      obtain ⟨⟨u, e⟩, hu, rfl⟩ := Option.map_eq_some_iff.1 h
      rw [run, hv]
      change s.request n v r = u
      rw [request_eq hv, step_eq_of_step? hu]
  | navigate query => exact publish_eq_of_publish? h
  | back =>
    rw [run, back_eq]
    rw [perform?] at h
    split <;> simp_all [publish_eq_of_publish?]
  | forward =>
    rw [run, forward_eq]
    rw [perform?] at h
    split <;> simp_all [publish_eq_of_publish?]
  | write patch => exact publish_eq_of_publish? h

/-! ### Sessions at rest -/

/-- A session between operations: its views are those who listen, and each is settled. -/
structure AtRest (s : Session) : Prop where
  nodup : s.ids.Nodup
  fresh : ∀ n ∈ s.ids, n < s.nextId
  listeners : s.listeners = s.ids.map .view
  settled : ∀ n v, s.view? n = some v → v.Settled s.query

theorem atRest_start (query : String) : (start query).AtRest where
  nodup := List.nodup_nil
  fresh := fun _ h => by cases h
  listeners := rfl
  settled := fun _ _ h => by cases h

theorem AtRest.ready (h : s.AtRest) : s.Ready where
  nodup := h.nodup
  atRest := fun n v hv _ => (h.settled n v hv).toAtRest
  listening := fun n v hv _ => by
    rw [h.listeners]
    exact List.mem_map.2 ⟨n, mem_ids_iff.2 ⟨v, hv⟩, rfl⟩
  views := fun l hl => by
    rw [h.listeners] at hl
    obtain ⟨n, -, rfl⟩ := List.mem_map.1 hl
    exact ⟨n, rfl⟩

theorem awakeIn_ids (s : Session) : s.AwakeIn s.ids.toFinset := fun _ v hv _ =>
  List.mem_toFinset.2 (mem_ids_iff.2 ⟨v, hv⟩)

theorem card_lt_bound (s : Session) : s.ids.toFinset.card < s.bound := by
  have h : s.ids.toFinset.card ≤ s.views.length := by
    rw [← List.length_map (f := (·.1))]
    exact s.ids.toFinset_card_le
  rw [bound]
  omega

/-- After a cascade that began when no view was writing, every view is settled. -/
theorem Spread.settled (h : s.Spread t) (hs : ∀ n v, s.view? n = some v → v.isBusy = false)
    (ht : t.Calm) : ∀ n v, t.view? n = some v → v.Settled t.query := by
  intro n w hw
  obtain ⟨v, hv⟩ := mem_ids_iff.1 (h.ids ▸ mem_ids_iff.2 ⟨w, hw⟩)
  obtain ⟨w', hw', hrest⟩ := h.atRest n v hv (hs n v hv)
  rw [hw, Option.some.injEq] at hw'
  exact ht n w hw (hw' ▸ hrest.isBusy_eq_false)

theorem AtRest.of_spread {nav : CountedHistory} (hs : s.AtRest)
    (h : ({ s with navigation := nav } : Session).Spread t) (ht : t.Calm) : t.AtRest where
  nodup := h.ids ▸ hs.nodup
  fresh := h.ids ▸ h.nextId ▸ hs.fresh
  listeners := by rw [h.listeners, h.ids]; exact hs.listeners
  settled := h.settled (fun n v hv => (hs.settled n v hv).isBusy_eq_false) ht

/-! ### What an operation does -/

/-- The writes of a view during an operation. -/
def writesBetween (s t : Session) (n : Nat) : Nat := t.writesOf n - s.writesOf n

/-- What is to be shown of every operation: it leaves the session at rest, no view has written
twice, and all that was written was written by a view or by the host. -/
structure Completed (host : Nat) (s t : Session) : Prop where
  atRest : t.AtRest
  once : ∀ n, s.writesBetween t n ≤ 1
  all : t.navigation.writes =
    s.navigation.writes + host + ∑ n ∈ t.ids.toFinset, s.writesBetween t n

theorem sum_writesBetween (h : s.Spread t) :
    t.navigation.writes = s.navigation.writes + ∑ n ∈ t.ids.toFinset, s.writesBetween t n := by
  have hsum : ∑ n ∈ t.ids.toFinset, s.writesBetween t n + s.viewWrites = t.viewWrites := by
    rw [viewWrites, viewWrites, ← h.ids, ← Finset.sum_add_distrib]
    exact Finset.sum_congr rfl fun n _ => Nat.sub_add_cancel (h.mono n)
  have := h.balance
  omega

/-- A change of the navigation by the host, told to all. -/
theorem AtRest.publish? (hs : s.AtRest) (nav : CountedHistory) {host : Nat}
    (hhost : nav.writes = s.navigation.writes + host) :
    ∃ t, Session.publish? ({ s with navigation := nav } : Session).bound
      { s with navigation := nav } = some t ∧ s.Completed host t := by
  have hready : ({ s with navigation := nav } : Session).Ready :=
    ⟨hs.ready.nodup, hs.ready.atRest, hs.ready.listening, hs.ready.views⟩
  obtain ⟨t, ht, hp⟩ :=
    serves_publish? (card_lt_bound { s with navigation := nav }) _ hready (awakeIn_ids _)
  refine ⟨t, ht, hs.of_spread hp.spread hp.calm, fun n => ?_, ?_⟩
  · have : t.writesOf n ≤ s.writesOf n + 1 := hp.writes n
    rw [writesBetween]
    omega
  · rw [sum_writesBetween hp.spread, ← hhost]
    rfl

/-- **A step of a view that decides on a fitting turn ends in a calm session.** -/
theorem step?_spec {f : Synchronizer → String → Synchronizer × Turn} (hs : s.ReadyBut n)
    (hv : s.view? n = some v) (hb : v.isBusy = false)
    (hothers : ∀ m w, m ≠ n → s.view? m = some w → w.isBusy = false → w.Settled s.query)
    (hidle : (f v.sync s.query).1.phase = .idle)
    (hfits : (f v.sync s.query).2.Fits (f v.sync s.query).1)
    (hseen : (f v.sync s.query).2 = .unchanged → (f v.sync s.query).1.snapshot = some s.query) :
    ∃ t e, s.step? n f = some (t, e) ∧ s.Spread t ∧ t.Calm ∧
      ∀ m, t.writesOf m ≤ s.writesOf m + 1 := by
  have hcard : (s.ids.toFinset.erase n).card < s.bound :=
    (Finset.card_le_card (Finset.erase_subset n _)).trans_lt (card_lt_bound s)
  -- While the view writes, one view fewer can answer, which is what the fuel counts.
  obtain ⟨t, w, e, hcarry, hturned, hset⟩ :=
    carry_spec (Session.publish? s.bound) (v := { v with sync := (f v.sync s.query).1 }) hs.nodup hv
      rfl hidle hfits hseen fun patch =>
        serves_publish? hcard _ (hs.writing hv patch) ((awakeIn_ids s).writing hv patch)
  obtain ⟨x, hx⟩ := hturned.mem hv
  have hids : t.ids.Nodup := hturned.ids ▸ hs.nodup
  obtain ⟨k, hk⟩ : ∃ k, s.bound = k + 1 := ⟨s.views.length + s.uses, rfl⟩
  have hturned' : Turned s n t { w with pending := false } := hturned.congr rfl
  refine ⟨t.setView n { w with pending := false }, e, ?_, hturned'.spread hv hb hs hset.toAtRest,
    hturned'.calm hv hothers hset, fun m => hturned'.writesOf_le hv⟩
  rw [step?, hv]
  change (carry (Session.publish? s.bound) s n _ _).bind _ = _
  rw [hcarry]
  change (settle? s.bound (t.setView n w) n).bind _ = _
  rw [hk, settle?_setView hids hx hset]
  rfl

theorem AtRest.request? (hs : s.AtRest) (hv : s.view? n = some v) (r : Request) :
    ∃ t e, s.step? n r.step = some (t, e) ∧ s.Completed 0 t := by
  have hset := hs.settled n v hv
  obtain ⟨hphase, hsnapshot⟩ := r.step_frame v.sync s.query
  obtain ⟨t, e, ht, hspread, hcalm, hwrites⟩ :=
    step?_spec (hs.ready.but n) hv hset.isBusy_eq_false (fun m w _ hw _ => hs.settled m w hw)
      (hphase.trans hset.idle) (r.step_fits v.sync s.query) (fun _ => hsnapshot.trans hset.seen)
  refine ⟨t, e, ht, hs.of_spread hspread hcalm, fun m => ?_, ?_⟩
  · have := hwrites m
    rw [writesBetween]
    omega
  · exact sum_writesBetween hspread

/-! ### Mounting -/

theorem view?_enlist (hs : s.AtRest) (name : String) (table : Table) (m : Nat) :
    (s.enlist name table).view? m =
      if m = s.nextId then some (.ofTable name table) else s.view? m :=
  lookup_append_single fun h => (hs.fresh _ h).ne rfl

theorem ids_enlist (name : String) (table : Table) :
    (s.enlist name table).ids = s.ids ++ [s.nextId] :=
  List.map_append

theorem AtRest.enlist (hs : s.AtRest) (name : String) (table : Table) :
    (s.enlist name table).ReadyBut s.nextId := by
  have hother {m : Nat} {w : View} (hm : m ≠ s.nextId)
      (hw : (s.enlist name table).view? m = some w) : s.view? m = some w := by
    rwa [view?_enlist hs, if_neg hm] at hw
  refine ⟨?_, fun m w hm hw => hs.ready.atRest m w (hother hm hw),
    fun m w hm hw => hs.ready.listening m w (hother hm hw), hs.ready.views⟩
  rw [ids_enlist]
  refine List.nodup_append.2 ⟨hs.nodup, List.nodup_singleton _, fun a ha b hb => ?_⟩
  rw [List.mem_singleton.1 hb]
  exact (hs.fresh a ha).ne

theorem writesOf_enlist (hs : s.AtRest) (name : String) (table : Table) (m : Nat) :
    (s.enlist name table).writesOf m = s.writesOf m := by
  rw [writesOf, view?_enlist hs]
  split
  · next h =>
    have hnone : s.view? m = none := by
      rw [Option.eq_none_iff_forall_ne_some]
      intro w hw
      exact (hs.fresh m (mem_ids_iff.2 ⟨w, hw⟩)).ne h
    rw [writesOf, hnone]
    rfl
  · rfl

theorem hydrating_fits (name : String) (table : Table) (saved : Option SavedFilter)
    (query : String) :
    let r := hydrating saved (View.ofTable name table).sync query
    r.1.phase = .idle ∧ r.2.Fits r.1 ∧ r.2 ≠ .unchanged := by
  obtain ⟨t, ht, hne, hfits⟩ :=
    Synchronizer.hydrate_fits (s := (View.ofTable name table).sync) rfl rfl saved
  have hturn : (hydrating saved (View.ofTable name table).sync query).2 = t := by
    unfold hydrating
    dsimp only
    rw [ht]
    rfl
  dsimp only
  rw [hturn]
  exact ⟨Synchronizer.phase_hydrate (View.ofTable name table).sync saved query, hfits, hne⟩

theorem AtRest.mount? (hs : s.AtRest) (name : String) (table : Table)
    (saved : Option SavedFilter) :
    ∃ t e, (s.enlist name table).step? s.nextId (hydrating saved) = some (t, e) ∧
      s.Completed 0 (t.listen s.nextId) := by
  have hself : (s.enlist name table).view? s.nextId = some (.ofTable name table) := by
    rw [view?_enlist hs, if_pos rfl]
  have hothers (m : Nat) (w : View) (hm : m ≠ s.nextId)
      (hw : (s.enlist name table).view? m = some w) : w.Settled s.query := by
    rw [view?_enlist hs, if_neg hm] at hw
    exact hs.settled m w hw
  obtain ⟨hidle, hfits, hne⟩ := hydrating_fits name table saved s.query
  obtain ⟨t, e, ht, hspread, hcalm, hwrites⟩ :=
    step?_spec (hs.enlist name table) hself rfl (fun m w hm hw _ => hothers m w hm hw) hidle hfits
      (fun h => absurd h hne)
  -- A view that has just been enlisted has not written, so writes may be counted from there.
  have hbetween (m : Nat) :
      s.writesBetween (t.listen s.nextId) m = (s.enlist name table).writesBetween t m :=
    congrArg (t.writesOf m - ·) (writesOf_enlist hs name table m).symm
  have hawake (m : Nat) (w : View) (hw : (s.enlist name table).view? m = some w) :
      w.isBusy = false := by
    by_cases hm : m = s.nextId
    · subst hm
      rw [hself, Option.some.injEq] at hw
      exact hw ▸ rfl
    · exact (hothers m w hm hw).isBusy_eq_false
  refine ⟨t, e, ht, ⟨?_, fun n hn => ?_, ?_, hspread.settled hawake hcalm⟩, fun m => ?_, ?_⟩
  · exact hspread.ids ▸ (hs.enlist name table).nodup
  · have hn' : n ∈ (s.enlist name table).ids := hspread.ids ▸ hn
    rw [ids_enlist, List.mem_append, List.mem_singleton] at hn'
    change n < t.nextId
    rw [hspread.nextId]
    rcases hn' with hold | rfl
    · exact (hs.fresh n hold).trans (Nat.lt_succ_self _)
    · exact Nat.lt_succ_self _
  · change t.listeners ++ [_] = t.ids.map .view
    rw [hspread.listeners, hspread.ids, ids_enlist, List.map_append]
    exact congrArg (· ++ [Listener.view s.nextId]) hs.listeners
  · have := hwrites m
    rw [hbetween, writesBetween]
    omega
  · simp only [hbetween]
    exact sum_writesBetween hspread

/-! ### Unmounting -/

theorem ids_dismiss (gone : Nat → View → Bool) :
    (s.dismiss gone).ids.Sublist s.ids :=
  List.filter_sublist.map _

theorem view?_of_dismiss (hs : s.AtRest) {gone : Nat → View → Bool}
    (h : (s.dismiss gone).view? n = some v) : s.view? n = some v := by
  have hmem : (n, v) ∈ (s.dismiss gone).views := Keyed.mem_of_lookup_eq_some h
  exact Keyed.lookup_eq_some_of_mem hs.nodup (List.mem_of_mem_filter hmem)

theorem listeners_dismiss (hs : s.AtRest) (gone : Nat → View → Bool) :
    (s.dismiss gone).listeners = (s.dismiss gone).ids.map .view := by
  -- Views go by their numbers, so a listener leaves exactly when its view does.
  have hgone (p : Nat × View) (hp : p ∈ s.views) :
      ((s.views.filter fun q => gone q.1 q.2).map fun q => Listener.view q.1).contains
        (.view p.1) = gone p.1 p.2 := by
    rw [Bool.eq_iff_iff, List.contains_iff_mem, List.mem_map]
    constructor
    · rintro ⟨⟨m, w⟩, hm, he⟩
      obtain ⟨hmem, hg⟩ := List.mem_filter.1 hm
      cases he
      have hw := Keyed.lookup_eq_some_of_mem hs.nodup hmem
      rw [Keyed.lookup_eq_some_of_mem hs.nodup hp, Option.some.injEq] at hw
      rw [hw]
      exact hg
    · exact fun h => ⟨p, List.mem_filter.2 ⟨hp, h⟩, rfl⟩
  change s.listeners.filter _ = ((s.views.filter _).map (·.1)).map .view
  rw [hs.listeners, ids, List.map_map, List.map_map, List.filter_map]
  congr 1
  refine List.filter_congr fun p hp => ?_
  exact congrArg (!·) (hgone p hp)

theorem AtRest.dismiss (hs : s.AtRest) (gone : Nat → View → Bool) :
    s.Completed 0 (s.dismiss gone) := by
  have hsame (m : Nat) : s.writesBetween (s.dismiss gone) m = 0 := by
    cases hm : (s.dismiss gone).view? m with
    | none =>
      rw [writesBetween, writesOf, hm]
      exact Nat.zero_sub _
    | some w =>
      rw [writesBetween, writesOf_eq hm, writesOf_eq (view?_of_dismiss hs hm), Nat.sub_self]
  refine ⟨⟨(ids_dismiss gone).nodup hs.nodup, fun m hm => hs.fresh m ((ids_dismiss gone).subset hm),
    listeners_dismiss hs gone, fun m w hw => hs.settled m w (view?_of_dismiss hs hw)⟩,
    fun m => ?_, ?_⟩
  · rw [hsame m]
    exact Nat.zero_le 1
  · rw [Finset.sum_eq_zero fun m _ => hsame m]
    rfl

/-! ### Runs -/

theorem AtRest.completed_self (hs : s.AtRest) : s.Completed 0 s where
  atRest := hs
  once := fun n => by rw [writesBetween, Nat.sub_self]; exact Nat.zero_le 1
  all := by simp [writesBetween]

/-- **Step.** Every operation on a session at rest ends, and leaves it at rest. -/
theorem perform?_atRest (hs : s.AtRest) (op : Operation) :
    ∃ t, s.perform? op = some t ∧ s.Completed op.hostWrites t := by
  cases op with
  | mount name table saved =>
    obtain ⟨t, e, ht, hc⟩ := hs.mount? name table saved
    exact ⟨t.listen s.nextId, by rw [perform?, ht]; rfl, hc⟩
  | unmount n => exact ⟨_, rfl, hs.dismiss _⟩
  | request n r =>
    cases hv : s.view? n with
    | none => exact ⟨s, by rw [perform?, hv], hs.completed_self⟩
    | some v =>
      obtain ⟨t, e, ht, hc⟩ := hs.request? hv r
      exact ⟨t, by rw [perform?, hv, ht]; rfl, hc⟩
  | navigate query =>
    exact hs.publish? { s.navigation with history := s.navigation.history.navigate query } rfl
  | back =>
    cases hh : s.navigation.history.back? with
    | none => exact ⟨s, by rw [perform?, hh], hs.completed_self⟩
    | some h =>
      obtain ⟨t, ht, hc⟩ := hs.publish? { s.navigation with history := h } (Nat.add_zero _).symm
      exact ⟨t, by rw [perform?, hh]; exact ht, hc⟩
  | forward =>
    cases hh : s.navigation.history.forward? with
    | none => exact ⟨s, by rw [perform?, hh], hs.completed_self⟩
    | some h =>
      obtain ⟨t, ht, hc⟩ := hs.publish? { s.navigation with history := h } (Nat.add_zero _).symm
      exact ⟨t, by rw [perform?, hh]; exact ht, hc⟩
  | write patch => exact hs.publish? (s.navigation.write patch) rfl

/-- **Run.** A session is at rest after any operations. -/
theorem atRest_runs (hs : s.AtRest) (ops : List Operation) : (s.runs ops).AtRest := by
  induction ops generalizing s with
  | nil => exact hs
  | cons op ops ih =>
    obtain ⟨t, ht, hc⟩ := perform?_atRest hs op
    have hrun : s.run op = t := run_eq_of_perform? ht
    exact ih (hrun ▸ hc.atRest)

/-- **Every cascade ends, no view writes twice in it, and afterwards every view is settled.** After
any operations on a new navigation, the next one, whatever it is, ends in a session in which each
view is idle, with no change pending, the text of the navigation seen and its output committed.
Meanwhile each view has written at most once, and nobody else but the host has written. -/
theorem rest_after_runs (query : String) (ops : List Operation) (op : Operation) :
    let s := (start query).runs ops
    ∃ t, s.perform? op = some t ∧ s.run op = t ∧
      (∀ n v, (n, v) ∈ t.views →
        v.sync.phase = .idle ∧ v.pending = false ∧ v.sync.snapshot = some t.query ∧
          v.sync.committed = some v.sync.output.content) ∧
      (∀ n, s.writesBetween t n ≤ 1) ∧
      t.navigation.writes =
        s.navigation.writes + op.hostWrites + ∑ n ∈ t.ids.toFinset, s.writesBetween t n := by
  intro s
  have hs : s.AtRest := atRest_runs (atRest_start query) ops
  obtain ⟨t, ht, hc⟩ := perform?_atRest hs op
  refine ⟨t, ht, run_eq_of_perform? ht, fun n v hv => ?_, hc.once, hc.all⟩
  have hset := hc.atRest.settled n v ((mem_views_iff hc.atRest.nodup).1 hv)
  exact ⟨hset.idle, hset.answered, hset.seen, hset.committed⟩

end Session

end TableFilter
