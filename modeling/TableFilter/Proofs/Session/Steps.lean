import TableFilter.Proofs.Session.Frame

/-!
# The steps of a view

What a step of a view makes of a session, told from the turn that its synchronizer decides on
(`Session.Stepped`): the navigation stays as it is unless the turn is a write, and a write is
followed by the cascade that it sets off. Either way the view ends with the store that it has
decided on and with the text of the navigation seen, whatever others have written meanwhile.

In a session at rest a request is such a step (`AtRest.stepped_request`), and so is mounting a table
(`AtRest.stepped_mount`); what the host does to the navigation is a cascade (`AtRest.told_publish`).
-/

namespace TableFilter.Session

/-- What comes of a turn of a view that has decided on it: the session, the outcome, and the answers
of others on the way. -/
inductive Stepped (s : Session) (n : Nat) (v : View) :
    Turn → List Answer → Session → Emission → Prop
  | unchanged : Stepped s n v .unchanged [] (s.setView n v) .unchanged
  | adopted (content : Patch.Content) :
      Stepped s n v (.adopt content) []
        (s.setView n { v with sync := v.sync.commit content s.query }) .adopted
  | written {u : Session} {patch : Patch} {content : Patch.Content} {as : List Answer} :
      Told ((s.setView n v.writing).written patch) s.listeners as u →
      Stepped s n v (.write patch content) as (u.setView n (v.finished content u.query)) .written

variable {s t u : Session} {n m fuel : Nat} {v w : View} {e : Emission} {turn : Turn}
  {as : List Answer}

theorem settle?_of_answered (hv : s.view? n = some v) (hp : w.pending = false) :
    settle? fuel (s.setView n w) n = some (s.setView n w) := by
  rw [settle?, view?_setView_self hv]
  simp [hp]

/-- A step in terms of what its synchronizer decides on. -/
theorem step?_eq {f : Synchronizer → String → Synchronizer × Turn} (hv : s.view? n = some v)
    {sync : Synchronizer} (hf : f v.sync s.query = (sync, turn)) :
    s.step? n f = (carry (Session.publish? s.bound) s n { v with sync := sync } turn).bind
      fun r => (settle? s.bound r.1 n).bind fun t => some (t, r.2) := by
  rw [step?, hv]
  change (carry (Session.publish? s.bound) s n { v with sync := (f v.sync s.query).1 }
    (f v.sync s.query).2).bind _ = _
  rw [hf]
  rfl

/-- The write of a view ends, with the cascade that it sets off. -/
theorem stepped_write {f : Synchronizer → String → Synchronizer × Turn} (hs : s.ReadyBut n)
    (hv : s.view? n = some v) {sync : Synchronizer} {patch : Patch}
    (hf : f v.sync s.query = (sync, .write patch sync.output.content)) :
    ∃ as t e, s.step? n f = some (t, e) ∧
      Stepped s n { v with sync := sync } (.write patch sync.output.content) as t e := by
  have hcard : (s.ids.toFinset.erase n).card < s.bound :=
    (Finset.card_le_card (Finset.erase_subset n _)).trans_lt (card_lt_bound s)
  have hready := hs.writing (v := { v with sync := sync }) hv patch
  have hawake := (awakeIn_ids s).writing (v := { v with sync := sync }) hv patch
  obtain ⟨u, hu, hpublished⟩ := serves_publish? hcard _ hready hawake
  obtain ⟨as, htold⟩ := told_publish? hcard hready hawake hu
  obtain ⟨p, hcarry⟩ := carry_write (c := sync.output.content) hs.nodup hv hu hpublished.spread
  refine ⟨as, _, _, ?_, .written htold⟩
  rw [step?_eq hv hf, hcarry, Option.bind_some]
  change (settle? (s.views.length + s.uses + 1) (u.setView n _) n).bind _ = _
  rw [settle?_committed hs.nodup hv hpublished.spread rfl]
  rfl

/-- **Every step of a view that decides on a fitting turn ends.** -/
theorem stepped_step? {f : Synchronizer → String → Synchronizer × Turn} (hs : s.ReadyBut n)
    (hv : s.view? n = some v) (hp : v.pending = false)
    (hfits : (f v.sync s.query).2.Fits (f v.sync s.query).1) :
    ∃ as t e, s.step? n f = some (t, e) ∧
      Stepped s n { v with sync := (f v.sync s.query).1 } (f v.sync s.query).2 as t e := by
  cases hf : f v.sync s.query with
  | mk sync turn =>
    rw [hf] at hfits
    cases turn with
    | unchanged =>
      refine ⟨[], _, _, ?_, .unchanged⟩
      have hsettled : settle? s.bound (s.setView n { v with sync := sync }) n = _ :=
        settle?_of_answered hv hp
      rw [step?_eq hv hf, carry, Option.bind_some, hsettled]
      rfl
    | adopt content =>
      refine ⟨[], _, _, ?_, .adopted content⟩
      have hsettled :
          settle? s.bound (s.setView n { v with sync := sync.commit content s.query }) n = _ :=
        settle?_of_answered hv hp
      rw [step?_eq hv hf, carry, Option.bind_some, hsettled]
      rfl
    | write patch content =>
      obtain rfl : content = sync.output.content := hfits
      exact stepped_write hs hv hf

/-! ### Sessions at rest -/

theorem AtRest.rested (hs : s.AtRest) : s.Rested := hs.ready.atRest

theorem ReadyBut.rested_writing (hs : s.ReadyBut n) (hv : s.view? n = some v) (patch : Patch) :
    ((s.setView n w.writing).written patch).Rested := (hs.writing hv patch).atRest

/-- A request in a view of a session at rest is a step of that view. -/
theorem AtRest.stepped_request (hs : s.AtRest) (hv : s.view? n = some v) (r : Request) :
    ∃ as t e, s.run (.request n r) = t ∧ s.step n r.step = (t, e) ∧
      Stepped s n { v with sync := (r.step v.sync s.query).1 } (r.step v.sync s.query).2 as t
        e := by
  have hset := hs.settled n v hv
  obtain ⟨as, t, e, ht, hstepped⟩ :=
    stepped_step? (hs.ready.but n) hv hset.answered (r.step_fits v.sync s.query)
  have hstep := step_eq_of_step? ht
  refine ⟨as, t, e, ?_, hstep, hstepped⟩
  rw [run, hv]
  change s.request n v r = t
  rw [request_eq hv, hstep]

/-- Mounting a table in a session at rest is the first step of its view. -/
theorem AtRest.stepped_mount (hs : s.AtRest) (name : String) (table : Table)
    (saved : Option SavedFilter) :
    ∃ as t e, s.run (.mount name table saved) = t.listen s.nextId ∧
      (s.enlist name table).step s.nextId (hydrating saved) = (t, e) ∧
      Stepped (s.enlist name table) s.nextId
        { View.ofTable name table with
          sync := (hydrating saved (View.ofTable name table).sync s.query).1 }
        (hydrating saved (View.ofTable name table).sync s.query).2 as t e := by
  have hself : (s.enlist name table).view? s.nextId = some (.ofTable name table) := by
    rw [view?_enlist hs, if_pos rfl]
  obtain ⟨-, hfits, -⟩ := hydrating_fits name table saved s.query
  obtain ⟨as, t, e, ht, hstepped⟩ :=
    stepped_step? (f := hydrating saved) (hs.enlist name table) hself rfl hfits
  have hstep := step_eq_of_step? ht
  refine ⟨as, t, e, ?_, hstep, hstepped⟩
  change ((s.enlist name table).step s.nextId (hydrating saved)).1.listen s.nextId = _
  rw [hstep]

/-- What is told to all listeners in a session that is ready for it. -/
theorem Ready.told_publish (hs : s.Ready) : ∃ as, Told s s.listeners as s.publish := by
  have hcard := card_lt_bound s
  obtain ⟨t, ht, -⟩ := serves_publish? hcard _ hs (awakeIn_ids _)
  rw [publish_eq_of_publish? ht]
  exact told_publish? hcard hs (awakeIn_ids _) ht

/-- A change of the navigation by the host is told to all the views. -/
theorem AtRest.told_publish (hs : s.AtRest) (nav : CountedHistory) :
    ∃ as, Told { s with navigation := nav } s.listeners as
      ({ s with navigation := nav } : Session).publish :=
  Ready.told_publish
    ⟨hs.ready.nodup, hs.ready.atRest, hs.ready.listening, hs.ready.views⟩

end TableFilter.Session
