import Mathlib.Algebra.BigOperators.Group.Finset.Basic
import TableFilter.Proofs.Session.Views
import TableFilter.Proofs.Synchronizer.Commitment

/-!
# Cascades among views come to rest

A change of the navigation is told to views that may write in answer, which is told to all in turn.
The induction is on the set of views that are not writing: a view that writes leaves that set until
its write has returned.

* A view is *settled* when it rests and has seen the text that the navigation shows. Telling a
  settled view changes nothing (`tell?_of_settled`).
* Telling one view is either *quiet*, and then only this view has noted the text, or *loud*, and
  then every view that is not writing is settled afterwards. So the first loud answer is the last
  one, and no view writes twice (`foldlM_tells`).
* After every listener has been told, all views that are not writing are settled, and a fuel above
  their number suffices (`serves_publish?`).
-/

namespace TableFilter

/-- A view at rest: it is not writing, no change waits for its answer, and its output is
committed. -/
structure View.AtRest (v : View) : Prop where
  idle : v.sync.phase = .idle
  answered : v.pending = false
  committed : v.sync.committed = some v.sync.output.content

/-- A view at rest that has seen a text. -/
structure View.Settled (v : View) (query : String) : Prop extends v.AtRest where
  seen : v.sync.snapshot = some query

/-- The view while its write is told to the others. -/
def View.writing (v : View) : View :=
  { v with sync := { v.sync with phase := .emitting }, writes := v.writes + 1 }

theorem View.isBusy_writing (v : View) : v.writing.isBusy = true := by simp [isBusy, writing]

theorem View.AtRest.isBusy_eq_false {v : View} (h : v.AtRest) : v.isBusy = false := by
  simp [View.isBusy, h.idle]

namespace Session

/-! ### What a cascade keeps and what it does -/

/-- Only views of the set are not writing. -/
def AwakeIn (A : Finset Nat) (s : Session) : Prop :=
  ∀ n v, s.view? n = some v → v.isBusy = false → n ∈ A

/-- Every view that is not writing is settled. -/
def Calm (s : Session) : Prop :=
  ∀ n v, s.view? n = some v → v.isBusy = false → v.Settled s.query

/-- How often a view has written; a view that is not there has not. -/
def writesOf (s : Session) (n : Nat) : Nat := ((s.view? n).map View.writes).getD 0

/-- How often the views have written, all together. -/
def viewWrites (s : Session) : Nat := ∑ n ∈ s.ids.toFinset, s.writesOf n

/-- What a cascade starts from: the views that are not writing rest and listen, and nobody else
listens. -/
structure Ready (s : Session) : Prop where
  nodup : s.ids.Nodup
  atRest : ∀ n v, s.view? n = some v → v.isBusy = false → v.AtRest
  listening : ∀ n v, s.view? n = some v → v.isBusy = false → .view n ∈ s.listeners
  views : ∀ l ∈ s.listeners, ∃ n, l = .view n

/-- The same for all views but one, which may be writing, or not listen yet. -/
structure ReadyBut (n : Nat) (s : Session) : Prop where
  nodup : s.ids.Nodup
  atRest : ∀ m v, m ≠ n → s.view? m = some v → v.isBusy = false → v.AtRest
  listening : ∀ m v, m ≠ n → s.view? m = some v → v.isBusy = false → .view m ∈ s.listeners
  views : ∀ l ∈ s.listeners, ∃ m, l = .view m

/-- What no cascade changes: the same views listen, one that was writing still does, its mark
apart, and one that was at rest is so again. Whatever is written meanwhile, a view has written. -/
structure Spread (s t : Session) : Prop where
  ids : t.ids = s.ids
  listeners : t.listeners = s.listeners
  observers : t.observers = s.observers
  nextId : t.nextId = s.nextId
  busy : ∀ n v, s.view? n = some v → v.isBusy = true →
    ∃ p, t.view? n = some { v with pending := p }
  atRest : ∀ n v, s.view? n = some v → v.isBusy = false → ∃ w, t.view? n = some w ∧ w.AtRest
  mono : ∀ n, s.writesOf n ≤ t.writesOf n
  balance : t.navigation.writes + s.viewWrites = s.navigation.writes + t.viewWrites

/-- Nothing was written, and the views that have heard of the text are settled, as are those that
were before. -/
structure Quiet (heard : Nat → Prop) (s t : Session) : Prop where
  query : t.query = s.query
  writes : ∀ n, t.writesOf n = s.writesOf n
  settled : ∀ n w, t.view? n = some w → w.isBusy = false →
    heard n ∨ (∃ v, s.view? n = some v ∧ v.Settled s.query) → w.Settled t.query

/-- A view that was not settled has written, and all are settled now. -/
structure Loud (s t : Session) : Prop where
  unsettled : ¬ s.Calm
  calm : t.Calm
  writes : ∀ n, t.writesOf n ≤ s.writesOf n + 1

variable {s t u : Session} {n m fuel : Nat} {v w : View} {A : Finset Nat}

theorem writesOf_eq (h : s.view? n = some v) : s.writesOf n = v.writes := by
  rw [writesOf, h]; rfl

theorem writesOf_congr (h : t.view? n = s.view? n) : t.writesOf n = s.writesOf n := by
  rw [writesOf, writesOf, h]

theorem viewWrites_congr (hids : t.ids = s.ids) (h : ∀ n, t.writesOf n = s.writesOf n) :
    t.viewWrites = s.viewWrites := by
  rw [viewWrites, viewWrites, hids]
  exact Finset.sum_congr rfl fun n _ => h n

theorem Spread.refl (h : s.Ready) : s.Spread s where
  ids := rfl
  listeners := rfl
  observers := rfl
  nextId := rfl
  busy := fun _ v hv _ => ⟨v.pending, hv⟩
  atRest := fun n v hv hb => ⟨v, hv, h.atRest n v hv hb⟩
  mono := fun _ => le_rfl
  balance := rfl

theorem Spread.trans (h : s.Spread t) (k : t.Spread u) : s.Spread u where
  ids := k.ids.trans h.ids
  listeners := k.listeners.trans h.listeners
  observers := k.observers.trans h.observers
  nextId := k.nextId.trans h.nextId
  busy := fun n v hv hb => by
    obtain ⟨p, hp⟩ := h.busy n v hv hb
    obtain ⟨q, hq⟩ := k.busy n _ hp hb
    exact ⟨q, hq⟩
  atRest := fun n v hv hb => by
    obtain ⟨w, hw, hr⟩ := h.atRest n v hv hb
    exact k.atRest n w hw hr.isBusy_eq_false
  mono := fun n => (h.mono n).trans (k.mono n)
  balance := by
    have := h.balance
    have := k.balance
    omega

/-- A view that is not writing after a cascade was not writing before. -/
theorem Spread.before (h : s.Spread t) (hw : t.view? n = some w) (hb : w.isBusy = false) :
    ∃ v, s.view? n = some v ∧ v.isBusy = false ∧ w.AtRest := by
  have hn : n ∈ s.ids := h.ids ▸ mem_ids_iff.2 ⟨w, hw⟩
  obtain ⟨v, hv⟩ := mem_ids_iff.1 hn
  cases hvb : v.isBusy with
  | true =>
    obtain ⟨p, hp⟩ := h.busy n v hv hvb
    rw [hw, Option.some.injEq] at hp
    subst hp
    exact absurd hvb (by rw [show v.isBusy = false from hb]; simp)
  | false =>
    obtain ⟨w', hw', hr⟩ := h.atRest n v hv hvb
    rw [hw, Option.some.injEq] at hw'
    exact ⟨v, hv, hvb, hw' ▸ hr⟩

theorem Spread.ready (h : s.Spread t) (hs : s.Ready) : t.Ready where
  nodup := h.ids ▸ hs.nodup
  atRest := fun n w hw hb => (h.before hw hb).choose_spec.2.2
  listening := fun n w hw hb => by
    obtain ⟨v, hv, hvb, -⟩ := h.before hw hb
    exact h.listeners ▸ hs.listening n v hv hvb
  views := h.listeners ▸ hs.views

theorem Spread.awakeIn (h : s.Spread t) (hs : s.AwakeIn A) : t.AwakeIn A := fun n w hw hb => by
  obtain ⟨v, hv, hvb, -⟩ := h.before hw hb
  exact hs n v hv hvb

/-- What telling every listener does. -/
structure Published (s t : Session) : Prop where
  spread : s.Spread t
  calm : t.Calm
  writes : ∀ n, t.writesOf n ≤ s.writesOf n + 1

/-- What the turn of a view makes of a session, before the view itself is put back: nothing, or what
its write has led to while it was busy. -/
inductive Turned (s : Session) (n : Nat) : Session → View → Prop
  | still {w : View} : w.writes = s.writesOf n → Turned s n s w
  | wrote {t : Session} {b w : View} {patch : Patch} : b.isBusy = true →
      b.writes = s.writesOf n + 1 → w.writes = b.writes →
      ((s.setView n b).written patch).Published t → Turned s n t w

/-- Telling every listener goes well, as long as only views of the set are not writing. -/
def Serves (A : Finset Nat) (publish : Session → Option Session) : Prop :=
  ∀ s, Ready s → AwakeIn A s → ∃ t, publish s = some t ∧ s.Published t

/-- The same of telling one view. -/
def Tells (A : Finset Nat) (tell : Session → Listener → Option Session) : Prop :=
  ∀ s n, Ready s → AwakeIn A s →
    ∃ t, tell s (.view n) = some t ∧ s.Spread t ∧ (s.Quiet (· = n) t ∨ s.Loud t)

theorem Ready.but (h : s.Ready) (n : Nat) : s.ReadyBut n where
  nodup := h.nodup
  atRest := fun m v _ => h.atRest m v
  listening := fun m v _ => h.listening m v
  views := h.views

/-! ### A view exchanged -/

theorem writesOf_setView_self (hv : s.view? n = some v) : (s.setView n w).writesOf n = w.writes :=
  writesOf_eq (view?_setView_self hv)

theorem writesOf_setView_of_ne (h : m ≠ n) : (s.setView n w).writesOf m = s.writesOf m :=
  writesOf_congr (view?_setView_of_ne h)

theorem writesOf_setView (hv : s.view? n = some v) (hw : w.writes = v.writes) (m : Nat) :
    (s.setView n w).writesOf m = s.writesOf m := by
  by_cases hm : m = n
  · subst hm; rw [writesOf_setView_self hv, writesOf_eq hv, hw]
  · exact writesOf_setView_of_ne hm

theorem viewWrites_setView (hv : s.view? n = some v) :
    (s.setView n w).viewWrites + v.writes = s.viewWrites + w.writes := by
  have hn : n ∈ s.ids.toFinset := List.mem_toFinset.2 (mem_ids_iff.2 ⟨v, hv⟩)
  have hrest : ∑ m ∈ s.ids.toFinset.erase n, (s.setView n w).writesOf m =
      ∑ m ∈ s.ids.toFinset.erase n, s.writesOf m :=
    Finset.sum_congr rfl fun m hm => writesOf_setView_of_ne (Finset.ne_of_mem_erase hm)
  rw [viewWrites, viewWrites, ids_setView, ← Finset.add_sum_erase _ _ hn,
    ← Finset.add_sum_erase _ s.writesOf hn, hrest, writesOf_setView_self hv, writesOf_eq hv]
  omega

theorem Calm.setView (h : ∀ m v, m ≠ n → s.view? m = some v → v.isBusy = false → v.Settled s.query)
    (hv : s.view? n = some v) (hw : w.Settled s.query) : (s.setView n w).Calm := by
  intro m x hx hb
  by_cases hm : m = n
  · subst hm
    rw [view?_setView_self hv, Option.some.injEq] at hx
    exact hx ▸ hw
  · rw [view?_setView_of_ne hm] at hx
    exact h m x hm hx hb

namespace Turned

variable {v₀ : View}

theorem congr (h : Turned s n t v) (hw : w.writes = v.writes) : Turned s n t w := by
  cases h with
  | still h => exact .still (hw.trans h)
  | wrote hb hbw h hp => exact .wrote hb hbw (hw.trans h) hp

theorem ids (h : Turned s n t w) : t.ids = s.ids := by
  cases h with
  | still => rfl
  | wrote _ _ _ hp => exact hp.spread.ids.trans ids_setView

theorem mem (h : Turned s n t w) (hv : s.view? n = some v₀) : ∃ v, t.view? n = some v :=
  mem_ids_iff.1 (h.ids ▸ mem_ids_iff.2 ⟨v₀, hv⟩)

/-- What was written in the turn is counted, and the views that wrote it have it to their count. -/
theorem counts (h : Turned s n t w) (hv : s.view? n = some v₀) :
    (∀ m, s.writesOf m ≤ (t.setView n w).writesOf m) ∧
      (t.setView n w).navigation.writes + s.viewWrites =
        s.navigation.writes + (t.setView n w).viewWrites := by
  have hwrites := writesOf_eq hv
  cases h with
  | still h =>
    have hsame := writesOf_setView (w := w) hv (h.trans hwrites)
    exact ⟨fun m => (hsame m).ge, by rw [viewWrites_congr ids_setView hsame]; rfl⟩
  | @wrote _ b _ patch hb hbw h hp =>
    obtain ⟨p, hbt⟩ := hp.spread.busy n b (view?_setView_self hv) hb
    have hsame := writesOf_setView (w := w) hbt h
    have hone : (s.setView n b).viewWrites = s.viewWrites + 1 := by
      have := viewWrites_setView (w := b) hv
      omega
    refine ⟨fun m => ?_, ?_⟩
    · rw [hsame m]
      refine le_trans ?_ (hp.spread.mono m)
      by_cases hm : m = n
      · subst hm
        have hb : ((s.setView m b).written patch).writesOf m = b.writes := writesOf_setView_self hv
        rw [hb]
        omega
      · exact (writesOf_setView_of_ne (w := b) hm).ge
    · have hbal : t.navigation.writes + (s.setView n b).viewWrites =
          s.navigation.writes + 1 + t.viewWrites := hp.spread.balance
      rw [viewWrites_congr ids_setView hsame]
      change t.navigation.writes + s.viewWrites = _
      omega

theorem spread (h : Turned s n t w) (hv : s.view? n = some v₀) (hb : v₀.isBusy = false)
    (hs : s.ReadyBut n) (hw : w.AtRest) : s.Spread (t.setView n w) := by
  obtain ⟨x, hx⟩ := h.mem hv
  have hothers : (∀ m v, m ≠ n → s.view? m = some v → v.isBusy = true →
      ∃ p, t.view? m = some { v with pending := p }) ∧
      ∀ m v, m ≠ n → s.view? m = some v → v.isBusy = false →
        ∃ w, t.view? m = some w ∧ w.AtRest := by
    cases h with
    | still =>
      exact ⟨fun m v _ hv _ => ⟨v.pending, hv⟩,
        fun m v hm hv hb => ⟨v, hv, hs.atRest m v hm hv hb⟩⟩
    | wrote _ _ _ hp =>
      exact ⟨fun m v hm hv => hp.spread.busy m v ((view?_setView_of_ne hm).trans hv),
        fun m v hm hv => hp.spread.atRest m v ((view?_setView_of_ne hm).trans hv)⟩
  have hframe : t.listeners = s.listeners ∧ t.observers = s.observers ∧ t.nextId = s.nextId := by
    cases h with
    | still => exact ⟨rfl, rfl, rfl⟩
    | wrote _ _ _ hp => exact ⟨hp.spread.listeners, hp.spread.observers, hp.spread.nextId⟩
  refine ⟨ids_setView.trans h.ids, hframe.1, hframe.2.1, hframe.2.2, fun m v hmv hvb => ?_,
    fun m v hmv hvb => ?_, (h.counts hv).1, (h.counts hv).2⟩
  · by_cases hm : m = n
    · subst hm
      rw [hv, Option.some.injEq] at hmv
      rw [← hmv, hb] at hvb
      cases hvb
    · rw [view?_setView_of_ne hm]
      exact hothers.1 m v hm hmv hvb
  · by_cases hm : m = n
    · subst hm; exact ⟨w, view?_setView_self hx, hw⟩
    · rw [view?_setView_of_ne hm]
      exact hothers.2 m v hm hmv hvb

theorem calm (h : Turned s n t w) (hv : s.view? n = some v₀)
    (hrest : ∀ m v, m ≠ n → s.view? m = some v → v.isBusy = false → v.Settled s.query)
    (hw : w.Settled t.query) : (t.setView n w).Calm := by
  obtain ⟨x, hx⟩ := h.mem hv
  refine Calm.setView ?_ hx hw
  cases h with
  | still => exact hrest
  | wrote _ _ _ hp => exact fun m v _ => hp.calm m v

theorem writesOf_le (h : Turned s n t w) (hv : s.view? n = some v₀) :
    (t.setView n w).writesOf m ≤ s.writesOf m + 1 := by
  obtain ⟨x, hx⟩ := h.mem hv
  by_cases hm : m = n
  · subst hm
    rw [writesOf_setView_self hx]
    cases h with
    | still h => omega
    | wrote _ hbw h => omega
  · rw [writesOf_setView_of_ne hm]
    cases h with
    | still => omega
    | @wrote _ b _ patch _ _ _ hp =>
      have hsame : ((s.setView n b).written patch).writesOf m = s.writesOf m :=
        writesOf_setView_of_ne hm
      exact hsame ▸ hp.writes m

end Turned

/-! ### The turn of a view -/

section Turn

variable {publish : Session → Option Session} {patch : Patch} {c : Patch.Content} {v₀ : View}

theorem carry_write (hs : s.ids.Nodup) (hn : s.view? n = some v₀)
    (hp : publish ((s.setView n v.writing).written patch) = some t)
    (ht : ((s.setView n v.writing).written patch).Spread t) :
    ∃ p, carry publish s n v (.write patch c) =
      some (t.setView n { v with
        sync := v.sync.commit c t.query, pending := p, writes := v.writes + 1 },
        .written) := by
  obtain ⟨p, hview⟩ := ht.busy n v.writing (view?_setView_self hn) v.isBusy_writing
  have hids : t.ids.Nodup := by
    rw [ht.ids]; exact (ids_setView (s := s)).symm ▸ hs
  refine ⟨p, ?_⟩
  change (publish ((s.setView n v.writing).written patch)).bind _ = _
  rw [hp]
  exact congrArg (fun u => some (u, Emission.written)) (alterView_eq_setView hids hview)

/-- **The turn of a view that fits it leaves it settled,** except that a change may have been marked
while it was writing. -/
theorem carry_spec (publish : Session → Option Session) {turn : Turn} (hs : s.ids.Nodup)
    (hn : s.view? n = some v₀) (hwrites : v.writes = v₀.writes) (hidle : v.sync.phase = .idle)
    (hfits : turn.Fits v.sync) (hseen : turn = .unchanged → v.sync.snapshot = some s.query)
    (hpub : ∀ patch, ∃ t, publish ((s.setView n v.writing).written patch) = some t ∧
      ((s.setView n v.writing).written patch).Published t) :
    ∃ t w e, carry publish s n v turn = some (t.setView n w, e) ∧ Turned s n t w ∧
      ({ w with pending := false } : View).Settled t.query := by
  have hw₀ : v.writes = s.writesOf n := hwrites.trans (writesOf_eq hn).symm
  cases turn with
  | unchanged =>
    exact ⟨s, v, .unchanged, rfl, .still hw₀, ⟨hidle, rfl, hfits⟩, hseen rfl⟩
  | adopt content =>
    exact ⟨s, { v with sync := v.sync.commit content s.query }, .adopted, rfl, .still hw₀,
      ⟨rfl, rfl, congrArg some hfits⟩, rfl⟩
  | write patch content =>
    obtain ⟨t, hp, ht⟩ := hpub patch
    obtain ⟨p, hcarry⟩ := carry_write (c := content) hs hn hp ht.spread
    refine ⟨t, _, .written, hcarry, .wrote v.isBusy_writing ?_ rfl ht,
      ⟨rfl, rfl, congrArg some hfits⟩, rfl⟩
    rw [← hw₀]; rfl

end Turn

/-! ### A view told of a change -/

theorem tell?_of_settled (hs : s.ids.Nodup) (hv : s.view? n = some v) (hset : v.Settled s.query) :
    tell? (fuel + 1) s (.view n) = some s := by
  have hreact : react (publish? fuel) s n v = some s := by
    rw [react, Synchronizer.inbound_of_seen hset.seen]
    exact congrArg some (setView_eq_self hs hv)
  rw [tell?, hv]
  simp only [hset.isBusy_eq_false, Bool.false_eq_true, if_false]
  change (react (publish? fuel) s n v).bind _ = _
  rw [hreact]
  simp [hv, hset.answered]

/-- A change that was marked while the view was writing is answered by doing nothing, if the view
has seen the text meanwhile. -/
theorem settle?_of_seen (hs : s.ids.Nodup) (hv : s.view? n = some v)
    (hset : ({ v with pending := false } : View).Settled s.query) :
    settle? (fuel + 1) s n = some (s.setView n { v with pending := false }) := by
  rw [settle?, hv]
  dsimp only
  cases hp : v.pending with
  | true =>
    have hids : (s.setView n { v with pending := false }).ids.Nodup := by rw [ids_setView]; exact hs
    exact tell?_of_settled hids (view?_setView_self hv) hset
  | false =>
    have hself : ({ v with pending := false } : View) = v := by rw [← hp]
    rw [hself, setView_eq_self hs hv]
    rfl

theorem tell?_of_awake (hv : s.view? n = some v) (hb : v.isBusy = false) :
    tell? (fuel + 1) s (.view n) =
      (react (publish? fuel) s n v).bind fun t => settle? fuel t n := by
  rw [tell?, hv]
  simp only [hb, Bool.false_eq_true, if_false]
  rfl

theorem setView_setView {x : View} : (s.setView n x).setView n w = s.setView n w :=
  setView_alterView

theorem quiet_setView (hv : s.view? n = some v) (hw : w.isBusy = false → w.Settled s.query)
    (hwrites : w.writes = v.writes) : s.Quiet (· = n) (s.setView n w) where
  query := rfl
  writes := writesOf_setView hv hwrites
  settled := fun m x hx hxb hm => by
    by_cases hmn : m = n
    · subst hmn
      rw [view?_setView_self hv, Option.some.injEq] at hx
      subst hx
      exact hw hxb
    · rw [view?_setView_of_ne hmn] at hx
      obtain ⟨y, hy, hset⟩ := hm.resolve_left hmn
      rw [hx, Option.some.injEq] at hy
      exact hy ▸ hset

/-- Marking a change at a view that is writing. -/
theorem spread_mark (hs : s.Ready) (hv : s.view? n = some v) (hb : v.isBusy = true) (p : Bool) :
    s.Spread (s.setView n { v with pending := p }) where
  ids := ids_setView
  listeners := rfl
  observers := rfl
  nextId := rfl
  busy := fun m x hx _ => by
    by_cases hm : m = n
    · subst hm
      rw [hv, Option.some.injEq] at hx
      exact ⟨p, hx ▸ view?_setView_self hv⟩
    · exact ⟨x.pending, (view?_setView_of_ne hm).trans hx⟩
  atRest := fun m x hx hxb => by
    have hm : m ≠ n := by
      rintro rfl
      rw [hv, Option.some.injEq] at hx
      rw [← hx, hb] at hxb
      cases hxb
    exact ⟨x, (view?_setView_of_ne hm).trans hx, hs.atRest m x hx hxb⟩
  mono := fun m => (writesOf_setView (w := { v with pending := p }) hv rfl m).ge
  balance := by
    have hsame := writesOf_setView (w := { v with pending := p }) hv rfl
    rw [viewWrites_congr ids_setView hsame]
    rfl

/-! ### Everybody told -/

theorem ReadyBut.writing (h : s.ReadyBut n) (hv : s.view? n = some w) (patch : Patch) :
    ((s.setView n v.writing).written patch).Ready := by
  have hother {m : Nat} {x : View} (hx : (s.setView n v.writing).view? m = some x)
      (hb : x.isBusy = false) : m ≠ n ∧ s.view? m = some x := by
    have hm : m ≠ n := by
      rintro rfl
      rw [view?_setView_self hv, Option.some.injEq] at hx
      rw [← hx, v.isBusy_writing] at hb
      cases hb
    exact ⟨hm, by rwa [view?_setView_of_ne hm] at hx⟩
  refine ⟨?_, fun m x hx hb => ?_, fun m x hx hb => ?_, h.views⟩
  · exact (ids_setView (s := s)).symm ▸ h.nodup
  · exact h.atRest m x (hother hx hb).1 (hother hx hb).2 hb
  · exact h.listening m x (hother hx hb).1 (hother hx hb).2 hb

theorem AwakeIn.writing (h : s.AwakeIn A) (hv : s.view? n = some w) (patch : Patch) :
    ((s.setView n v.writing).written patch).AwakeIn (A.erase n) := by
  intro m x hx hb
  have hm : m ≠ n := by
    rintro rfl
    rw [show ((s.setView m v.writing).written patch).view? m = some v.writing from
      view?_setView_self hv, Option.some.injEq] at hx
    rw [← hx, v.isBusy_writing] at hb
    cases hb
  have hx' : s.view? m = some x := (view?_setView_of_ne hm).symm.trans hx
  exact Finset.mem_erase.2 ⟨hm, h m x hx' hb⟩

/-- A view that was marked while writing, and has seen the text since, ends up without the mark. -/
theorem settle?_setView {x : View} (hs : s.ids.Nodup) (hv : s.view? n = some x)
    (hset : ({ w with pending := false } : View).Settled s.query) :
    settle? (fuel + 1) (s.setView n w) n = some (s.setView n { w with pending := false }) := by
  rw [settle?_of_seen (by rw [ids_setView]; exact hs) (view?_setView_self hv) hset, setView_setView]

/-- A view whose write has returned, and has committed its output, has nothing left to answer. -/
theorem settle?_committed {patch : Patch} (hs : s.ids.Nodup) (hv : s.view? n = some v)
    (hspread : ((s.setView n w.writing).written patch).Spread t) {x : View}
    (hx : x.sync = w.sync.commit w.sync.output.content t.query) :
    settle? (fuel + 1) (t.setView n x) n = some (t.setView n { x with pending := false }) := by
  have hids : t.ids.Nodup := by
    rw [hspread.ids]
    exact (ids_setView (s := s)).symm ▸ hs
  obtain ⟨y, hy⟩ : ∃ y, t.view? n = some y := by
    refine mem_ids_iff.1 ?_
    rw [hspread.ids]
    exact (ids_setView (s := s)).symm ▸ mem_ids_iff.2 ⟨v, hv⟩
  refine settle?_setView hids hy ⟨⟨?_, rfl, ?_⟩, ?_⟩
  · exact congrArg Synchronizer.phase hx
  · change x.sync.committed = some x.sync.output.content
    rw [hx]
    rfl
  · exact congrArg Synchronizer.snapshot hx

/-- **Step.** If nested changes are served, so is a change that a view is told of. -/
theorem tell?_step (hpub : Serves (A.erase n) (publish? fuel)) (hs : s.Ready) (hA : s.AwakeIn A)
    (hfuel : A.card < fuel + 1) (hv : s.view? n = some v) (hb : v.isBusy = false) :
    ∃ t, tell? (fuel + 1) s (.view n) = some t ∧ s.Spread t ∧ (s.Quiet (· = n) t ∨ s.Loud t) := by
  have hrest : v.AtRest := hs.atRest n v hv hb
  by_cases hseen : v.sync.snapshot = some s.query
  · have hset : v.Settled s.query := ⟨hrest, hseen⟩
    have hquiet := quiet_setView (w := v) hv (fun _ => hset) rfl
    rw [setView_eq_self hs.nodup hv] at hquiet
    exact ⟨s, tell?_of_settled hs.nodup hv hset, .refl hs, .inl hquiet⟩
  -- the view has not seen the text: it notes it, and makes a turn if its store has changed
  rw [tell?_of_awake hv hb]
  rcases Synchronizer.inbound_of_unseen hrest.idle hseen with hin | ⟨store, hin⟩
  · let w : View := { v with sync := { v.sync with snapshot := some s.query } }
    have hset : w.Settled s.query := ⟨⟨hrest.idle, hrest.answered, hrest.committed⟩, rfl⟩
    have hturned : Turned s n s w := .still (writesOf_eq hv).symm
    refine ⟨s.setView n w, ?_, hturned.spread hv hb (hs.but n) hset.toAtRest,
      .inl (quiet_setView hv (fun _ => hset) rfl)⟩
    rw [react, hin]
    change settle? fuel (s.setView n w) n = _
    rw [settle?, view?_setView_self hv]
    simp [hset.answered]
  · obtain ⟨t, w, e, hcarry, hturned, hset⟩ :=
      carry_spec (publish? fuel) (v := { v with sync := { v.sync with
        store := store, snapshot := some s.query } }) hs.nodup hv rfl hrest.idle
        (Synchronizer.outbound_fits _ s.query) (fun _ => rfl)
        (fun patch => hpub _ ((hs.but n).writing hv patch) (hA.writing hv patch))
    obtain ⟨x, hx⟩ := hturned.mem hv
    have hids : t.ids.Nodup := hturned.ids ▸ hs.nodup
    have hcard : 0 < A.card := Finset.card_pos.2 ⟨n, hA n v hv hb⟩
    obtain ⟨k, rfl⟩ : ∃ k, fuel = k + 1 := ⟨fuel - 1, by omega⟩
    let w' : View := { w with lastExternal := some e, pending := false }
    have hset' : w'.Settled t.query := ⟨⟨hset.idle, rfl, hset.committed⟩, hset.seen⟩
    have hturned' : Turned s n t w' := hturned.congr rfl
    refine ⟨t.setView n w', ?_, hturned'.spread hv hb (hs.but n) hset'.toAtRest, ?_⟩
    · rw [react, hin]
      change ((carry (publish? (k + 1)) s n _ _).bind _).bind _ = _
      rw [hcarry]
      change settle? (k + 1) ((t.setView n w).alterView n _) n = _
      rw [alterView_setView]
      exact settle?_setView hids hx hset'
    · cases hturned' with
      | still h => exact .inl (quiet_setView hv (fun _ => hset') (h.trans (writesOf_eq hv)))
      | wrote hb' hbw hw hp =>
        have hloud := Turned.wrote hb' hbw hw hp
        refine .inr ⟨fun hcalm => hseen (hcalm n v hv hb).seen, ?_, fun m => hloud.writesOf_le hv⟩
        exact Calm.setView (fun m v _ => hp.calm m v) hx hset'

/-- The same for a view that is writing, which only marks the change. -/
theorem tell?_busy (hs : s.Ready) (hv : s.view? n = some v) (hb : v.isBusy = true) :
    ∃ t, tell? (fuel + 1) s (.view n) = some t ∧ s.Spread t ∧ (s.Quiet (· = n) t ∨ s.Loud t) := by
  refine ⟨s.setView n { v with pending := true }, ?_, spread_mark hs hv hb true,
    .inl (quiet_setView hv (fun h => ?_) rfl)⟩
  · rw [tell?, hv]
    simp [hb]
  · exact absurd hb (by rw [show v.isBusy = false from h]; simp)

/-- **Run.** After a loud answer nobody has anything to say, so telling several views in turn is
quiet or loud as telling one is. -/
theorem foldlM_tells {tell : Session → Listener → Option Session} (htell : Tells A tell)
    (ls : List Listener) (hls : ∀ l ∈ ls, ∃ n, l = .view n) (hs : s.Ready) (hA : s.AwakeIn A) :
    ∃ t, ls.foldlM tell s = some t ∧ s.Spread t ∧
      (s.Quiet (fun n => .view n ∈ ls) t ∨ s.Loud t) := by
  induction ls generalizing s with
  | nil =>
    refine ⟨s, rfl, .refl hs, .inl ⟨rfl, fun _ => rfl, fun n w hw _ h => ?_⟩⟩
    obtain ⟨v, hv, hset⟩ := h.resolve_left List.not_mem_nil
    rw [hw, Option.some.injEq] at hv
    exact hv ▸ hset
  | cons l ls ih =>
    obtain ⟨n, rfl⟩ := hls l List.mem_cons_self
    obtain ⟨s', htell', hspread, hfirst⟩ := htell s n hs hA
    obtain ⟨t, hrest, hspread', hlater⟩ :=
      ih (fun l hl => hls l (List.mem_cons_of_mem _ hl)) (hspread.ready hs) (hspread.awakeIn hA)
    refine ⟨t, ?_, hspread.trans hspread', ?_⟩
    · rw [List.foldlM_cons, htell']
      exact hrest
    rcases hfirst with hq | hl
    · -- what was settled before the first view was told is settled after it
      have hkeep {m : Nat} {w v : View} (hw : s'.view? m = some w) (hb : w.isBusy = false)
          (hv : s.view? m = some v) (hset : v.Settled s.query) : w.Settled s'.query :=
        hq.settled m w hw hb (.inr ⟨v, hv, hset⟩)
      rcases hlater with hq' | hl'
      · refine .inl ⟨hq'.query.trans hq.query, fun m => (hq'.writes m).trans (hq.writes m),
          fun m w hw hb hm => hq'.settled m w hw hb ?_⟩
        obtain ⟨x, hx, hxb, -⟩ := hspread'.before hw hb
        rcases hm with hheard | ⟨v, hv, hset⟩
        · rcases List.mem_cons.1 hheard with he | hlater
          · cases he
            exact .inr ⟨x, hx, hq.settled _ x hx hxb (.inl rfl)⟩
          · exact .inl hlater
        · exact .inr ⟨x, hx, hkeep hx hxb hv hset⟩
      · refine .inr ⟨fun hc => hl'.unsettled fun m w hw hb => ?_, hl'.calm,
          fun m => hq.writes m ▸ hl'.writes m⟩
        obtain ⟨v, hv, hvb, -⟩ := hspread.before hw hb
        exact hkeep hw hb hv (hc m v hv hvb)
    · -- after a loud answer everybody is settled, so the later ones are quiet
      rcases hlater with hq' | hl'
      · refine .inr ⟨hl.unsettled, fun m w hw hb => ?_, fun m => hq'.writes m ▸ hl.writes m⟩
        obtain ⟨v, hv, hvb, -⟩ := hspread'.before hw hb
        exact hq'.settled m w hw hb (.inr ⟨v, hv, hl.calm m v hv hvb⟩)
      · exact absurd hl.calm hl'.unsettled

theorem Tells.serves (h : Tells A (tell? fuel)) : Serves A (publish? fuel) := by
  intro s hs hA
  obtain ⟨t, ht, hspread, hout⟩ := foldlM_tells h s.listeners hs.views hs hA
  refine ⟨t, ht, hspread, ?_, fun n => ?_⟩
  · rcases hout with hq | hl
    · intro n w hw hb
      obtain ⟨v, hv, hvb, -⟩ := hspread.before hw hb
      exact hq.settled n w hw hb (.inl (hs.listening n v hv hvb))
    · exact hl.calm
  · rcases hout with hq | hl
    · rw [hq.writes n]; omega
    · exact hl.writes n

/-- **A fuel above the number of the views that are not writing suffices,** for one view and for
all. -/
theorem tells_tell? (h : A.card < fuel) : Tells A (tell? fuel) := by
  induction fuel generalizing A with
  | zero => omega
  | succ fuel ih =>
    intro s n hs hA
    cases hv : s.view? n with
    | none =>
      refine ⟨s, by rw [tell?, hv], .refl hs, .inl ⟨rfl, fun _ => rfl, fun m w hw _ hm => ?_⟩⟩
      rcases hm with rfl | ⟨v, hv', hset⟩
      · rw [hv] at hw; cases hw
      · rw [hw, Option.some.injEq] at hv'
        exact hv' ▸ hset
    | some v =>
      cases hb : v.isBusy with
      | true => exact tell?_busy hs hv hb
      | false =>
        have hn : n ∈ A := hA n v hv hb
        have hcard : (A.erase n).card < fuel := by
          have := Finset.card_pos.2 ⟨n, hn⟩
          rw [Finset.card_erase_of_mem hn]; omega
        exact tell?_step (ih hcard).serves hs hA h hv hb

theorem serves_publish? (h : A.card < fuel) : Serves A (publish? fuel) := (tells_tell? h).serves

end Session

end TableFilter
