import TableFilter.Proofs.Session.Run
import TableFilter.Proofs.Synchronizer.Ownership

/-!
# Cascades as derivations

What telling views of a change comes to, step by step and without a bound on the nesting, together
with the answers that they report on the way (`Session.Told`):

* a view that is writing marks the change;
* any other view answers. Where it need not write, only the view itself changes (`View.still?`);
* where it writes, the others are told of that while it is busy, and afterwards it has seen whatever
  the navigation shows then (`View.finished`).

Every cascade of a session that is ready for one is such a derivation (`told_publish?`), and there
is no other (`Told.unique`). What is true of all cascades is proved by induction on derivations.
-/

namespace TableFilter

/-- A view that has answered a change without writing, with the outcome if it reports one. -/
def View.still? (v : View) (query : String) : Option (View × Option Emission) :=
  match v.sync.inbound query with
  | (sync, none) => some ({ v with sync := sync }, none)
  | (sync, some .unchanged) =>
    some ({ v with sync := sync, lastExternal := some .unchanged }, some .unchanged)
  | (sync, some (.adopt content)) =>
    some ({ v with sync := sync.commit content query, lastExternal := some .adopted },
      some .adopted)
  | (_, some (.write ..)) => none

/-- A view whose write has returned, when the navigation reads `query`. -/
def View.finished (v : View) (content : Patch.Content) (query : String) : View :=
  { v with sync := v.sync.commit content query, pending := false, writes := v.writes + 1 }

/-- The answer of a view to a change: what it reports, and the session before and after. -/
structure Answer where
  view : Nat
  before : Session
  outcome : Emission
  after : Session

namespace Session

/-- Listeners told of a change one after the other, with the answers that are reported. -/
inductive Told : Session → List Listener → List Answer → Session → Prop
  | nil (s : Session) : Told s [] [] s
  | absent {s t : Session} {n : Nat} {ls : List Listener} {as : List Answer} :
      s.view? n = none → Told s ls as t → Told s (.view n :: ls) as t
  | busy {s t : Session} {n : Nat} {v : View} {ls : List Listener} {as : List Answer} :
      s.view? n = some v → v.isBusy = true → Told (s.setView n { v with pending := true }) ls as t →
      Told s (.view n :: ls) as t
  | still {s t : Session} {n : Nat} {v w : View} {e : Option Emission} {ls : List Listener}
      {as : List Answer} :
      s.view? n = some v → v.isBusy = false → v.still? s.query = some (w, e) →
      Told (s.setView n w) ls as t →
      Told s (.view n :: ls) ((e.toList.map fun e => ⟨n, s, e, s.setView n w⟩) ++ as) t
  | wrote {s t u : Session} {n : Nat} {v w : View} {sync : Synchronizer} {patch : Patch}
      {content : Patch.Content} {ls : List Listener} {inner as : List Answer} :
      s.view? n = some v → v.isBusy = false →
      v.sync.inbound s.query = (sync, some (.write patch content)) →
      Told ((s.setView n { v with sync := sync }.writing).written patch) s.listeners inner u →
      { ({ v with sync := sync } : View).finished content u.query with
        lastExternal := some .written } = w →
      Told (u.setView n w) ls as t →
      Told s (.view n :: ls) (inner ++ ⟨n, s, .written, u.setView n w⟩ :: as) t

variable {s t u : Session} {n m fuel : Nat} {v w : View} {A : Finset Nat} {sync : Synchronizer}
  {patch : Patch} {content : Patch.Content} {ls : List Listener} {as bs : List Answer}

/-! ### What a derivation begins with -/

theorem Told.of_nil (h : Told s [] as t) : as = [] ∧ t = s := by
  cases h
  exact ⟨rfl, rfl⟩

theorem Told.of_absent (h : Told s (.view n :: ls) as t) (hv : s.view? n = none) :
    Told s ls as t := by
  cases h with
  | absent _ h => exact h
  | busy hv' | still hv' | wrote hv' => rw [hv] at hv'; cases hv'

theorem Told.of_busy (h : Told s (.view n :: ls) as t) (hv : s.view? n = some v)
    (hb : v.isBusy = true) : Told (s.setView n { v with pending := true }) ls as t := by
  cases h with
  | absent hv' => rw [hv] at hv'; cases hv'
  | busy hv' _ h => rw [hv] at hv'; cases hv'; exact h
  | still hv' hb' | wrote hv' hb' => rw [hv] at hv'; cases hv'; rw [hb] at hb'; cases hb'

theorem Told.of_still {e : Option Emission} (h : Told s (.view n :: ls) as t)
    (hv : s.view? n = some v) (hb : v.isBusy = false) (hw : v.still? s.query = some (w, e)) :
    ∃ bs, as = (e.toList.map fun e => ⟨n, s, e, s.setView n w⟩) ++ bs ∧
      Told (s.setView n w) ls bs t := by
  cases h with
  | absent hv' => rw [hv] at hv'; cases hv'
  | busy hv' hb' => rw [hv] at hv'; cases hv'; rw [hb] at hb'; cases hb'
  | still hv' _ hw' h =>
    rw [hv] at hv'
    cases hv'
    rw [hw] at hw'
    cases hw'
    exact ⟨_, rfl, h⟩
  | wrote hv' _ hin =>
    rw [hv] at hv'
    cases hv'
    rw [View.still?, hin] at hw
    cases hw

theorem Told.of_wrote (h : Told s (.view n :: ls) as t) (hv : s.view? n = some v)
    (hb : v.isBusy = false) (hin : v.sync.inbound s.query = (sync, some (.write patch content))) :
    ∃ u w inner bs, as = inner ++ ⟨n, s, .written, u.setView n w⟩ :: bs ∧
      Told ((s.setView n { v with sync := sync }.writing).written patch) s.listeners inner u ∧
      { ({ v with sync := sync } : View).finished content u.query with
        lastExternal := some .written } = w ∧
      Told (u.setView n w) ls bs t := by
  cases h with
  | absent hv' => rw [hv] at hv'; cases hv'
  | busy hv' hb' => rw [hv] at hv'; cases hv'; rw [hb] at hb'; cases hb'
  | still hv' _ hw =>
    rw [hv] at hv'
    cases hv'
    rw [View.still?, hin] at hw
    cases hw
  | wrote hv' _ hin' hinner hw h =>
    rw [hv] at hv'
    cases hv'
    rw [hin] at hin'
    cases hin'
    exact ⟨_, _, _, _, rfl, hinner, hw, h⟩

/-- **A derivation is determined by where it starts.** -/
theorem Told.unique (h : Told s ls as t) (k : Told s ls bs u) : as = bs ∧ t = u := by
  induction h generalizing bs u with
  | nil => cases k; exact ⟨rfl, rfl⟩
  | absent hv _ ih => exact ih (k.of_absent hv)
  | busy hv hb _ ih => exact ih (k.of_busy hv hb)
  | still hv hb hw _ ih =>
    obtain ⟨cs, rfl, hlater⟩ := k.of_still hv hb hw
    obtain ⟨rfl, rfl⟩ := ih hlater
    exact ⟨rfl, rfl⟩
  | wrote hv hb hin _ hw _ ih₁ ih₂ =>
    obtain ⟨r, x, inner, cs, rfl, hinner, hx, hlater⟩ := k.of_wrote hv hb hin
    obtain ⟨rfl, rfl⟩ := ih₁ hinner
    subst hw hx
    obtain ⟨rfl, rfl⟩ := ih₂ hlater
    exact ⟨rfl, rfl⟩

/-! ### Cascades are derivations -/

/-- A view that does not answer without writing writes. -/
theorem still?_eq_none {query : String} (h : v.still? query = none) :
    ∃ sync patch content, v.sync.inbound query = (sync, some (.write patch content)) := by
  unfold View.still? at h
  split at h
  · cases h
  · cases h
  · cases h
  · next sync patch content hin => exact ⟨sync, patch, content, hin⟩

theorem pending_still? {query : String} {e : Option Emission} (h : v.still? query = some (w, e)) :
    w.pending = v.pending := by
  unfold View.still? at h
  split at h <;> cases h <;> rfl

theorem react_of_still {publish : Session → Option Session} {e : Option Emission}
    (h : v.still? s.query = some (w, e)) : react publish s n v = some (s.setView n w) := by
  unfold View.still? at h
  rw [react]
  split at h
  · next sync hin => cases h; rw [hin]
  · next sync hin =>
    cases h
    rw [hin]
    exact congrArg some alterView_setView
  · next sync content hin =>
    cases h
    rw [hin]
    exact congrArg some alterView_setView
  · cases h

theorem tell?_of_still {e : Option Emission} (hv : s.view? n = some v) (hrest : v.AtRest)
    (h : v.still? s.query = some (w, e)) : tell? (fuel + 1) s (.view n) = some (s.setView n w) := by
  rw [tell?_of_awake hv hrest.isBusy_eq_false, react_of_still h, Option.bind_some, settle?,
    view?_setView_self hv]
  simp [pending_still? h, hrest.answered]

theorem tell?_of_wrote (hs : s.ids.Nodup) (hv : s.view? n = some v) (hrest : v.AtRest)
    (hin : v.sync.inbound s.query = (sync, some (.write patch content)))
    (hpub : publish? (fuel + 1) ((s.setView n { v with sync := sync }.writing).written patch) =
      some u)
    (hspread : ((s.setView n { v with sync := sync }.writing).written patch).Spread u) :
    tell? (fuel + 1 + 1) s (.view n) = some (u.setView n
      { ({ v with sync := sync } : View).finished content u.query with
        lastExternal := some .written }) := by
  obtain ⟨p, hcarry⟩ := carry_write (c := content) hs hv hpub hspread
  obtain rfl : content = sync.output.content := Synchronizer.inbound_fits hin
  rw [tell?_of_awake hv hrest.isBusy_eq_false, react, hin]
  change ((carry (publish? (fuel + 1)) s n _ _).bind _).bind _ = _
  rw [hcarry]
  change settle? (fuel + 1) ((u.setView n _).alterView n _) n = _
  rw [alterView_setView]
  exact settle?_committed hs hv hspread rfl

/-- Telling one view goes on as derivations do. -/
def Derives (A : Finset Nat) (tell : Session → Listener → Option Session) : Prop :=
  ∀ s n t, Ready s → AwakeIn A s → tell s (.view n) = some t →
    ∀ ls as u, Told t ls as u → ∃ bs, Told s (.view n :: ls) bs u

theorem told_foldlM {tell : Session → Listener → Option Session} (htell : Tells A tell)
    (hder : Derives A tell) (hls : ∀ l ∈ ls, ∃ n, l = .view n) (hs : s.Ready) (hA : s.AwakeIn A)
    (ht : ls.foldlM tell s = some t) : ∃ as, Told s ls as t := by
  induction ls generalizing s with
  | nil => cases ht; exact ⟨[], .nil _⟩
  | cons l ls ih =>
    obtain ⟨n, rfl⟩ := hls l List.mem_cons_self
    obtain ⟨r, hr, hspread, -⟩ := htell s n hs hA
    rw [List.foldlM_cons, hr] at ht
    obtain ⟨as, h⟩ := ih (fun l hl => hls l (List.mem_cons_of_mem _ hl)) (hspread.ready hs)
      (hspread.awakeIn hA) ht
    exact hder s n r hs hA hr ls as t h

/-- **With a fuel above the number of the views that are not writing, telling a view is a step of a
derivation.** -/
theorem derives_tell? (h : A.card < fuel) : Derives A (tell? fuel) := by
  induction fuel generalizing A with
  | zero => omega
  | succ fuel ih =>
    intro s n t hs hA ht ls as u hrest
    cases hv : s.view? n with
    | none =>
      rw [tell?, hv] at ht
      cases ht
      exact ⟨as, .absent hv hrest⟩
    | some v =>
      cases hb : v.isBusy with
      | true =>
        rw [tell?, hv] at ht
        simp only [hb, if_true, Option.some.injEq] at ht
        subst ht
        exact ⟨as, .busy hv hb hrest⟩
      | false =>
        have hatRest := hs.atRest n v hv hb
        cases hstill : v.still? s.query with
        | some r =>
          obtain ⟨w, e⟩ := r
          rw [tell?_of_still hv hatRest hstill, Option.some.injEq] at ht
          subst ht
          exact ⟨_, .still hv hb hstill hrest⟩
        | none =>
          obtain ⟨sync, patch, content, hin⟩ := still?_eq_none hstill
          have hn : n ∈ A := hA n v hv hb
          have hcard : (A.erase n).card < fuel := by
            have := Finset.card_pos.2 ⟨n, hn⟩
            rw [Finset.card_erase_of_mem hn]
            omega
          have hready := (hs.but n).writing (v := { v with sync := sync }) hv patch
          have hawake := hA.writing (v := { v with sync := sync }) hv patch
          obtain ⟨r, hr, hpublished⟩ := serves_publish? hcard _ hready hawake
          obtain ⟨inner, hinner⟩ :=
            told_foldlM (tells_tell? hcard) (ih hcard) hready.views hready hawake hr
          obtain ⟨k, rfl⟩ : ∃ k, fuel = k + 1 := ⟨fuel - 1, by omega⟩
          rw [tell?_of_wrote hs.nodup hv hatRest hin hr hpublished.spread, Option.some.injEq] at ht
          subst ht
          exact ⟨_, .wrote hv hb hin hinner rfl hrest⟩

/-- **Every cascade is a derivation.** -/
theorem told_publish? (h : A.card < fuel) (hs : s.Ready) (hA : s.AwakeIn A)
    (ht : publish? fuel s = some t) : ∃ as, Told s s.listeners as t :=
  told_foldlM (tells_tell? h) (derives_tell? h) hs.views hs hA ht

end Session

end TableFilter
