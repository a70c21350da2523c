import TableFilter.Proofs.Navigation.Watched
import TableFilter.Session.Operations

/-!
# The history of a session

The views of a session answer a change of the navigation by writing, and so do its observers unless
they are there to navigate (`Session.OnlyWrites`). Telling them is therefore a sequence of writes
(`Session.onlyWrites_watched`), by one lemma for each function of the cascade.

Whoever listens, as long as they only write, the history behaves as a zipper: one list and an index
lose no entry and bring none back (`Watched.simulates_zipper`).
-/

namespace TableFilter

namespace Session

/-- None of the observers navigates when it hears of a change. -/
def OnlyWrites (s : Session) : Prop :=
  ∀ e ∈ s.observers, ∀ query, e.2.action ≠ some (.navigate query)

/-- What listeners who only write make of a session. -/
structure Rewrote (s t : Session) : Prop where
  onlyWrites : t.OnlyWrites
  writes : ∃ patches : List Patch,
    t.navigation = patches.foldl CountedHistory.write s.navigation

variable {s t u : Session} {n fuel : Nat} {v : View} {e : Emission} {turn : Turn}

theorem rewrote_of_eq (hs : s.OnlyWrites) (hobservers : t.observers = s.observers)
    (hnavigation : t.navigation = s.navigation) : s.Rewrote t := by
  refine ⟨?_, [], hnavigation⟩
  unfold OnlyWrites
  rw [hobservers]
  exact hs

theorem rewrote_setView (hs : s.OnlyWrites) (n : Nat) (v : View) : s.Rewrote (s.setView n v) :=
  rewrote_of_eq hs rfl rfl

theorem rewrote_written (hs : s.OnlyWrites) (patch : Patch) : s.Rewrote (s.written patch) :=
  ⟨hs, [patch], rfl⟩

theorem Rewrote.trans (h : s.Rewrote t) (k : t.Rewrote u) : s.Rewrote u := by
  obtain ⟨ps, hps⟩ := h.writes
  obtain ⟨qs, hqs⟩ := k.writes
  exact ⟨k.onlyWrites, ps ++ qs, by rw [hqs, hps, List.foldl_append]⟩

/-! ### The functions of a cascade -/

theorem rewrote_foldlM {ls : List Listener} {tell : Session → Listener → Option Session}
    (htell : ∀ s l t, s.OnlyWrites → tell s l = some t → s.Rewrote t) (hs : s.OnlyWrites)
    (h : ls.foldlM tell s = some t) : s.Rewrote t := by
  induction ls generalizing s with
  | nil =>
    cases h
    exact rewrote_of_eq hs rfl rfl
  | cons l ls ih =>
    rw [List.foldlM_cons] at h
    obtain ⟨u, hu, hrest⟩ := Option.bind_eq_some_iff.1 h
    have hfirst := htell s l u hs hu
    exact hfirst.trans (ih hfirst.onlyWrites hrest)

section

variable {publish : Session → Option Session}
  (hpublish : ∀ s t, s.OnlyWrites → publish s = some t → s.Rewrote t)
include hpublish

theorem rewrote_carry (hs : s.OnlyWrites) (h : carry publish s n v turn = some (t, e)) :
    s.Rewrote t := by
  cases turn with
  | unchanged =>
    cases h
    exact rewrote_setView hs n v
  | adopt content =>
    cases h
    exact rewrote_setView hs n _
  | write patch content =>
    obtain ⟨u, hu, hrest⟩ := Option.bind_eq_some_iff.1 h
    cases hrest
    have hwritten (w : View) : s.Rewrote ((s.setView n w).written patch) :=
      (rewrote_setView hs n w).trans (rewrote_written (s := s.setView n w) hs patch)
    have htold := (hwritten _).trans (hpublish _ u hs hu)
    exact htold.trans (rewrote_of_eq htold.onlyWrites rfl rfl)

theorem rewrote_react (hs : s.OnlyWrites) (h : react publish s n v = some t) : s.Rewrote t := by
  unfold react at h
  split at h
  · cases h
    exact rewrote_setView hs n _
  · obtain ⟨⟨u, e⟩, hu, hrest⟩ := Option.bind_eq_some_iff.1 h
    cases hrest
    have hcarried := rewrote_carry hpublish hs hu
    exact hcarried.trans (rewrote_of_eq hcarried.onlyWrites rfl rfl)

theorem rewrote_act {a : Action} (hs : s.OnlyWrites) (ha : ∀ query, a ≠ .navigate query)
    (h : act publish s a = some t) : s.Rewrote t := by
  cases a with
  | write patch =>
    have hwritten := rewrote_written hs patch
    exact hwritten.trans (hpublish _ t hwritten.onlyWrites h)
  | navigate query => exact absurd rfl (ha query)
  | drop name =>
    cases h
    exact rewrote_of_eq hs rfl rfl
  | subscribe name =>
    cases h
    refine ⟨fun e he query => ?_, [], rfl⟩
    rcases List.mem_append.1 he with hold | hnew
    · exact hs e hold query
    · rw [List.mem_singleton.1 hnew]
      nofun

end

/-- An observer that is about to act has noted the change and spent a use. -/
theorem rewrote_spent (hs : s.OnlyWrites) (n uses : Nat) (log : List String) :
    s.Rewrote { s with
      log := log
      observers := alter n (fun o => { o with uses := uses }) s.observers } := by
  refine ⟨fun e he => ?_, [], rfl⟩
  obtain ⟨⟨m, o⟩, ho, rfl⟩ := List.mem_map.1 he
  dsimp only
  split <;> exact hs (m, o) ho

/-! ### Listeners -/

section

variable (htell : ∀ s l t, s.OnlyWrites → tell? fuel s l = some t → s.Rewrote t)
include htell

theorem rewrote_publish? (s t : Session) (hs : s.OnlyWrites) (h : publish? fuel s = some t) :
    s.Rewrote t := rewrote_foldlM htell hs h

/-- A view that is told reacts, and does so again if another change came while it was writing. -/
theorem rewrote_view (hs : s.OnlyWrites) (h : tell? (fuel + 1) s (.view n) = some t) :
    s.Rewrote t := by
  rw [tell?] at h
  split at h
  · cases h
    exact rewrote_of_eq hs rfl rfl
  split at h
  · cases h
    exact rewrote_setView hs n _
  obtain ⟨u, hu, hrest⟩ := Option.bind_eq_some_iff.1 h
  have hreacted := rewrote_react (rewrote_publish? htell) hs hu
  split at hrest
  · cases hrest
    exact hreacted
  split at hrest
  · have hmarked (w : View) : s.Rewrote (u.setView n w) :=
      hreacted.trans (rewrote_setView hreacted.onlyWrites n w)
    exact (hmarked _).trans (htell _ _ t hreacted.onlyWrites hrest)
  · cases hrest
    exact hreacted

/-- An observer that is told notes the change, and acts as long as it has uses left. -/
theorem rewrote_observer (hs : s.OnlyWrites) (h : tell? (fuel + 1) s (.observer n) = some t) :
    s.Rewrote t := by
  rw [tell?] at h
  split at h
  · cases h
    exact rewrote_of_eq hs rfl rfl
  next o ho =>
    dsimp only at h
    split at h
    · next a uses ha huses =>
      have haction (query : String) : a ≠ .navigate query := fun heq =>
        hs _ (Keyed.mem_of_lookup_eq_some ho) query (ha.trans (congrArg some heq))
      have hspent := rewrote_spent hs n uses (s.log ++ [o.name])
      exact hspent.trans (rewrote_act (rewrote_publish? htell) hspent.onlyWrites haction h)
    · cases h
      exact rewrote_of_eq hs rfl rfl

end

/-- **Telling a listener is a sequence of writes,** by induction on the nesting. -/
theorem rewrote_tell? (fuel : Nat) (s : Session) (l : Listener) (t : Session)
    (hs : s.OnlyWrites) (h : tell? fuel s l = some t) : s.Rewrote t := by
  induction fuel generalizing s l t with
  | zero => cases h
  | succ fuel ih =>
    cases l with
    | view n => exact rewrote_view ih hs h
    | observer n => exact rewrote_observer ih hs h

/-- **The listeners of a session only write,** if none of its observers navigates. -/
theorem onlyWrites_watched : watched.OnlyWrites OnlyWrites where
  exchange _ _ hs := hs
  tell s hs := by
    have htold : s.Rewrote s.publish := by
      unfold publish
      cases h : publish? s.bound s with
      | none => exact rewrote_of_eq hs rfl rfl
      | some t => exact rewrote_publish? (rewrote_tell? s.bound) s t hs h
    exact ⟨htold.onlyWrites, htold.writes⟩

end Session

/-! ### Zippers -/

/-- **A watched navigation behaves as a zipper,** whoever listens to it, as long as they only write.
After any moves, made from any state, the index is within the history, whose list is the zipper laid
out, and the moves with the answers to them are moves of the zipper. Whatever the next move is, it
is refused exactly if it is a step to an empty stack, and then the state is as it was and nobody has
been told. Otherwise it is made in the zipper and told, and what is written meanwhile is written to
the entry which is then the current one: those around it are as the move leaves them. -/
theorem Watched.simulates_zipper {σ : Type} {w : Watched σ} {P : σ → Prop} (h : w.OnlyWrites P)
    {s : σ} (hs : P s) (moves : List Move) :
    let answers := (w.run s moves).1
    let t := (w.run s moves).2
    let z := w.zipper t
    Zipper.Run (w.zipper s) moves answers z ∧
      (w.history t).index < (w.history t).entries.length ∧
      (w.history t).index = z.past.length ∧
      (w.history t).entries = z.past.reverse ++ z.current :: z.future ∧
      ∀ m, w.Made t m (w.make t m) ∧
        ((w.make t m).1 = false ↔ m = .back ∧ z.past = [] ∨ m = .forward ∧ z.future = []) ∧
        ∀ y, z.move? m = some y →
          (w.zipper (w.make t m).2).past = y.past ∧ (w.zipper (w.make t m).2).future = y.future := by
  intro answers t z
  obtain ⟨ht, hrun⟩ := h.zipperRun hs moves
  refine ⟨hrun, (w.history t).index_lt, (w.history t).length_past.symm, (w.history t).entries_eq,
    fun m => ?_⟩
  have hmade : w.Made t m (w.make t m) := (h.made ht m).2
  exact ⟨hmade, hmade.refused_iff.trans Zipper.move?_eq_none_iff, fun _ => hmade.around⟩

/-- A view that rewrites its tags and an observer that stamps what it hears of, both in the midst of
the moves: two steps back and a third that is refused, one forward, and a new entry instead of the
last one. -/
theorem Watched.simulates_zipper_stamped :
    let tags := { FieldConfig.plain "Tags" .multiSelect with param := some "tags" }
    let t : Table := ⟨"orders", none, ⟨[("tags", tags)]⟩⟩
    let stamp : Observer := ⟨"stamp", some (.write (Patch.empty.set "seen" "yes")), 2⟩
    let before := ((Session.start "page=1").attach "orders" t none).subscribe stamp
    let moves : List Move := [.navigate "?tags=p,,q", .navigate "tags=r", .back, .back, .back,
      .forward, .navigate "tags=s,,t", .forward]
    let after := (Session.watched.run before moves).2
    before.OnlyWrites ∧
      Zipper.Run ⟨[], "page=1", []⟩ moves [true, true, true, true, false, true, true, false]
        ⟨["tags=p%2Cq&seen=yes", "page=1"], "tags=s%2Ct", []⟩ ∧
      after.forward = (false, after) := by
  intro tags t stamp before moves after
  have hobservers : before.observers = [(2, stamp)] := by decide +kernel
  have honly : before.OnlyWrites := by
    unfold Session.OnlyWrites
    rw [hobservers, List.forall_mem_singleton]
    nofun
  have hanswers : (Session.watched.run before moves).1 =
      [true, true, true, true, false, true, true, false] := by decide +kernel
  have hstart : Session.watched.zipper before = ⟨[], "page=1", []⟩ := by decide +kernel
  have hend : Session.watched.zipper after =
      ⟨["tags=p%2Cq&seen=yes", "page=1"], "tags=s%2Ct", []⟩ := by decide +kernel
  obtain ⟨hrun, -, -, -, hnext⟩ := simulates_zipper Session.onlyWrites_watched honly moves
  rw [hstart, hanswers] at hrun
  obtain ⟨hmade, hrefused, -⟩ := hnext .forward
  exact ⟨honly, hend ▸ hrun, hmade.eq_self (hrefused.2 (.inr ⟨rfl, congrArg Zipper.future hend⟩))⟩

end TableFilter
