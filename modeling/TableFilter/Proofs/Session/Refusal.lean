import TableFilter.Proofs.Session.Steps
import TableFilter.Proofs.Store.Edits

/-!
# Refused requests

A request that is refused is followed by an outbound step all the same. Nothing comes of that step,
whatever the navigation shows: between operations every view has its output committed, and the
store that refuses is the store as it was.

* A store that refuses a filter, a change or a removal is left as it was (`Store.add_of_error`,
  `Store.update_of_error`, `Store.remove_of_error`), and a view refuses what its store refuses
  (`Session.refusal?_eq`).
* In a session at rest an outbound step of an unchanged synchronizer leaves the session
  (`AtRest.step?_outbound`), even where the navigation shows something else than the output. So a
  refused request leaves the session, with all its views and its navigation (`refused_request`).
-/

namespace TableFilter

/-! ### Stores -/

namespace Store

variable {s : Store} {e : FilterError}

theorem add_of_error {field : String} {operator : Option Operator} {value : Value}
    (h : (s.add field operator value).1 = .error e) : (s.add field operator value).2 = s :=
  edit_of_refused (e := .add field operator value) (congrArg (Reply.ofResult .added) h)

theorem update_of_error {id : Nat} {operator : Option Operator} {value : Option Value}
    (h : (s.update id operator value).1 = .error e) : (s.update id operator value).2 = s :=
  edit_of_refused (e := .update id operator value) (congrArg (Reply.ofResult .changed) h)

theorem remove_of_error {id : Nat} (h : (s.remove id).1 = .error e) : (s.remove id).2 = s :=
  edit_of_refused (e := .remove id) (congrArg (Reply.ofResult .removed) h)

end Store

/-! ### What is refused -/

/-- The error of a result, if it is one. -/
def failure? {ε α : Type} : Except ε α → Option ε
  | .ok _ => none
  | .error e => some e

theorem failure?_eq_some {ε α : Type} {x : Except ε α} {e : ε} :
    failure? x = some e ↔ x = .error e := by
  cases x <;> simp [failure?]

/-- The error with which a store refuses what a user asks for. -/
def Request.refusal? (store : Store) : Request → Option FilterError
  | .add field operator value => failure? (store.add field operator value).1
  | .update id operator value => failure? (store.update id operator value).1
  | .remove id => failure? (store.remove id).1
  | .setJoin _ | .reset | .load _ => none

/-- A request that the store refuses leaves the synchronizer as it was, with an outbound step. -/
theorem Request.step_of_refusal? {r : Request} {sync : Synchronizer} {e : FilterError}
    (h : r.refusal? sync.store = some e) (query : String) :
    r.step sync query = (sync, sync.outbound query) := by
  cases r with
  | add field operator value =>
    rw [step, Session.storing, Store.add_of_error (failure?_eq_some.1 h)]
  | update id operator value =>
    rw [step, Session.storing, Store.update_of_error (failure?_eq_some.1 h)]
  | remove id => rw [step, Session.storing, Store.remove_of_error (failure?_eq_some.1 h)]
  | setJoin | reset | load => cases h

namespace Session

variable {s : Session} {n : Nat} {v : View}

/-- The error that a user is told of who asks for something in a view. -/
def refusal? (s : Session) (n : Nat) (v : View) : Request → Option FilterError
  | .add field operator value => failure? (s.add n v field operator value).1
  | .update id operator value => failure? (s.update n v id operator value).1
  | .remove id => failure? (s.remove n v id).1
  | .setJoin _ | .reset | .load _ => none

/-- A view refuses what its store refuses, with the same error. -/
theorem refusal?_eq (s : Session) (n : Nat) (v : View) (r : Request) :
    s.refusal? n v r = r.refusal? v.sync.store := by
  cases r with
  | add field operator value =>
    rw [refusal?, Request.refusal?, add, change]
    obtain ⟨result, store⟩ := v.sync.store.add field operator value
    cases result <;> rfl
  | update id operator value =>
    rw [refusal?, Request.refusal?, update, change]
    obtain ⟨result, store⟩ := v.sync.store.update id operator value
    cases result <;> rfl
  | remove id =>
    rw [refusal?, Request.refusal?, remove, change]
    obtain ⟨result, store⟩ := v.sync.store.remove id
    cases result <;> rfl
  | setJoin | reset | load => rfl

/-! ### What a refusal leaves -/

/-- **An outbound step of an unchanged synchronizer at rest comes to nothing,** whatever the
navigation shows. -/
theorem AtRest.step?_outbound (hs : s.AtRest) (hv : s.view? n = some v)
    {f : Synchronizer → String → Synchronizer × Turn}
    (hf : f v.sync s.query = (v.sync, v.sync.outbound s.query)) :
    s.step? n f = some (s, .unchanged) := by
  have hset := hs.settled n v hv
  have hout : v.sync.outbound s.query = .unchanged := by
    rw [Synchronizer.outbound]
    exact if_pos hset.committed
  rw [hout] at hf
  have hsettled : settle? s.bound (s.setView n v) n = some (s.setView n v) :=
    settle?_of_answered hv hset.answered
  rw [step?_eq hv hf, carry, Option.bind_some, hsettled, setView_eq_self hs.nodup hv]
  rfl

/-- **A refused request leaves everything as it was.** After any operations on a new navigation, an
error that a filter, a change or a removal gives in a mounted view is the error of the view's store,
and the session is the same afterwards: every view with its filters, join and revision, with the
text it has seen and the output it has committed, and the navigation with its history and the number
of its writes. The outbound step that follows the refusal ends without a cascade, whether or not the
navigation shows the view's output. -/
theorem refused_request (query : String) (ops : List Operation)
    (hv : ((start query).runs ops).view? n = some v) {r : Request} {e : FilterError}
    (h : ((start query).runs ops).refusal? n v r = some e) :
    let s := (start query).runs ops
    r.refusal? v.sync.store = some e ∧ s.step? n r.step = some (s, .unchanged) ∧
      s.request n v r = s := by
  intro s
  have hrefused : r.refusal? v.sync.store = some e := (s.refusal?_eq n v r).symm.trans h
  have hs : s.AtRest := atRest_runs (atRest_start query) ops
  have hstep : s.step? n r.step = some (s, .unchanged) :=
    hs.step?_outbound hv (Request.step_of_refusal? hrefused s.query)
  refine ⟨hrefused, hstep, ?_⟩
  rw [request_eq hv, step_eq_of_step? hstep]

/-- The navigation shows a text that the only filter of a view has not taken over, and a value of
the wrong shape is refused there. -/
theorem refused_request_untaken_text :
    let label := { FieldConfig.plain "Label" .metadata with param := some "label" }
    let t : Table := ⟨"orders", none, ⟨[("label", label)]⟩⟩
    let s := (start "").runs [.mount "orders" t none,
      .request 1 (.add "label" none (.pair "tier" "gold")), .navigate "label=tier"]
    ∃ v, s.view? 1 = some v ∧ s.params.shows v.sync.output = false ∧
      v.sync.store.filters.map (·.condition.value) = [.pair "tier" "gold"] ∧
      (s.add 1 v "label" none (.text "tier")).1 = .error (.valueShape "label" .pair .text) ∧
      (s.add 1 v "label" none (.text "tier")).2 = s := by
  intro label t s
  obtain ⟨v, hv⟩ : ∃ v, s.view? 1 = some v := Option.isSome_iff_exists.1 (by decide +kernel)
  have hview : (s.view? 1).map (fun v => (s.params.shows v.sync.output,
      v.sync.store.filters.map (·.condition.value),
      s.refusal? 1 v (.add "label" none (.text "tier")))) =
        some (false, [.pair "tier" "gold"], some (.valueShape "label" .pair .text)) := by
    decide +kernel
  rw [hv, Option.map_some, Option.some.injEq, Prod.mk.injEq, Prod.mk.injEq] at hview
  obtain ⟨hshows, hvalues, hrefused⟩ := hview
  obtain ⟨-, -, hsame⟩ := refused_request "" _ hv hrefused
  exact ⟨v, hv, hshows, hvalues, failure?_eq_some.1 hrefused, hsame⟩

end Session

end TableFilter
