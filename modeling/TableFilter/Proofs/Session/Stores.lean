import TableFilter.Proofs.Session.Frame
import TableFilter.Proofs.Session.Steps

/-!
# The stores of a session

The stores of the views change by their operations only, whoever sets them off: the requests in a
view, its hydration, and what it reads of a change of the navigation. So what the operations of a
store keep holds of every store after any run (`stores_after_runs`).
-/

namespace TableFilter

namespace Synchronizer

variable {P : Store → Prop} {s : Synchronizer} {query : String}

theorem kept_inbound (hP : Store.Kept P) (h : P s.store) (query : String) :
    P (s.inbound query).1.store := by
  unfold inbound
  split
  · exact h
  split
  · exact h
  · exact kept_reconcile hP h (Params.parse query)

theorem kept_filled (hP : Store.Kept P) (h : P s.store) (query : String) :
    P (s.filled query).store :=
  hP.replace s.store _ h

theorem kept_hydrate (hP : Store.Kept P) (h : P s.store) (saved : Option SavedFilter)
    (query : String) : P (s.hydrate saved query).1.store := by
  unfold hydrate
  split
  · exact h
  cases saved with
  | none => exact kept_filled hP h query
  | some f => exact kept_filled hP h f.params

end Synchronizer

theorem Request.kept {P : Store → Prop} (hP : Store.Kept P) (r : Request) {sync : Synchronizer}
    (h : P sync.store) (query : String) : P (r.step sync query).1.store := by
  cases r with
  | add field operator value => exact hP.add h field operator value
  | update id operator value => exact hP.update sync.store id operator value h
  | remove id => exact hP.remove sync.store id h
  | setJoin join => exact hP.setJoin sync.store join h
  | reset => exact hP.replace sync.store _ h
  | load saved => exact Synchronizer.kept_filled hP h saved.params

theorem View.store_still? {v w : View} {query : String} {e : Option Emission}
    (h : v.still? query = some (w, e)) : w.sync.store = (v.sync.inbound query).1.store := by
  unfold still? at h
  split at h
  · next hin => cases h; rw [hin]
  · next hin => cases h; rw [hin]
  · next hin => cases h; rw [hin]; rfl
  · cases h

namespace Session

/-- The property holds of the stores of all views. -/
def Stores (P : Store → Prop) (s : Session) : Prop := ∀ n v, s.view? n = some v → P v.sync.store

variable {P : Store → Prop} {s t : Session} {n : Nat} {v w x : View} {e : Emission} {turn : Turn}
  {ls : List Listener} {as : List Answer}

theorem Stores.setView (h : s.Stores P) (hw : P w.sync.store) : (s.setView n w).Stores P := by
  intro m x hx
  rcases view?_setView_cases hx with ⟨-, rfl⟩ | ⟨-, hx⟩
  · exact hw
  · exact h m x hx

/-- A cascade keeps what the operations keep. -/
theorem Told.stores (h : Told s ls as t) (hP : Store.Kept P) (hs : s.Stores P) : t.Stores P := by
  induction h with
  | nil => exact hs
  | absent _ _ ih => exact ih hs
  | @busy s t n v _ _ hv _ _ ih => exact ih (hs.setView (hs n v hv))
  | @still s t n v w e ls as hv hb hw _ ih =>
    refine ih (hs.setView ?_)
    rw [View.store_still? hw]
    exact Synchronizer.kept_inbound hP (hs n v hv) s.query
  | @wrote s t u n v w sync patch content ls inner as hv hb hin _ hw _ ih₁ ih₂ =>
    have hsync : P sync.store := by
      have := Synchronizer.kept_inbound hP (hs n v hv) s.query
      rwa [hin] at this
    subst hw
    have hwriting : (s.setView n { v with sync := sync }.writing).Stores P := hs.setView hsync
    exact ih₂ ((ih₁ hwriting).setView hsync)

theorem Stepped.stores (h : Stepped s n x turn as t e) (hP : Store.Kept P) (hs : s.Stores P)
    (hx : P x.sync.store) : t.Stores P := by
  cases h with
  | unchanged => exact hs.setView hx
  | adopted content => exact hs.setView hx
  | written htold =>
    have hwriting : (s.setView n x.writing).Stores P := hs.setView hx
    exact (htold.stores hP hwriting).setView hx

theorem AtRest.stores_enlist (hs : s.AtRest) (hP : Store.Kept P) (h : s.Stores P) (name : String)
    (table : Table) : (s.enlist name table).Stores P := by
  intro m w hw
  rw [view?_enlist hs] at hw
  split at hw
  · cases hw
    exact hP.empty table.fields
  · exact h m w hw

/-- **Step.** Every operation on a session keeps what the operations on stores keep. -/
theorem AtRest.stores_run (hs : s.AtRest) (hP : Store.Kept P) (h : s.Stores P) (op : Operation) :
    (s.run op).Stores P := by
  have hhost (nav : CountedHistory) :
      ({ s with navigation := nav } : Session).publish.Stores P := by
    obtain ⟨as, htold⟩ := hs.told_publish nav
    exact htold.stores hP h
  cases op with
  | mount name table saved =>
    obtain ⟨as, t, e, hrun, -, hstepped⟩ := hs.stepped_mount name table saved
    rw [hrun]
    refine hstepped.stores hP (hs.stores_enlist hP h name table) ?_
    exact Synchronizer.kept_hydrate (s := (View.ofTable name table).sync) hP
      (hP.empty table.fields) saved s.query
  | unmount n => exact fun m w hw => h m w (view?_of_dismiss hs hw)
  | request n r =>
    cases hv : s.view? n with
    | none => rw [run, hv]; exact h
    | some v =>
      obtain ⟨as, t, e, hrun, -, hstepped⟩ := hs.stepped_request hv r
      rw [hrun]
      exact hstepped.stores hP h (r.kept hP (h n v hv) s.query)
  | navigate query => exact hhost _
  | back =>
    rw [run, back_eq]
    cases s.navigation.history.back? with
    | none => exact h
    | some history => exact hhost _
  | forward =>
    rw [run, forward_eq]
    cases s.navigation.history.forward? with
    | none => exact h
    | some history => exact hhost _
  | write patch => exact hhost _

/-- **What the operations of a store keep holds of every store,** after any operations on a new
navigation. -/
theorem stores_after_runs (hP : Store.Kept P) (query : String) (ops : List Operation) :
    ((start query).runs ops).Stores P := by
  have hruns {s : Session} (hs : s.AtRest) (h : s.Stores P) : (s.runs ops).Stores P := by
    induction ops generalizing s with
    | nil => exact h
    | cons op ops ih =>
      obtain ⟨t, ht, hc⟩ := perform?_atRest hs op
      exact ih (run_eq_of_perform? ht ▸ hc.atRest) (hs.stores_run hP h op)
  exact hruns (atRest_start query) fun n v hv => by cases hv

end Session

end TableFilter
