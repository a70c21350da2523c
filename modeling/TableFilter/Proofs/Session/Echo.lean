import TableFilter.Proofs.Session.Steps

/-!
# What a view takes for its own echo

A view that writes is told of its own change, and of those that others make while it is writing,
when the write has returned. By then it has noted the text that the navigation shows after all of
them, so it takes each for its own echo: its store is the one that the request has made, whatever
the others have written (`Session.store_request`). So it reflects what another view has written
under a parameter only by chance: if that is written as it is read, only where it is what the view
would write itself (`Session.reflects_request_iff`).
-/

namespace TableFilter

/-- The store has the value that a parameter's text stands for: no filter on the field if the text
is empty, and otherwise a first one with the value that is read from it. -/
def Store.Reflects (s : Store) (field raw : String) : Prop :=
  (s.find? field).map (·.condition.value) =
    if raw.isEmpty then none
    else (s.registry.get? field).map fun config => .ofParam config.variant raw

instance (s : Store) (field raw : String) : Decidable (s.Reflects field raw) :=
  inferInstanceAs (Decidable (_ = _))

/-- A store that reflects a text which is written as it is read would write that text. -/
theorem Store.Reflects.paramText {s : Store} {field raw : String} {config : FieldConfig}
    (h : s.Reflects field raw) (hconfig : s.registry.get? field = some config)
    (hraw : (Value.ofParam config.variant raw).toParam = raw) :
    Synchronizer.paramText s field = raw := by
  unfold Reflects at h
  rw [hconfig] at h
  rw [Synchronizer.paramText]
  by_cases hempty : raw.isEmpty = true
  · rw [if_pos hempty, Option.map_eq_none_iff] at h
    rw [h]
    exact (by simpa using hempty : raw = "").symm
  · rw [if_neg hempty, Option.map_some] at h
    obtain ⟨f, hf, hvalue⟩ := Option.map_eq_some_iff.1 h
    rw [hf]
    exact (congrArg Value.toParam hvalue).trans hraw

namespace Session

variable {s t : Session} {n : Nat} {v x : View} {e : Emission} {turn : Turn} {as : List Answer}

/-- A step leaves its view the store that it was decided on with, and nothing is left to answer. -/
theorem Stepped.store (h : Stepped s n x turn as t e) (hs : s.ReadyBut n)
    (hv : s.view? n = some v) :
    ∃ w, t.view? n = some w ∧ w.sync.store = x.sync.store := by
  cases h with
  | unchanged => exact ⟨x, view?_setView_self hv, rfl⟩
  | adopted content => exact ⟨_, view?_setView_self hv, rfl⟩
  | written htold =>
    obtain ⟨y, hy⟩ := htold.view?_writing (hs.rested_writing hv _) hv
    exact ⟨_, view?_setView_self hy, rfl⟩

/-- **A request leaves a view the store that it makes,** whatever others write meanwhile, and the
view has then seen the text that they leave. -/
theorem store_request (hs : s.AtRest) (hv : s.view? n = some v) (r : Request) :
    ∃ w, (s.run (.request n r)).view? n = some w ∧
      w.sync.store = (r.step v.sync s.query).1.store ∧
      w.sync.snapshot = some (s.run (.request n r)).query := by
  obtain ⟨as, t, e, hrun, -, hstepped⟩ := hs.stepped_request hv r
  obtain ⟨w, hw, hstore⟩ := hstepped.store (hs.ready.but n) hv
  obtain ⟨u, hu, hc⟩ := perform?_atRest hs (.request n r)
  obtain rfl : t = u := hrun.symm.trans (run_eq_of_perform? hu)
  rw [hrun]
  exact ⟨w, hw, hstore, (hc.atRest.settled n w hw).seen⟩

/-- **What others write while a view is writing does not reach its store.** After any operations on
a new navigation, a request in a view leaves a store that reflects the text of a parameter exactly
if the store reflected that text when the request had changed it, and then the text, if it is
written as it is read, is the one that the view writes itself. -/
theorem reflects_request_iff (query : String) (ops : List Operation) (r : Request)
    (hv : ((start query).runs ops).view? n = some v) {field : String} {config : FieldConfig}
    (hconfig : v.sync.store.registry.get? field = some config) (param : String) :
    let before := (start query).runs ops
    let after := before.run (.request n r)
    let changed := (r.step v.sync before.query).1.store
    let raw := after.params.value param
    ∃ w, after.view? n = some w ∧ w.sync.snapshot = some after.query ∧
      (w.sync.store.Reflects field raw ↔ changed.Reflects field raw) ∧
      (changed.Reflects field raw → (Value.ofParam config.variant raw).toParam = raw →
        Synchronizer.paramText changed field = raw) := by
  intro before after changed raw
  obtain ⟨w, hw, hstore, hseen⟩ :=
    store_request (atRest_runs (atRest_start query) ops) hv r
  have hregistry : changed.registry = v.sync.store.registry :=
    congrArg Prod.snd (r.scope_step v.sync before.query)
  exact ⟨w, hw, hseen, by rw [hstore], fun hreflects hraw =>
    hreflects.paramText (by rw [hregistry, hconfig]) hraw⟩

/-- The text of a note that is a list of tags without empty items means the same to a view that
takes the parameter for tags. -/
theorem reflects_request_iff_agreed :
    let field (variant : Variant) : FieldConfig :=
      { FieldConfig.plain "Label" variant with param := some "x" }
    let before := (start "").runs [.mount "a" ⟨"a", none, ⟨[("note", field .text)]⟩⟩ none,
      .mount "b" ⟨"b", none, ⟨[("tags", field .multiSelect)]⟩⟩ none]
    let after := before.run (.request 1 (.add "note" none (.text "p,q")))
    ∃ w, after.view? 1 = some w ∧ w.sync.snapshot = some after.query ∧
      w.sync.store.Reflects "note" (after.params.value "x") := by
  intro field before after
  obtain ⟨v, hv⟩ : ∃ v, before.view? 1 = some v := Option.isSome_iff_exists.1 (by decide +kernel)
  have hview : (before.view? 1).map (·.sync.store.registry.get? "note") =
      some (some (field .text)) := by decide +kernel
  have hchanged : (before.view? 1).map (fun v => decide (Store.Reflects
      (Request.step (.add "note" none (.text "p,q")) v.sync before.query).1.store "note"
        (after.params.value "x"))) = some true := by decide +kernel
  rw [hv, Option.map_some, Option.some.injEq] at hview hchanged
  obtain ⟨w, hw, hseen, hiff, -⟩ := reflects_request_iff "" _ _ hv hview "x"
  exact ⟨w, hw, hseen, hiff.2 (of_decide_eq_true hchanged)⟩

/-- A note with an empty item is written by one view and rewritten without the item by the other,
and the first never hears of it: its store still holds the item, though it would admit the text
without it. -/
theorem rewritten_note_unnoticed :
    let field (variant : Variant) : FieldConfig :=
      { FieldConfig.plain "Label" variant with param := some "x" }
    let before := (start "").runs [.mount "a" ⟨"a", none, ⟨[("note", field .text)]⟩⟩ none,
      .mount "b" ⟨"b", none, ⟨[("tags", field .multiSelect)]⟩⟩ none]
    let after := before.run (.request 1 (.add "note" none (.text "p,,q")))
    before.writesBetween after 2 = 1 ∧ after.params.value "x" = "p,q" ∧
      (after.view? 1).map (fun w => (w.pending, w.lastExternal)) = some (false, none) ∧
      (after.view? 1).map (fun w => (w.sync.store.find? "note").map (·.condition.value)) =
        some (some (.text "p,,q")) ∧
      (after.view? 1).map (fun w => decide (w.sync.store.Reflects "note" "p,q")) = some false ∧
      (after.view? 1).map (fun w => (w.sync.store.find? "note").map fun f =>
        (f.condition.updated w.sync.store.registry none (some (.ofParam .text "p,q"))).toBool) =
          some (some true) := by
  decide +kernel

end Session

end TableFilter
