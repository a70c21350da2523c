import TableFilter.Proofs.Session.Echo
import TableFilter.Proofs.Session.Reports

/-!
# Loading a saved filter

The text of a saved filter is read twice: its parameters fill the store, where the first value of a
key counts, and its pairs are set in the navigation one after the other, where the last one counts
(`Params.last`).

* The patch of a load says the last value of each parameter of the table (`get?_loadedPatch`), and
  what a turn says of a parameter that no other view owns stands when it is over
  (`Stepped.value_of_turn`).
* So after a load, and after mounting with a saved filter, the navigation shows the last values
  while the store was filled from the first ones, and they agree just where the text does
  (`value_after_load`).
-/

namespace TableFilter

/-! ### The patch of a load -/

/-- The last value of a key, or the empty one. -/
def Params.last (p : Params) (key : String) : String := (p.pairs.reverse.lookup key).getD ""

namespace Patch

/-- Of keys that are cleared a patch says the empty value, and of others what it said before. -/
theorem get?_foldl_clear (keys : List String) (base : Patch) (k : String) :
    (keys.foldl (fun p key => p.set key "") base).get? k =
      if k ∈ keys then some "" else base.get? k := by
  induction keys generalizing base with
  | nil => rfl
  | cons key rest ih =>
    rw [List.foldl_cons, ih, get?_set]
    by_cases hrest : k ∈ rest
    · simp [hrest]
    · simp [hrest]

end Patch

namespace Params

variable {p : Params} {k : String}

/-- The first value of a key is the last one where the key always has the same value. -/
theorem last_eq_value (h : ∀ value, (k, value) ∈ p.pairs → value = p.value k) :
    p.last k = p.value k := by
  unfold last
  cases hlast : p.pairs.reverse.lookup k with
  | some value => exact h value (List.mem_reverse.1 (Keyed.mem_of_lookup_eq_some hlast))
  | none =>
    rw [value, get?, Keyed.lookup_reverse_eq_none_iff.1 hlast]

theorem last_of_not_contains (h : p.contains k = false) : p.last k = "" := by
  have hnone : p.pairs.lookup k = none := by
    rwa [contains, get?, Option.isSome_eq_false_iff, Option.isNone_iff_eq_none] at h
  rw [last, Keyed.lookup_reverse_eq_none_iff.2 hnone]
  rfl

theorem lookup_reverse_of_contains (h : p.contains k = true) :
    p.pairs.reverse.lookup k = some (p.last k) := by
  cases hlast : p.pairs.reverse.lookup k with
  | some value => rw [last, hlast, Option.getD_some]
  | none =>
    rw [contains, get?, Keyed.lookup_reverse_eq_none_iff.1 hlast] at h
    cases h

end Params

namespace Synchronizer

variable {s : Synchronizer} {k query : String}

/-- What a load says of the navigation: the saved pairs are set, and parameters of the table that
are not among them are cleared. -/
def loadedPatch (s : Synchronizer) (p : Params) : Patch :=
  (s.ownKeys.filter fun key => !p.contains key).foldl (fun p key => p.set key "")
    (Patch.ofList p.pairs)

/-- A load in terms of its patch. -/
theorem load_eq (s : Synchronizer) (saved : SavedFilter) (query : String) :
    s.load saved query =
      (s.filled saved.params, turn query ((s.filled saved.params).loadedPatch
        (Params.parse saved.params)) (s.filled saved.params).output.content) := rfl

theorem nodup_loadedPatch (s : Synchronizer) (p : Params) :
    ((s.loadedPatch p).entries.map (·.1)).Nodup :=
  Patch.nodup_foldl_set _ (fun key => (key, ""))
    (Patch.nodup_foldl_set p.pairs id List.nodup_nil)

/-- What the patch of a load says of any key. -/
theorem get?_loadedPatch_eq (s : Synchronizer) (p : Params) (k : String) :
    (s.loadedPatch p).get? k =
      if k ∈ s.ownKeys ∧ p.contains k = false then some "" else p.pairs.reverse.lookup k := by
  rw [loadedPatch, Patch.get?_foldl_clear, Patch.get?_ofList]
  refine if_congr ?_ rfl rfl
  rw [List.mem_filter, Bool.not_eq_true']

theorem get?_loadedPatch_of_contains (s : Synchronizer) {p : Params} (h : p.contains k = true) :
    (s.loadedPatch p).get? k = some (p.last k) := by
  rw [get?_loadedPatch_eq, if_neg (by simp [h])]
  exact Params.lookup_reverse_of_contains h

/-- **The patch of a load says the last value of each parameter of the table.** -/
theorem get?_loadedPatch (h : k ∈ s.ownKeys) (p : Params) :
    (s.loadedPatch p).get? k = some (p.last k) := by
  cases hcontains : p.contains k with
  | true => exact get?_loadedPatch_of_contains s hcontains
  | false =>
    rw [get?_loadedPatch_eq, if_pos ⟨h, hcontains⟩, Params.last_of_not_contains hcontains]

end Synchronizer

namespace Session

variable {s t : Session} {n : Nat} {v x : View} {e : Emission} {as : List Answer} {op : Operation}
  {sync : Synchronizer} {saved : SavedFilter} {k : String}

/-! ### What a turn says of a parameter -/

/-- **What a turn says of a parameter stands when the turn is over,** if no other view owns the
parameter. -/
theorem Stepped.value_of_turn {patch : Patch} {content : Patch.Content} {value : String}
    (h : Stepped s n x (Synchronizer.turn s.query patch content) as t e) (hs : s.ReadyBut n)
    (hv : s.view? n = some v) (hpatch : (patch.entries.map (·.1)).Nodup)
    (hk : patch.get? k = some value)
    (hothers : ∀ m w, m ≠ n → s.view? m = some w → k ∉ w.sync.ownKeys) :
    t.params.value k = value := by
  by_cases hshows : (Params.parse s.query).shows patch = true
  · rw [Synchronizer.turn, if_pos hshows] at h
    cases h with
    | adopted => exact (Params.shows_iff hpatch _).1 hshows k value hk
  · rw [Synchronizer.turn, if_neg hshows] at h
    cases h with
    | @written u _ _ _ htold =>
      have hunowned : ((s.setView n x.writing).written patch).Unowned k := by
        intro m w hw hb
        obtain ⟨hm, -⟩ := awake_of_writing ⟨w, hw, hb⟩
        exact hothers m w hm ((view?_setView_of_ne hm).symm.trans hw)
      calc u.params.value k = (s.params.apply patch).value k := by
            rw [htold.value_eq (hs.rested_writing hv patch) hunowned, params_written]
            rfl
        _ = value := by rw [Params.value_apply hpatch, hk]; rfl

/-! ### The operations that load -/

/-- The view that an operation fills from a saved filter, and its synchronizer before. -/
def filling? (s : Session) : Operation → Option (Nat × Synchronizer × SavedFilter)
  | .mount _ table (some saved) => some (s.nextId, .ofTable table, saved)
  | .request n (.load saved) => (s.view? n).map fun v => (n, v.sync, saved)
  | _ => none

theorem hydrating_saved (h : sync.hydrated = false) (query : String) :
    hydrating (some saved) sync query = sync.load saved query := by
  rw [hydrating, Synchronizer.hydrate_saved h]
  simp only [Option.getD_some]

/-- What an operation that loads comes to: one step of its view, in the session that the view is
staged in. -/
theorem AtRest.stepped_load (hs : s.AtRest) (h : s.filling? op = some (n, sync, saved)) :
    ∃ v as t e, (s.staged op).ReadyBut n ∧ (s.staged op).view? n = some v ∧
      Stepped (s.staged op) n { v with sync := (sync.load saved s.query).1 }
        (sync.load saved s.query).2 as t e ∧
      (s.run op).params = t.params ∧ (s.run op).view? n = t.view? n ∧
      (s.staged op).query = s.query ∧
      ∀ m, m ≠ n → (s.staged op).view? m = s.view? m := by
  cases op with
  | mount name table filter =>
    cases filter with
    | none => cases h
    | some f =>
      cases h
      obtain ⟨as, t, e, hrun, -, hstepped⟩ := hs.stepped_mount name table (some saved)
      have hself : (s.enlist name table).view? s.nextId = some (.ofTable name table) := by
        rw [view?_enlist hs, if_pos rfl]
      rw [hydrating_saved rfl] at hstepped
      rw [hrun]
      refine ⟨_, as, t, e, hs.enlist name table, hself, hstepped, rfl, rfl, rfl, fun m hm => ?_⟩
      exact (view?_enlist hs name table m).trans (if_neg hm)
  | request i r =>
    cases r with
    | load f =>
      obtain ⟨v, hv, heq⟩ := Option.map_eq_some_iff.1 h
      cases heq
      obtain ⟨as, t, e, hrun, -, hstepped⟩ := hs.stepped_request hv (.load saved)
      rw [hrun]
      exact ⟨v, as, t, e, hs.ready.but n, hv, hstepped, rfl, rfl, rfl, fun _ _ => rfl⟩
    | add | update | remove | setJoin | reset => cases h
  | unmount | navigate | back | forward | write => cases h

/-- **A load fills the store from the first values of the saved text and has the navigation show the
last ones.** After any operations on a new navigation this holds of each parameter of the view that
is filled, whether the filter is loaded in a mounted view or the view is mounted with it, if no
other view owns the parameter. So the navigation shows the value that the store was filled from exactly
where the first and the last value are the same, as they are for a key that the text gives once, or
always with the same value; the output is committed either way. -/
theorem value_after_load (query : String) (ops : List Operation)
    (h : ((start query).runs ops).filling? op = some (n, sync, saved)) (hk : k ∈ sync.ownKeys)
    (hothers : ∀ m w, m ≠ n → ((start query).runs ops).view? m = some w → k ∉ w.sync.ownKeys) :
    let after := ((start query).runs ops).run op
    let p := Params.parse saved.params
    ∃ w, after.view? n = some w ∧
      w.sync.store.conditions = Synchronizer.readConditions sync.store.registry sync.key p ∧
      w.sync.committed = some w.sync.output.content ∧ after.params.value k = p.last k ∧
      (after.params.value k = p.value k ↔ p.last k = p.value k) ∧
      ((∀ value, (k, value) ∈ p.pairs → value = p.value k) →
        after.params.value k = p.value k) := by
  intro after p
  have hs : ((start query).runs ops).AtRest := atRest_runs (atRest_start query) ops
  obtain ⟨v, as, t, e, hready, hv, hstepped, hparams, hview, hquery, hstaged⟩ := hs.stepped_load h
  obtain ⟨w, hw, hstore⟩ := hstepped.store hready hv
  have hwafter : after.view? n = some w := hview.trans hw
  have hvalue : after.params.value k = p.last k := by
    rw [show after.params = t.params from hparams]
    rw [Synchronizer.load_eq, ← hquery] at hstepped
    dsimp only at hstepped
    refine hstepped.value_of_turn hready hv (Synchronizer.nodup_loadedPatch _ _) ?_
      fun m x hm hx => hothers m x hm ((hstaged m hm).symm.trans hx)
    refine Synchronizer.get?_loadedPatch ?_ p
    rwa [Synchronizer.ownKeys_congr (sync.scope_filled saved.params)]
  obtain ⟨u, hu, hc⟩ := perform?_atRest hs op
  obtain rfl : after = u := run_eq_of_perform? hu
  refine ⟨w, hwafter, ?_, (hc.atRest.settled n w hwafter).committed, hvalue, by rw [hvalue],
    fun hsame => hvalue.trans (Params.last_eq_value hsame)⟩
  rw [hstore]
  exact Store.conditions_replace sync.store _

/-- A saved text that gives the owner once is shown as it was read. -/
theorem value_after_load_one_owner :
    let owner := { FieldConfig.plain "Owner" .text with param := some "owner" }
    let t : Table := ⟨"orders", none, ⟨[("owner", owner)]⟩⟩
    let before := (start "owner=eve").runs [.mount "orders" t none]
    let after := before.run (.request 1 (.load ⟨"mine", "owner=ann&page=2", "orders"⟩))
    t.IsAccepted ∧
      (∃ w, after.view? 1 = some w ∧ w.sync.store.conditions =
        Synchronizer.readConditions t.fields "orders" (Params.parse "owner=ann&page=2")) ∧
      after.params.value "owner" = "ann" := by
  intro owner t before after
  have ht : t.IsAccepted := ⟨by decide, by decide, by decide⟩
  obtain ⟨v, hv⟩ : ∃ v, before.view? 1 = some v := Option.isSome_iff_exists.1 (by decide +kernel)
  have hview : (before.view? 1).map (fun v => v.sync.scope) = some ("orders", t.fields) := by
    decide +kernel
  rw [hv, Option.map_some, Option.some.injEq, Synchronizer.scope, Prod.mk.injEq] at hview
  obtain ⟨hkey, hfields⟩ := hview
  have hids : before.ids = [1] := by decide +kernel
  have hothers (m : Nat) (w : View) (hm : m ≠ 1) (hw : before.view? m = some w) :
      "owner" ∉ w.sync.ownKeys := by
    have hmem : m ∈ before.ids := mem_ids_iff.2 ⟨w, hw⟩
    rw [hids, List.mem_singleton] at hmem
    exact absurd hmem hm
  have hfilling : before.filling? (.request 1 (.load ⟨"mine", "owner=ann&page=2", "orders"⟩)) =
      some (1, v.sync, ⟨"mine", "owner=ann&page=2", "orders"⟩) := by
    rw [filling?, hv]
    rfl
  have hk : "owner" ∈ v.sync.ownKeys := by
    rw [Synchronizer.ownKeys, hkey, hfields]
    decide
  obtain ⟨w, hw, hconditions, -, -, -, hshown⟩ :=
    value_after_load "owner=eve" _ hfilling hk hothers
  have hpairs : (Params.parse "owner=ann&page=2").pairs = [("owner", "ann"), ("page", "2")] := by
    decide +kernel
  rw [hkey, hfields] at hconditions
  refine ⟨ht, ⟨w, hw, hconditions⟩, ?_⟩
  rw [hshown ?_]
  · decide +kernel
  · rw [hpairs]
    simp [Params.value, Params.get?, hpairs]

/-- A saved text with two owners: the store is filled with the first one and the navigation shows
the second, while the output with the first one is committed. -/
theorem value_after_load_two_owners :
    let owner := { FieldConfig.plain "Owner" .text with param := some "owner" }
    let t : Table := ⟨"orders", none, ⟨[("owner", owner)]⟩⟩
    let saved : SavedFilter := ⟨"mine", "owner=ann&owner=bob", "orders"⟩
    let after := ((start "").runs [.mount "orders" t none]).run (.request 1 (.load saved))
    t.IsAccepted ∧ (Params.parse saved.params).value "owner" = "ann" ∧
      (after.view? 1).map (fun w => w.sync.store.filters.map (·.condition.value)) =
        some [.text "ann"] ∧
      after.query = "owner=bob" ∧ after.params.value "owner" = "bob" ∧
      (after.view? 1).map (fun w => (decide (w.sync.committed = some w.sync.output.content),
        after.params.shows w.sync.output)) = some (true, false) := by
  intro owner t saved after
  exact ⟨⟨by decide, by decide, by decide⟩, by decide +kernel⟩

end Session

end TableFilter
