import TableFilter.Proofs.Session.Told
import TableFilter.Proofs.Synchronizer.Settling

/-!
# What a cascade leaves alone

* Every view keeps the key and the fields of its table, and it is writing afterwards exactly if it
  was before (`Told.alike`).
* Views that are not writing come to rest again (`Told.rested`), and only they answer
  (`Told.awake`).
* A parameter keeps its value unless a view that is not writing owns it (`Told.value_eq`). So what a
  view has written stands when its write returns, if nobody else owns its parameters
  (`Told.shows_written`).
-/

namespace TableFilter

/-- What a cascade keeps of a view: whether it is writing, and what its table is. -/
def View.role (v : View) : Bool × String × Registry := (v.isBusy, v.sync.scope)

theorem View.role_eq_iff {v w : View} :
    v.role = w.role ↔ v.isBusy = w.isBusy ∧ v.sync.scope = w.sync.scope :=
  Prod.mk.injEq .. ▸ Iff.rfl

/-- No request changes what the parameters of a view are. -/
theorem Request.scope_step (r : Request) (sync : Synchronizer) (query : String) :
    (r.step sync query).1.scope = sync.scope := by
  cases r with
  | add field operator value =>
    exact congrArg (Prod.mk sync.key) (sync.store.registry_add field operator value)
  | update id operator value =>
    exact congrArg (Prod.mk sync.key) (sync.store.registry_update id operator value)
  | remove id => exact congrArg (Prod.mk sync.key) (sync.store.registry_remove id)
  | setJoin join => exact congrArg (Prod.mk sync.key) (sync.store.registry_setJoin join)
  | reset => exact congrArg (Prod.mk sync.key) sync.store.registry_clear
  | load saved => exact Synchronizer.scope_filled sync saved.params

namespace Session

/-- The parameters that the navigation shows. -/
def params (s : Session) : Params := s.navigation.history.params

/-- The views that are not writing rest. -/
def Rested (s : Session) : Prop := ∀ n v, s.view? n = some v → v.isBusy = false → v.AtRest

/-- No view that is not writing owns the parameter. -/
def Unowned (k : String) (s : Session) : Prop :=
  ∀ n v, s.view? n = some v → v.isBusy = false → k ∉ v.sync.ownKeys

/-- No parameter is owned by two views. -/
def Apart (s : Session) : Prop :=
  ∀ m n v w, m ≠ n → s.view? m = some v → s.view? n = some w →
    ∀ k ∈ v.sync.ownKeys, k ∉ w.sync.ownKeys

/-- Two sessions have the same views, as far as their roles go. -/
def Alike (s t : Session) : Prop := ∀ m, (t.view? m).map View.role = (s.view? m).map View.role

variable {s t u : Session} {n m : Nat} {v w x : View} {patch : Patch} {ls : List Listener}
  {as : List Answer} {k : String}

theorem params_written (s : Session) (patch : Patch) :
    (s.written patch).params = s.params.apply patch := s.navigation.history.params_write patch

theorem query_navigate (s : Session) (query : String) :
    (s.setHistory (s.navigation.history.navigate query)).query = withoutMark query :=
  s.navigation.history.current_navigate query

theorem params_navigate (s : Session) (query : String) :
    (s.setHistory (s.navigation.history.navigate query)).params =
      Params.parse (withoutMark query) :=
  congrArg Params.parse (query_navigate s query)

/-! ### Views of the same roles -/

theorem Alike.view? (h : s.Alike t) (hw : t.view? m = some w) :
    ∃ v, s.view? m = some v ∧ v.role = w.role := by
  have hm := h m
  rw [hw] at hm
  exact Option.map_eq_some_iff.1 hm.symm

theorem Alike.trans (h : s.Alike t) (k : t.Alike u) : s.Alike u := fun m => (k m).trans (h m)

theorem Alike.setView (h : s.Alike t) (hv : s.view? n = some v) (hw : w.role = v.role) :
    s.Alike (t.setView n w) := by
  intro m
  rw [Session.setView, view?_alterView]
  split
  · next hm =>
    subst hm
    have hn := h m
    rw [hv] at hn ⊢
    obtain ⟨x, hx, -⟩ := Option.map_eq_some_iff.1 hn
    rw [hx]
    exact congrArg some hw
  · exact h m

theorem alike_refl (s : Session) : s.Alike s := fun _ => rfl

theorem Alike.unowned (h : s.Alike t) (hk : s.Unowned k) : t.Unowned k := by
  intro m w hw hb
  obtain ⟨v, hv, hrole⟩ := h.view? hw
  obtain ⟨hbusy, hscope⟩ := View.role_eq_iff.1 hrole
  rw [← Synchronizer.ownKeys_congr hscope]
  exact hk m v hv (hbusy.trans hb)

theorem Alike.apart (h : s.Alike t) (ha : s.Apart) : t.Apart := by
  intro m n v w hmn hv hw
  obtain ⟨v', hv', hrole⟩ := h.view? hv
  obtain ⟨w', hw', hrole'⟩ := h.view? hw
  rw [← Synchronizer.ownKeys_congr (View.role_eq_iff.1 hrole).2,
    ← Synchronizer.ownKeys_congr (View.role_eq_iff.1 hrole').2]
  exact ha m n v' w' hmn hv' hw'

theorem Rested.setView (h : s.Rested) (hw : w.isBusy = false → w.AtRest) :
    (s.setView n w).Rested := by
  intro m x hx hb
  rcases view?_setView_cases hx with ⟨-, rfl⟩ | ⟨-, hx⟩
  · exact hw hb
  · exact h m x hx hb

/-! ### A view that begins to write -/

theorem Rested.writing (h : s.Rested) : ((s.setView n v.writing).written patch).Rested :=
  h.setView fun hb => absurd hb (by rw [v.isBusy_writing]; simp)

theorem Unowned.writing (h : s.Unowned k) : ((s.setView n v.writing).written patch).Unowned k := by
  intro m x hx hb
  have hset : (s.setView n v.writing).view? m = some x := hx
  rcases view?_setView_cases hset with ⟨-, rfl⟩ | ⟨-, hx⟩
  · rw [v.isBusy_writing] at hb
    cases hb
  · exact h m x hx hb

theorem Apart.setView (h : s.Apart) (hv : s.view? n = some v) (hw : w.sync.scope = v.sync.scope) :
    (s.setView n w).Apart := by
  -- Each view owns what the view of its number owned before.
  have hown {m : Nat} {x : View} (hx : (s.setView n w).view? m = some x) :
      ∃ y, s.view? m = some y ∧ y.sync.ownKeys = x.sync.ownKeys := by
    rcases view?_setView_cases hx with ⟨rfl, rfl⟩ | ⟨-, hx⟩
    · exact ⟨v, hv, (Synchronizer.ownKeys_congr hw).symm⟩
    · exact ⟨x, hx, rfl⟩
  intro m n x y hmn hx hy
  obtain ⟨x', hx', hxo⟩ := hown hx
  obtain ⟨y', hy', hyo⟩ := hown hy
  rw [← hxo, ← hyo]
  exact h m n x' y' hmn hx' hy'

/-- It is enough that no parameter is owned by two of the views in the order they stand in. -/
theorem apart_of_pairwise
    (h : s.views.Pairwise fun a b => ∀ k ∈ a.2.sync.ownKeys, k ∉ b.2.sync.ownKeys) : s.Apart := by
  have hsymm : Std.Symm fun a b : Nat × View => ∀ k ∈ a.2.sync.ownKeys, k ∉ b.2.sync.ownKeys :=
    ⟨fun _ _ hab k hb ha => hab k ha hb⟩
  intro m n v w hmn hv hw
  exact h.forall (Keyed.mem_of_lookup_eq_some hv) (Keyed.mem_of_lookup_eq_some hw)
    fun he => hmn (congrArg Prod.fst he)

/-- When a view has been told that its write is over, every role is what it was before the write. -/
theorem Alike.finished (h : ((s.setView n x.writing).written patch).Alike u)
    (hv : s.view? n = some v) (hw : w.role = v.role) : s.Alike (u.setView n w) := by
  intro m
  by_cases hm : m = n
  · subst hm
    have hself := h m
    rw [show ((s.setView m x.writing).written patch).view? m = some x.writing from
      view?_setView_self hv] at hself
    obtain ⟨y, hy, -⟩ := Option.map_eq_some_iff.1 hself
    rw [view?_setView_self hy, hv]
    exact congrArg some hw
  · have hother : (u.view? m).map View.role = ((s.setView n x.writing).view? m).map View.role := h m
    rw [view?_setView_of_ne hm, hother, view?_setView_of_ne hm]

/-! ### Answers -/

/-- What an answer without a write leaves of a view: it is at rest and has its role, and its output
is as it was unless it reports that the output is shown. -/
structure Stilled (v w : View) (query : String) (e : Option Emission) : Prop where
  atRest : w.AtRest
  role : w.role = v.role
  writes : w.writes = v.writes
  ne_written : e ≠ some .written
  shown : e = some .adopted → (Params.parse query).shows w.sync.output = true
  same : e ≠ some .adopted → w.sync.output.content = v.sync.output.content

section Stilled

variable {sync : Synchronizer} {query : String} {content : Patch.Content}

theorem stilled_of_none (hv : v.AtRest) (hin : v.sync.inbound query = (sync, none)) :
    Stilled v { v with sync := sync } query none := by
  by_cases hseen : v.sync.snapshot = some query
  · rw [Synchronizer.inbound_of_seen hseen] at hin
    cases hin
    exact ⟨hv, rfl, rfl, by simp, by simp, fun _ => rfl⟩
  · rcases Synchronizer.inbound_of_unseen hv.idle hseen with hnote | ⟨store, hnote⟩
    · rw [hnote] at hin
      cases hin
      exact ⟨⟨hv.idle, hv.answered, hv.committed⟩, rfl, rfl, by simp, by simp, fun _ => rfl⟩
    · rw [hnote] at hin
      cases hin

theorem stilled_of_unchanged (hv : v.AtRest)
    (hin : v.sync.inbound query = (sync, some .unchanged)) :
    Stilled v { v with sync := sync, lastExternal := some .unchanged } query
      (some .unchanged) := by
  obtain ⟨-, hidle, hcommitted⟩ := Synchronizer.inbound_eq_some hin
  have hfits : sync.committed = some sync.output.content := Synchronizer.inbound_fits hin
  -- What was committed before is the output now, and it was the output then.
  have hsame : sync.output.content = v.sync.output.content := by
    rw [hcommitted, hv.committed, Option.some.injEq] at hfits
    exact hfits.symm
  refine ⟨⟨hidle, hv.answered, hfits⟩,
    View.role_eq_iff.2 ⟨?_, Synchronizer.scope_inbound hin⟩, rfl, by simp, by simp, fun _ => hsame⟩
  simp [View.isBusy, hidle, hv.idle]

theorem stilled_of_adopt (hv : v.AtRest)
    (hin : v.sync.inbound query = (sync, some (.adopt content))) :
    Stilled v { v with sync := sync.commit content query, lastExternal := some .adopted } query
      (some .adopted) := by
  have hfits : content = sync.output.content := Synchronizer.inbound_fits hin
  have hshows := (Synchronizer.inbound_presents hin).adopt content rfl
  have hscope := Synchronizer.scope_inbound hin
  refine ⟨⟨rfl, hv.answered, congrArg some hfits⟩, View.role_eq_iff.2 ⟨?_, hscope⟩, rfl, by simp,
    fun _ => hshows, by simp⟩
  simp [View.isBusy, Synchronizer.commit, hv.idle]

/-- **Every answer without a write leaves the view still.** -/
theorem stilled {e : Option Emission} (hv : v.AtRest) (h : v.still? query = some (w, e)) :
    Stilled v w query e := by
  unfold View.still? at h
  split at h
  · next hin => cases h; exact stilled_of_none hv hin
  · next hin => cases h; exact stilled_of_unchanged hv hin
  · next hin => cases h; exact stilled_of_adopt hv hin
  · cases h

end Stilled

/-- An answer with a write writes the output and commits its content. -/
theorem inbound_write {sync : Synchronizer} {query : String} {content : Patch.Content}
    (h : v.sync.inbound query = (sync, some (.write patch content))) :
    patch = sync.output ∧ content = sync.output.content ∧ sync.scope = v.sync.scope :=
  ⟨(Synchronizer.inbound_presents h).write patch content rfl, Synchronizer.inbound_fits h,
    Synchronizer.scope_inbound h⟩

/-- A view whose write has returned rests, if it has committed its output. -/
theorem atRest_finished {content : Patch.Content} (h : content = v.sync.output.content)
    (query : String) : (v.finished content query).AtRest :=
  ⟨rfl, rfl, congrArg some h⟩

/-! ### Derivations -/

theorem rested_and_alike_busy (hs : s.Rested) (hv : s.view? n = some v) (hb : v.isBusy = true) :
    (s.setView n { v with pending := true }).Rested ∧
      s.Alike (s.setView n { v with pending := true }) := by
  have hmark : ({ v with pending := true } : View).role = v.role := rfl
  have hbusy : ({ v with pending := true } : View).isBusy = true := hb
  exact ⟨hs.setView fun h => absurd h (by rw [hbusy]; simp), (alike_refl s).setView hv hmark⟩

theorem rested_and_alike_still {e : Option Emission} (hs : s.Rested) (hv : s.view? n = some v)
    (hb : v.isBusy = false) (hw : v.still? s.query = some (w, e)) :
    (s.setView n w).Rested ∧ s.Alike (s.setView n w) := by
  have hstill := stilled (hs n v hv hb) hw
  exact ⟨hs.setView fun _ => hstill.atRest, (alike_refl s).setView hv hstill.role⟩

theorem rested_and_alike_wrote {sync : Synchronizer} {content : Patch.Content}
    (hv : s.view? n = some v) (hb : v.isBusy = false)
    (hin : v.sync.inbound s.query = (sync, some (.write patch content))) (hu : u.Rested)
    (hwriting : ((s.setView n { v with sync := sync }.writing).written patch).Alike u)
    (hw : { ({ v with sync := sync } : View).finished content u.query with
      lastExternal := some .written } = w) :
    (u.setView n w).Rested ∧ s.Alike (u.setView n w) := by
  obtain ⟨-, hcontent, hscope⟩ := inbound_write hin
  have hrest := atRest_finished (v := { v with sync := sync }) hcontent u.query
  subst hw
  refine ⟨hu.setView fun _ => ⟨hrest.idle, hrest.answered, hrest.committed⟩,
    hwriting.finished hv (View.role_eq_iff.2 ⟨?_, hscope⟩)⟩
  rw [hb]
  rfl

/-- **Views come to rest again, and keep their roles.** -/
theorem Told.rested_and_alike (h : Told s ls as t) (hs : s.Rested) : t.Rested ∧ s.Alike t := by
  induction h with
  | nil s => exact ⟨hs, alike_refl s⟩
  | absent _ _ ih => exact ih hs
  | busy hv hb _ ih =>
    obtain ⟨hrest, hlike⟩ := rested_and_alike_busy hs hv hb
    exact ⟨(ih hrest).1, hlike.trans (ih hrest).2⟩
  | still hv hb hw _ ih =>
    obtain ⟨hrest, hlike⟩ := rested_and_alike_still hs hv hb hw
    exact ⟨(ih hrest).1, hlike.trans (ih hrest).2⟩
  | wrote hv hb hin _ hw _ ih₁ ih₂ =>
    obtain ⟨hu, hwriting⟩ := ih₁ hs.writing
    obtain ⟨hrest, hlike⟩ := rested_and_alike_wrote hv hb hin hu hwriting hw
    exact ⟨(ih₂ hrest).1, hlike.trans (ih₂ hrest).2⟩

theorem Told.rested (h : Told s ls as t) (hs : s.Rested) : t.Rested := (h.rested_and_alike hs).1

theorem Told.alike (h : Told s ls as t) (hs : s.Rested) : s.Alike t := (h.rested_and_alike hs).2

/-- A view that was writing when a cascade began is there when it ends. -/
theorem Told.view?_writing (h : Told ((s.setView n x.writing).written patch) ls as u)
    (hs : ((s.setView n x.writing).written patch).Rested) (hv : s.view? n = some v) :
    ∃ y, u.view? n = some y := by
  obtain ⟨y, hy, -⟩ := Option.map_eq_some_iff.1 (((h.alike hs) n).trans
    (congrArg (Option.map View.role) (view?_setView_self hv)))
  exact ⟨y, hy⟩

theorem Alike.awake (h : s.Alike t) (ht : ∃ w, t.view? m = some w ∧ w.isBusy = false) :
    ∃ v, s.view? m = some v ∧ v.isBusy = false := by
  obtain ⟨w, hw, hb⟩ := ht
  obtain ⟨v, hv, hrole⟩ := h.view? hw
  exact ⟨v, hv, (View.role_eq_iff.1 hrole).1.trans hb⟩

/-- A view that has begun to write is not among those that are not writing. -/
theorem awake_of_writing (ht : ∃ w, ((s.setView n v.writing).written patch).view? m = some w ∧
    w.isBusy = false) : m ≠ n ∧ ∃ w, s.view? m = some w ∧ w.isBusy = false := by
  obtain ⟨w, hw, hb⟩ := ht
  have hset : (s.setView n v.writing).view? m = some w := hw
  rcases view?_setView_cases hset with ⟨-, rfl⟩ | ⟨hm, hw⟩
  · rw [v.isBusy_writing] at hb
    cases hb
  · exact ⟨hm, w, hw, hb⟩

/-- **Only views that are not writing answer.** -/
theorem Told.awake (h : Told s ls as t) (hs : s.Rested) {a : Answer} (ha : a ∈ as) :
    ∃ v, s.view? a.view = some v ∧ v.isBusy = false := by
  induction h with
  | nil => cases ha
  | absent _ _ ih => exact ih hs ha
  | busy hv hb _ ih =>
    obtain ⟨hrest, hlike⟩ := rested_and_alike_busy hs hv hb
    exact hlike.awake (ih hrest ha)
  | still hv hb hw _ ih =>
    obtain ⟨hrest, hlike⟩ := rested_and_alike_still hs hv hb hw
    rcases List.mem_append.1 ha with ha | ha
    · obtain ⟨e, -, rfl⟩ := List.mem_map.1 ha
      exact ⟨_, hv, hb⟩
    · exact hlike.awake (ih hrest ha)
  | wrote hv hb hin hinner hw _ ih₁ ih₂ =>
    obtain ⟨hu, hwriting⟩ := hinner.rested_and_alike hs.writing
    obtain ⟨hrest, hlike⟩ := rested_and_alike_wrote hv hb hin hu hwriting hw
    rcases List.mem_append.1 ha with ha | ha
    · exact (awake_of_writing (ih₁ hs.writing ha)).2
    rcases List.mem_cons.1 ha with rfl | ha
    · exact ⟨_, hv, hb⟩
    · exact hlike.awake (ih₂ hrest ha)

/-- **A parameter keeps its value, unless a view that is not writing owns it.** -/
theorem Told.value_eq (h : Told s ls as t) (hs : s.Rested) (hk : s.Unowned k) :
    t.params.value k = s.params.value k := by
  induction h with
  | nil => rfl
  | absent _ _ ih => exact ih hs hk
  | busy hv hb _ ih =>
    obtain ⟨hrest, hlike⟩ := rested_and_alike_busy hs hv hb
    exact ih hrest (hlike.unowned hk)
  | still hv hb hw _ ih =>
    obtain ⟨hrest, hlike⟩ := rested_and_alike_still hs hv hb hw
    exact ih hrest (hlike.unowned hk)
  | @wrote s t u n v w sync patch content ls inner as hv hb hin hinner hw _ ih₁ ih₂ =>
    obtain ⟨hu, hwriting⟩ := hinner.rested_and_alike hs.writing
    obtain ⟨hrest, hlike⟩ := rested_and_alike_wrote hv hb hin hu hwriting hw
    obtain ⟨rfl, -, hscope⟩ := inbound_write hin
    have hown : k ∉ sync.ownKeys := by
      rw [Synchronizer.ownKeys_congr hscope]
      exact hk n v hv hb
    calc t.params.value k = u.params.value k := ih₂ hrest (hlike.unowned hk)
      _ = (s.params.apply sync.output).value k := by
        rw [ih₁ hs.writing hk.writing, params_written]
        rfl
      _ = s.params.value k := Synchronizer.value_apply_output hown s.params

/-- **What a view has written stands when its write returns,** if no other view owns a parameter of
its own. -/
theorem Told.shows_written (h : Told ((s.setView n x.writing).written x.sync.output) ls as u)
    (hs : ((s.setView n x.writing).written x.sync.output).Rested) (ha : s.Apart)
    (hv : s.view? n = some v) (hx : x.sync.scope = v.sync.scope) :
    u.params.shows x.sync.output = true := by
  have hown {k : String} (hk : k ∈ x.sync.ownKeys) :
      ((s.setView n x.writing).written x.sync.output).Unowned k := by
    intro m y hy hb
    obtain ⟨hm, -⟩ := awake_of_writing ⟨y, hy, hb⟩
    have hy' : s.view? m = some y := (view?_setView_of_ne hm).symm.trans hy
    rw [Synchronizer.ownKeys_congr hx] at hk
    exact ha n m v y hm.symm hv hy' k hk
  rw [Synchronizer.shows_output_congr fun k hk => h.value_eq hs (hown hk), params_written]
  exact Params.shows_apply (Synchronizer.nodup_output x.sync) _

end Session

end TableFilter
