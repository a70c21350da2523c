import TableFilter.Synchronizer

/-!
# What a turn commits

Every turn that a synchronizer decides on commits the content of the output that its store has then,
and a turn that does nothing is decided on only where that content is committed already
(`Turn.Fits`). So a synchronizer that has made its turn has its output committed, whatever the
operation was.
-/

namespace TableFilter

/-- The content that the turn leaves committed is the one of the output. -/
def Turn.Fits (s : Synchronizer) : Turn → Prop
  | .unchanged => s.committed = some s.output.content
  | .adopt content => content = s.output.content
  | .write _ content => content = s.output.content

namespace Synchronizer

variable {s : Synchronizer} {query : String}

theorem fits_turn (patch : Patch) : (turn query patch s.output.content).Fits s := by
  unfold turn
  split <;> exact rfl

theorem outbound_fits (s : Synchronizer) (query : String) : (s.outbound query).Fits s := by
  unfold outbound
  dsimp only
  split
  · next h => exact h
  · exact fits_turn _

theorem outbound_ne_unchanged (h : s.committed = none) : s.outbound query ≠ .unchanged := by
  unfold outbound turn
  dsimp only
  rw [h, if_neg (by simp)]
  split <;> simp

theorem turn_ne_unchanged (patch : Patch) (content : Patch.Content) :
    turn query patch content ≠ .unchanged := by
  unfold turn
  split <;> simp

/-! ### The output of the empty store -/

theorem text_nil (r : Registry) (join : Join) : (Conditions.mk [] join).text r = "" := rfl

theorem filters_clear (store : Store) : store.clear.2.filters = [] := by
  unfold Store.clear Store.replace
  dsimp only
  split <;> rfl

/-- **A table without filters shows the empty value for each of its keys.** -/
theorem output_of_filters_nil (h : s.store.filters = []) :
    s.output = Patch.ofList (s.ownKeys.map fun key => (key, "")) := by
  have htext : s.store.conditions.text s.store.registry = "" := by
    rw [Store.conditions, h]; exact text_nil _ _
  have hparam (field : String) : paramText s.store field = "" := by
    rw [paramText, Store.find?, h]; rfl
  rw [output, htext, ownKeys, Patch.ofList, List.map_cons, List.foldl_cons, List.map_map,
    List.foldl_map]
  simp only [hparam]
  rfl

theorem reset_fits (s : Synchronizer) (query : String) :
    (s.reset query).2.Fits (s.reset query).1 := by
  unfold reset
  dsimp only
  rw [← output_of_filters_nil (s := { s with store := s.store.clear.2 })]
  · exact fits_turn _
  · exact filters_clear s.store

/-! ### Hydration -/

/-- The synchronizer filled, for the first time or anew, from a navigation text. -/
def filled (s : Synchronizer) (query : String) : Synchronizer :=
  { s with hydrated := true }.populate (Params.parse query)

theorem committed_filled : (s.filled query).committed = s.committed := rfl

theorem load_fits (s : Synchronizer) (saved : SavedFilter) (query : String) :
    (s.load saved query).2.Fits (s.load saved query).1 := by
  unfold load
  dsimp only
  exact fits_turn (s := s.filled saved.params) _

theorem load_ne_unchanged (saved : SavedFilter) : (s.load saved query).2 ≠ .unchanged := by
  unfold load
  dsimp only
  exact turn_ne_unchanged _ _

theorem hydrate_saved (h : s.hydrated = false) (saved : SavedFilter) :
    s.hydrate (some saved) query = ((s.load saved query).1, some (s.load saved query).2) := by
  unfold hydrate
  rw [if_neg (by rw [h]; simp)]

theorem hydrate_ambient (h : s.hydrated = false) :
    s.hydrate none query = (s.filled query, some ((s.filled query).outbound query)) := by
  unfold hydrate filled
  rw [if_neg (by rw [h]; simp)]

theorem phase_hydrate (s : Synchronizer) (saved : Option SavedFilter) (query : String) :
    (s.hydrate saved query).1.phase = s.phase := by
  unfold hydrate
  split
  · rfl
  · cases saved <;> rfl

/-- The first hydration of a synchronizer that has committed nothing makes a turn, and not the one
that does nothing. -/
theorem hydrate_fits (h : s.hydrated = false) (hc : s.committed = none)
    (saved : Option SavedFilter) :
    ∃ t, (s.hydrate saved query).2 = some t ∧ t ≠ .unchanged ∧
      t.Fits (s.hydrate saved query).1 := by
  cases saved with
  | some f =>
    rw [hydrate_saved h]
    exact ⟨(s.load f query).2, rfl, load_ne_unchanged f, load_fits s f query⟩
  | none =>
    have hne : (s.filled query).outbound query ≠ .unchanged :=
      outbound_ne_unchanged (committed_filled.trans hc)
    rw [hydrate_ambient h]
    exact ⟨(s.filled query).outbound query, rfl, hne, outbound_fits (s.filled query) query⟩

/-! ### Inbound -/

theorem follow_eq_of_unchanged {store : Store} {field raw : String}
    (h : (follow store field raw).2 = false) : (follow store field raw).1 = store := by
  unfold follow at h ⊢
  split
  · next f hf =>
    rw [hf] at h
    dsimp only at h ⊢
    split
    · next he => rw [if_pos he] at h; cases h
    · next he =>
      rw [if_neg he] at h
      split
      · rfl
      · next config hc =>
        rw [hc] at h
        dsimp only at h ⊢
        split
        · rfl
        · next hv =>
          rw [if_neg hv] at h
          unfold Store.update at h ⊢
          grind
  · next hf =>
    rw [hf] at h
    dsimp only at h ⊢
    grind

theorem followAll_eq_of_unchanged {params : Params} {fields : List (String × String)}
    {store : Store} {changed : Bool} (h : (followAll params fields (store, changed)).2 = false) :
    changed = false ∧ (followAll params fields (store, changed)).1 = store := by
  induction fields generalizing store changed with
  | nil => exact ⟨h, rfl⟩
  | cons e rest ih =>
    obtain ⟨field, param⟩ := e
    obtain ⟨hc, hs⟩ := ih h
    rw [Bool.or_eq_false_iff] at hc
    exact ⟨hc.1, hs.trans (follow_eq_of_unchanged hc.2)⟩

theorem reconcile_eq_of_unchanged {store : Store} {params : Params}
    (h : (reconcile store params).2 = false) : (reconcile store params).1 = store :=
  (followAll_eq_of_unchanged h).2

theorem inbound_of_seen (h : s.snapshot = some query) : s.inbound query = (s, none) := by
  unfold inbound
  rw [if_pos h]
  split <;> rfl

/-- A synchronizer at rest notes the text that it hears of. It makes a turn if its store has
changed, and that turn is an outbound step. -/
theorem inbound_of_unseen (hp : s.phase = .idle) (h : s.snapshot ≠ some query) :
    (s.inbound query = ({ s with snapshot := some query }, none)) ∨
      ∃ store, s.inbound query = ({ s with store := store, snapshot := some query },
        some (outbound { s with store := store, snapshot := some query } query)) := by
  unfold inbound
  rw [if_neg (fun hne => hne hp), if_neg h]
  cases hc : (reconcile s.store (Params.parse query)).2 with
  | false =>
    left
    dsimp only
    rw [hc, reconcile_eq_of_unchanged hc]
    rfl
  | true =>
    right
    refine ⟨(reconcile s.store (Params.parse query)).1, ?_⟩
    dsimp only
    rw [hc]
    rfl

end Synchronizer

end TableFilter
