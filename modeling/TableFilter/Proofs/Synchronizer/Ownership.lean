import TableFilter.Proofs.Query.Content
import TableFilter.Proofs.Synchronizer.Following

/-!
# What a synchronizer owns

The key and the fields of a synchronizer are those of its table and never change
(`Synchronizer.scope`), whatever the store goes through. With them its parameters stay the same, and
its output speaks of no others: parameters that are not its own are left alone by what it writes
(`Synchronizer.value_apply_output`), and what other parameters show is of no account to whether its
output is shown (`Synchronizer.shows_output_congr`).

A turn presents the output (`Turn.Presents`) when it adopts only what shows the output already and
otherwise writes the output and nothing else. Every turn does but those for saved filters.
-/

namespace TableFilter

namespace Synchronizer

variable {s u : Synchronizer}

/-- What makes out the parameters of a synchronizer: its key and its fields. -/
def scope (s : Synchronizer) : String × Registry := (s.key, s.store.registry)

theorem ownKeys_congr (h : s.scope = u.scope) : s.ownKeys = u.ownKeys := by
  rw [scope, scope, Prod.mk.injEq] at h
  rw [ownKeys, ownKeys, h.1, h.2]

theorem scope_inbound {query : String} {turn : Option Turn}
    (h : s.inbound query = (u, turn)) : u.scope = s.scope := by
  have hscope : (s.inbound query).1.scope = s.scope := by
    unfold inbound
    split
    · rfl
    split
    · rfl
    · exact congrArg (Prod.mk s.key) (registry_reconcile s.store (Params.parse query))
  rwa [h] at hscope

theorem scope_filled (s : Synchronizer) (query : String) : (s.filled query).scope = s.scope :=
  congrArg (Prod.mk s.key) (Store.registry_replace s.store _)

theorem scope_hydrate (s : Synchronizer) (saved : Option SavedFilter) (query : String) :
    (s.hydrate saved query).1.scope = s.scope := by
  unfold hydrate
  split
  · rfl
  cases saved with
  | none => exact scope_filled s query
  | some f => exact scope_filled s f.params

end Synchronizer

/-! ### What an output speaks of -/

namespace Synchronizer

variable {s : Synchronizer} {k : String}

theorem get?_foldl_set_of_notMem {params : List (String × String)} (h : k ∉ params.map (·.2))
    (f : String → String) (base : Patch) :
    (params.foldl (fun p e => p.set e.2 (f e.1)) base).get? k = base.get? k := by
  induction params generalizing base with
  | nil => rfl
  | cons e rest ih =>
    rw [List.map_cons, List.mem_cons, not_or] at h
    rw [List.foldl_cons, ih h.2, Patch.get?_set, if_neg h.1]

/-- An output says nothing of parameters that are not the table's own. -/
theorem get?_output_of_notMem (h : k ∉ s.ownKeys) : s.output.get? k = none := by
  rw [ownKeys, List.mem_cons, not_or] at h
  refine (get?_foldl_set_of_notMem h.2 (paramText s.store) _).trans ?_
  rw [Patch.get?_set, if_neg h.1]
  rfl

/-- **What a table writes leaves the parameters of others alone.** -/
theorem value_apply_output (h : k ∉ s.ownKeys) (p : Params) :
    (p.apply s.output).value k = p.value k := by
  rw [Params.value_apply (nodup_output s), get?_output_of_notMem h]
  rfl

/-- **Whether an output is shown is a matter of the table's own parameters.** -/
theorem shows_output_congr {p q : Params} (h : ∀ k ∈ s.ownKeys, p.value k = q.value k) :
    p.shows s.output = q.shows s.output := by
  have hown {k v : String} (hk : s.output.get? k = some v) : p.value k = q.value k := by
    refine h k (Decidable.byContradiction fun hnot => ?_)
    rw [get?_output_of_notMem hnot] at hk
    cases hk
  rw [Bool.eq_iff_iff, Params.shows_iff (nodup_output s), Params.shows_iff (nodup_output s)]
  constructor
  · exact fun hp k v hk => (hown hk).symm.trans (hp k v hk)
  · exact fun hq k v hk => (hown hk).trans (hq k v hk)

end Synchronizer

/-! ### Turns that present the output -/

/-- The turn adopts only what shows the output, and writes the output only. -/
structure Turn.Presents (s : Synchronizer) (query : String) (t : Turn) : Prop where
  adopt : ∀ content, t = .adopt content → (Params.parse query).shows s.output = true
  write : ∀ patch content, t = .write patch content → patch = s.output

namespace Synchronizer

variable {s u : Synchronizer} {query : String} {t : Turn}

theorem presents_turn (s : Synchronizer) (query : String) (content : Patch.Content) :
    (turn query s.output content).Presents s query := by
  unfold turn
  split
  · next h => exact ⟨fun _ _ => h, fun _ _ he => (by cases he)⟩
  · exact ⟨fun _ he => (by cases he), fun _ _ he => (by cases he; rfl)⟩

theorem outbound_presents (s : Synchronizer) (query : String) :
    (s.outbound query).Presents s query := by
  unfold outbound
  dsimp only
  split
  · exact ⟨fun _ he => (by cases he), fun _ _ he => (by cases he)⟩
  · exact presents_turn s query _

theorem reset_presents (s : Synchronizer) (query : String) :
    (s.reset query).2.Presents (s.reset query).1 query := by
  have hpatch := output_of_filters_nil (s := { s with store := s.store.clear.2 })
    (filters_clear s.store)
  unfold reset
  dsimp only
  rw [← hpatch]
  exact presents_turn _ query _

/-- The turn of an answer is an outbound step, made after the text has been noted. -/
theorem inbound_eq_some (h : s.inbound query = (u, some t)) :
    t = u.outbound query ∧ u.phase = .idle ∧ u.committed = s.committed := by
  unfold inbound at h
  split at h
  · cases h
  next hidle =>
    split at h
    · cases h
    · dsimp only at h
      rw [Prod.mk.injEq] at h
      obtain ⟨rfl, h⟩ := h
      split at h
      · cases h
        exact ⟨rfl, Decidable.not_not.1 hidle, rfl⟩
      · cases h

theorem inbound_fits (h : s.inbound query = (u, some t)) : t.Fits u := by
  rw [(inbound_eq_some h).1]
  exact outbound_fits u query

theorem inbound_presents (h : s.inbound query = (u, some t)) : t.Presents u query := by
  rw [(inbound_eq_some h).1]
  exact outbound_presents u query

end Synchronizer

end TableFilter
