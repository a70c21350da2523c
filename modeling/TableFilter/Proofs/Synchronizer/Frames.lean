import TableFilter.Proofs.Query.Changes
import TableFilter.Proofs.Synchronizer.Ownership

/-!
# What a turn does to a navigation

A turn that presents the output leaves the navigation with the output shown, writing once at most
(`Synchronizer.perform_of_presents`). All it changes are pairs of the table's own parameters in the
current entry (`History.SameOutside`): an output is a patch that speaks of no others
(`Synchronizer.mem_ownKeys_of_mem_output`).

An outbound step may also do nothing, because the output was committed before. The output is shown
all the same as long as what is committed is shown (`Synchronizer.ShowsCommitted`), which outbound
steps keep up whatever the store goes through between them (`Synchronizer.perform_outbound`). So a
store that is exchanged after a hydration is shown, whatever the table was hydrated from
(`Synchronizer.exchange_fresh`).
-/

namespace TableFilter

/-- An output speaks of the table's own parameters only. -/
theorem Synchronizer.mem_ownKeys_of_mem_output {s : Synchronizer} {e : String × String}
    (h : e ∈ s.output.entries) : e.1 ∈ s.ownKeys := by
  refine Decidable.byContradiction fun hnot => ?_
  have hget := Keyed.lookup_eq_some_of_mem (nodup_output s) h
  rw [show s.output.entries.lookup e.1 = none from get?_output_of_notMem hnot] at hget
  cases hget

/-! ### Navigations that agree elsewhere -/

/-- Two histories of the same entries but the current ones, which have the same pairs of all keys
but some. -/
structure History.SameOutside (keys : List String) (h k : History) : Prop where
  past : k.past = h.past
  future : k.future = h.future
  pairs : k.params.outside keys = h.params.outside keys

theorem History.SameOutside.trans {keys : List String} {h k l : History}
    (hk : h.SameOutside keys k) (kl : k.SameOutside keys l) : h.SameOutside keys l :=
  ⟨kl.past.trans hk.past, kl.future.trans hk.future, kl.pairs.trans hk.pairs⟩

theorem History.sameOutside_refl (keys : List String) (h : History) : h.SameOutside keys h :=
  ⟨rfl, rfl, rfl⟩

theorem History.sameOutside_write {keys : List String} {patch : Patch}
    (h : ∀ e ∈ patch.entries, e.1 ∈ keys) (k : History) : k.SameOutside keys (k.write patch) := by
  refine ⟨k.past_write patch, k.future_write patch, ?_⟩
  rw [params_write, Params.outside_apply h]

namespace Synchronizer

variable {s : Synchronizer} {n : CountedHistory} {t : Turn}

/-- **A turn that presents the output makes one write at most,** and leaves a navigation that shows
the output and is otherwise as it was. -/
theorem perform_of_presents (h : t.Presents s n.history.current) (hne : t ≠ .unchanged) :
    let after := (s.perform .counted n t).2.1
    after.history.params.shows s.output = true ∧
      n.history.SameOutside s.ownKeys after.history ∧ after.writes ≤ n.writes + 1 := by
  cases t with
  | unchanged => exact absurd rfl hne
  | adopt content =>
    exact ⟨h.adopt content rfl, History.sameOutside_refl _ _, Nat.le_succ _⟩
  | write patch content =>
    obtain rfl := h.write patch content rfl
    refine ⟨?_, History.sameOutside_write (fun e he => mem_ownKeys_of_mem_output he) _, le_rfl⟩
    change (n.history.write s.output).params.shows s.output = true
    rw [History.params_write]
    exact Params.shows_apply (nodup_output s) n.history.params

theorem store_perform {ν : Type} (access : Access ν) (s : Synchronizer) (n : ν) (t : Turn) :
    (s.perform access n t).1.store = s.store := by
  cases t <;> rfl

theorem scope_perform {ν : Type} (access : Access ν) (s : Synchronizer) (n : ν) (t : Turn) :
    (s.perform access n t).1.scope = s.scope := by
  cases t <;> rfl

theorem output_perform {ν : Type} (access : Access ν) (s : Synchronizer) (n : ν) (t : Turn) :
    (s.perform access n t).1.output = s.output := by
  cases t <;> rfl

/-! ### Outbound steps -/

/-- Parameters show what is committed, whichever patch it is the content of. -/
def ShowsCommitted (s : Synchronizer) (p : Params) : Prop :=
  ∀ patch : Patch, s.committed = some patch.content → p.shows patch = true

/-- **An outbound step leaves a navigation that shows the output,** also where it does nothing, and
what it commits is shown for the next one. -/
theorem perform_outbound (h : s.ShowsCommitted n.history.params) :
    let after := s.perform .counted n (s.outbound n.history.current)
    after.1.ShowsCommitted after.2.1.history.params ∧
      after.2.1.history.params.shows s.output = true ∧
      n.history.SameOutside s.ownKeys after.2.1.history := by
  by_cases hcommitted : s.committed = some s.output.content
  · have hturn : s.outbound n.history.current = .unchanged := if_pos hcommitted
    rw [hturn]
    exact ⟨h, h _ hcommitted, History.sameOutside_refl _ _⟩
  · have hturn : s.outbound n.history.current =
        turn n.history.current s.output s.output.content := if_neg hcommitted
    obtain ⟨hshows, hsame, -⟩ := perform_of_presents
      (presents_turn s n.history.current s.output.content) (turn_ne_unchanged _ _)
    rw [hturn]
    refine ⟨fun patch hpatch => ?_, hshows, hsame⟩
    have hcontent : some s.output.content = some patch.content := by
      rw [← hpatch, turn]
      split <;> rfl
    rw [← Params.shows_congr_content (Option.some.inj hcontent)]
    exact hshows

/-! ### Hydration and exchange -/

/-- An exchange of the store leaves a navigation that shows the output of the new one. -/
theorem exchange_shows (h : s.ShowsCommitted n.history.params) {store : Store}
    (hfields : store.registry = s.store.registry) :
    let after := s.exchange .counted n store
    after.1.scope = s.scope ∧ after.1.store = store ∧
      after.2.1.history.params.shows after.1.output = true ∧
      n.history.SameOutside s.ownKeys after.2.1.history := by
  let exchanged : Synchronizer := { s with store := store }
  have hscope : exchanged.scope = s.scope := congrArg (Prod.mk s.key) hfields
  -- What was committed is as before, and it is shown.
  have hcommitted : exchanged.ShowsCommitted n.history.params := h
  obtain ⟨-, hshows, hsame⟩ := perform_outbound hcommitted
  rw [ownKeys_congr hscope] at hsame
  refine ⟨(scope_perform .counted exchanged n _).trans hscope,
    store_perform .counted exchanged n _, ?_, hsame⟩
  rw [← output_perform .counted exchanged n (exchanged.outbound n.history.current)] at hshows
  exact hshows

theorem performSome_some {ν : Type} (access : Access ν) (s : Synchronizer) (n : ν) (t : Turn) :
    s.performSome access n (some t) =
      ((s.perform access n t).1, (s.perform access n t).2.1, some (s.perform access n t).2.2) := rfl

theorem scope_filledFrom (t : Table) (n : CountedHistory) :
    (filledFrom t n).scope = (t.key, t.fields) := scope_filled (ofTable t) n.history.current

theorem ownKeys_of_scope {t : Table} (h : s.scope = (t.key, t.fields)) :
    s.ownKeys = t.key :: t.fields.params.map (·.2) := by
  obtain ⟨hkey, hfields⟩ : s.key = t.key ∧ s.store.registry = t.fields := Prod.mk.inj h
  rw [ownKeys, hkey, hfields]

/-- A hydration leaves a navigation that shows what is committed. -/
theorem fresh_showsCommitted {t : Table} {first : Synchronizer} {m : CountedHistory}
    {e : Option Emission} (h : fresh .counted t n = (first, m, e)) :
    first.scope = (t.key, t.fields) ∧ first.ShowsCommitted m.history.params ∧
      n.history.SameOutside (t.key :: t.fields.params.map (·.2)) m.history := by
  -- Nothing is committed before the first output.
  have hnew : (filledFrom t n).ShowsCommitted n.history.params := fun _ h => by cases h
  obtain ⟨hcommitted, -, hsame⟩ := perform_outbound hnew
  have hscope := (scope_perform .counted (filledFrom t n) n
    ((filledFrom t n).outbound n.history.current)).trans (scope_filledFrom t n)
  rw [ownKeys_of_scope (scope_filledFrom t n)] at hsame
  rw [fresh_eq, performSome_some, Prod.mk.injEq, Prod.mk.injEq] at h
  obtain ⟨rfl, rfl, -⟩ := h
  exact ⟨hscope, hcommitted, hsame⟩

/-- **A store that is exchanged after hydration is shown,** from whatever navigation the table was
hydrated, and the pairs of other keys are still those of that navigation. -/
theorem exchange_fresh {t : Table} {first second : Synchronizer} {m k : CountedHistory}
    {e : Option Emission} {o : Emission} {cs : Conditions}
    (hfirst : fresh .counted t n = (first, m, e))
    (hsecond : first.exchange .counted m (first.store.replace cs).2 = (second, k, o)) :
    second.scope = (t.key, t.fields) ∧ second.store.conditions = cs ∧
      k.history.params.shows second.output = true ∧
      n.history.SameOutside (t.key :: t.fields.params.map (·.2)) k.history := by
  obtain ⟨hscope, hcommitted, hsame⟩ := fresh_showsCommitted hfirst
  obtain ⟨hkept, hstore, hshows, hexchanged⟩ :=
    exchange_shows hcommitted (first.store.registry_replace cs)
  rw [hsecond] at hkept hstore hshows hexchanged
  rw [ownKeys_of_scope hscope] at hexchanged
  dsimp only at hkept hstore hshows hexchanged
  refine ⟨hkept.trans hscope, ?_, hshows, hsame.trans hexchanged⟩
  rw [hstore, Store.conditions_replace]

end Synchronizer

end TableFilter
