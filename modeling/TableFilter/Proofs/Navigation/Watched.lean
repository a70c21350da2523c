import TableFilter.Navigation.Watched
import TableFilter.Proofs.Navigation.Zipper

/-!
# Moves of a watched navigation

Those who listen to a navigation only write (`Watched.OnlyWrites`) if all that comes of telling them
is a sequence of writes to the current entry.

* Then a move is one of the zipper, followed by their writes, or it is refused and the state, with
  all that the listeners keep in it, stays as it is (`Watched.made`).
* A run of moves is one of the zipper (`Watched.zipperRun`).
-/

namespace TableFilter

/-! ### Runs of a zipper -/

namespace Zipper

/-- The zipper after writes, one after the other. -/
def writes (z : Zipper) (patches : List Patch) : Zipper := patches.foldl write z

/-- **Writes touch no entry but the current one.** -/
theorem around_writes (z : Zipper) (patches : List Patch) :
    (z.writes patches).past = z.past ∧ (z.writes patches).future = z.future := by
  induction patches generalizing z with
  | nil => exact ⟨rfl, rfl⟩
  | cons patch rest ih => exact ih (z.write patch)

/-- What can come of a sequence of moves, with an answer to each: a move that is refused leaves the
zipper as it is, and any other may be followed by writes. -/
inductive Run : Zipper → List Move → List Bool → Zipper → Prop
  | nil (z : Zipper) : Run z [] [] z
  | refused {z u : Zipper} {m : Move} {ms : List Move} {answers : List Bool}
      (h : z.move? m = none) (rest : Run z ms answers u) : Run z (m :: ms) (false :: answers) u
  | made {z y u : Zipper} {m : Move} {ms : List Move} {answers : List Bool}
      (h : z.move? m = some y) (patches : List Patch) (rest : Run (y.writes patches) ms answers u) :
      Run z (m :: ms) (true :: answers) u

end Zipper

/-- Writes to a navigation are writes to its zipper. -/
theorem CountedHistory.zipper_writes (n : CountedHistory) (patches : List Patch) :
    (patches.foldl write n).history.zipper = n.history.zipper.writes patches := by
  induction patches generalizing n with
  | nil => rfl
  | cons patch rest ih =>
    rw [List.foldl_cons, ih, Zipper.writes, Zipper.writes, List.foldl_cons]
    exact congrArg (rest.foldl Zipper.write) (n.history.zipper_write patch)

/-! ### Moves and what is told of them -/

namespace Watched

variable {σ : Type}

/-- All that comes of telling those who listen is a sequence of writes, as long as a condition on
the state holds, which they and any change of the navigation preserve. -/
structure OnlyWrites (w : Watched σ) (P : σ → Prop) : Prop where
  exchange : ∀ s n, P s → P (w.exchange s n)
  tell : ∀ s, P s → P (w.tell s) ∧ ∃ patches : List Patch,
    w.navigation (w.tell s) = patches.foldl CountedHistory.write (w.navigation s)

variable (w : Watched σ)

/-- The zipper of the navigation. -/
def zipper (s : σ) : Zipper := (w.history s).zipper

/-- A move made, with the answer to it: whether there was an entry to go to. -/
def make (s : σ) : Move → Bool × σ
  | .navigate query => (true, w.navigate s query)
  | .back => w.back s
  | .forward => w.forward s
  | .write patch => (true, w.write s patch)

/-- Moves made one after the other, with the answers to them. -/
def run (s : σ) : List Move → List Bool × σ
  | [] => ([], s)
  | m :: ms =>
    let (answer, t) := w.make s m
    let (answers, u) := run t ms
    (answer :: answers, u)

/-- What can come of a move: it is refused, and nothing has changed and nobody been told; or it is
made in the zipper and told, and what has been written since is in the current entry. -/
inductive Made (s : σ) (m : Move) : Bool × σ → Prop
  | refused (h : (w.zipper s).move? m = none) : Made s m (false, s)
  | made (n : CountedHistory) (h : (w.zipper s).move? m = some n.history.zipper)
      (patches : List Patch)
      (htold : w.zipper (w.tell (w.exchange s n)) = n.history.zipper.writes patches) :
      Made s m (true, w.tell (w.exchange s n))

variable {w} {P : σ → Prop} {s : σ}

/-- The answer to a move tells whether there was an entry to go to. -/
theorem Made.refused_iff {m : Move} {r : Bool × σ} (h : w.Made s m r) :
    r.1 = false ↔ (w.zipper s).move? m = none := by
  cases h with
  | refused h => exact iff_of_true rfl h
  | made n h => rw [h]; exact iff_of_false nofun nofun

/-- A move that is refused changes nothing. -/
theorem Made.eq_self {m : Move} {r : Bool × σ} (h : w.Made s m r) (hr : r.1 = false) :
    r = (false, s) := by
  cases h with
  | refused => rfl
  | made => cases hr

/-- The entries around the current one are those that the move alone leaves. -/
theorem Made.around {m : Move} {r : Bool × σ} {z : Zipper} (h : w.Made s m r)
    (hz : (w.zipper s).move? m = some z) :
    (w.zipper r.2).past = z.past ∧ (w.zipper r.2).future = z.future := by
  cases h with
  | refused hnone =>
    rw [hnone] at hz
    cases hz
  | made n hmove patches htold =>
    rw [htold, ← Option.some.inj (hmove.symm.trans hz)]
    exact Zipper.around_writes _ patches

variable (h : w.OnlyWrites P) (hs : P s)
include h hs

theorem OnlyWrites.zipper_tell (n : CountedHistory) :
    P (w.tell (w.exchange s n)) ∧ ∃ patches,
      w.zipper (w.tell (w.exchange s n)) = n.history.zipper.writes patches := by
  obtain ⟨hkept, patches, htold⟩ := h.tell _ (h.exchange s n hs)
  refine ⟨hkept, patches, ?_⟩
  rw [w.navigation_exchange] at htold
  rw [zipper, history, htold, CountedHistory.zipper_writes]

/-- A change that is told is a move of the zipper if it is one before it is told. -/
theorem OnlyWrites.made_exchange {m : Move} {n : CountedHistory}
    (hmove : (w.zipper s).move? m = some n.history.zipper) :
    P (w.tell (w.exchange s n)) ∧ w.Made s m (true, w.tell (w.exchange s n)) := by
  obtain ⟨hkept, patches, htold⟩ := h.zipper_tell hs n
  exact ⟨hkept, .made n hmove patches htold⟩

/-- A step to an entry that may be missing is the step of the zipper. -/
theorem OnlyWrites.made_step {m : Move} {target : Option History}
    (hmake : w.make s m = match target with
      | some k => (true, w.move s k)
      | none => (false, s))
    (htarget : target.map History.zipper = (w.zipper s).move? m) :
    P (w.make s m).2 ∧ w.Made s m (w.make s m) := by
  rw [hmake]
  cases target with
  | none => exact ⟨hs, .refused htarget.symm⟩
  | some k => exact h.made_exchange hs htarget.symm

/-- **Step.** A move is one of the zipper. -/
theorem OnlyWrites.made (m : Move) : P (w.make s m).2 ∧ w.Made s m (w.make s m) := by
  cases m with
  | navigate query => exact h.made_exchange hs (congrArg some (History.zipper_navigate _ _).symm)
  | back => exact h.made_step hs rfl (w.history s).zipper_back?
  | forward => exact h.made_step hs rfl (w.history s).zipper_forward?
  | write patch => exact h.made_exchange hs (congrArg some (History.zipper_write _ _).symm)

/-- **Run.** Moves one after the other are moves of the zipper. -/
theorem OnlyWrites.zipperRun (moves : List Move) :
    P (w.run s moves).2 ∧
      Zipper.Run (w.zipper s) moves (w.run s moves).1 (w.zipper (w.run s moves).2) := by
  induction moves generalizing s with
  | nil => exact ⟨hs, .nil _⟩
  | cons m ms ih =>
    obtain ⟨hkept, hmade⟩ := h.made hs m
    rw [run]
    cases hmake : w.make s m with
    | mk answer t =>
      rw [hmake] at hkept hmade
      obtain ⟨hrest, hrun⟩ := ih hkept
      refine ⟨hrest, ?_⟩
      cases hmade with
      | refused hnone => exact .refused hnone hrun
      | made n hmove patches htold => exact .made hmove patches (htold ▸ hrun)

end Watched

end TableFilter
