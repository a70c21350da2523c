import Mathlib.Data.List.Nodup
import TableFilter.SavedFilter

/-!
# Runs of submissions

Saved filters whose names are distinct, under submissions of any names, texts and tables.

* What a submission comes to is said once: it appends the filter under the name without the blanks
  around it, or leaves the saved filters and reports which rules the name breaks (`submit_cases`).
* So names stay distinct over a whole run, and the entries are the first ones and those that were
  saved, in their order (`nodup_names_run`, `entries_run`): saving never replaces an entry. The entry
  found under a name is the last one saved under it (`find?_eq_getLast?`).
* A name is reported with every rule that it breaks, but an empty one only as empty, even where an
  entry of the empty name is there (`mem_problems`, `empty_name_only`).
-/

namespace TableFilter

/-- What is submitted: a name as it was entered, a navigation text and a table. -/
structure Submission where
  entered : String
  params : String
  table : String
  deriving DecidableEq, Repr

/-- The filter that a submission asks to save. -/
def Submission.filter (r : Submission) : SavedFilter := ⟨Text.trim r.entered, r.params, r.table⟩

namespace SavedFilters

/-- The names of the saved filters, in order. -/
def names (s : SavedFilters) : List String := s.entries.map (·.name)

/-- Whether a name breaks the rule that a problem is about. -/
def Breaks (s : SavedFilters) (name : String) : NameProblem → Prop
  | .empty => name = ""
  | .tooLong => 100 < name.length
  | .taken taken => taken = name ∧ name ∈ s.names

/-- The results of submissions one after the other, and the saved filters after them. -/
def run (s : SavedFilters) :
    List Submission → List (Except (List NameProblem) SavedFilter) × SavedFilters
  | [] => ([], s)
  | r :: rs =>
    let first := s.submit r.entered r.params r.table
    let others := run first.2 rs
    (first.1 :: others.1, others.2)

/-- The filters that a run has saved, in order. -/
def saved (s : SavedFilters) (rs : List Submission) : List SavedFilter :=
  (s.run rs).1.filterMap Except.toOption

variable {s : SavedFilters} {name : String} {r : Submission} {rs : List Submission}

/-! ### One submission -/

theorem isTaken_iff : s.isTaken name = true ↔ name ∈ s.names := by
  simp [isTaken, find?, names]

/-- **Every rule that a name breaks is reported,** of an empty name only that it is empty. -/
theorem mem_problems {p : NameProblem} :
    p ∈ s.problems name ↔ if name = "" then p = .empty else s.Breaks name p := by
  have htoolong : maxNameLength = 100 := rfl
  unfold problems
  by_cases hempty : name = ""
  · simp [hempty]
  · rw [if_neg (by simpa using hempty), if_neg hempty, List.mem_append, List.mem_ite_nil_right,
      List.mem_ite_nil_right, isTaken_iff, htoolong]
    cases p <;> simp [Breaks, hempty, and_comm]

theorem nodup_problems : (s.problems name).Nodup := by
  unfold problems
  split_ifs <;> simp

theorem problems_eq_nil_iff :
    s.problems name = [] ↔ name ≠ "" ∧ name.length ≤ 100 ∧ name ∉ s.names := by
  unfold problems
  split_ifs <;> simp_all [maxNameLength, isTaken_iff]

/-- Under a free name a filter is saved behind the others. -/
theorem save_of_notMem {f : SavedFilter} (h : f.name ∉ s.names) :
    s.save f = ⟨s.entries ++ [f]⟩ := by
  obtain ⟨entries⟩ := s
  refine congrArg SavedFilters.mk ?_
  change f.name ∉ entries.map (·.name) at h
  induction entries with
  | nil => rfl
  | cons g gs ih =>
    rw [List.map_cons, List.mem_cons, not_or] at h
    rw [saveIn, if_neg (Ne.symm h.1), ih h.2, List.cons_append]

/-- **What a submission comes to.** -/
theorem submit_cases (s : SavedFilters) (r : Submission) :
    (s.problems (Text.trim r.entered) = [] ∧
      s.submit r.entered r.params r.table = (.ok r.filter, ⟨s.entries ++ [r.filter]⟩)) ∨
    (s.problems (Text.trim r.entered) ≠ [] ∧
      s.submit r.entered r.params r.table = (.error (s.problems (Text.trim r.entered)), s)) := by
  unfold submit validate
  dsimp only
  cases hproblems : s.problems (Text.trim r.entered) with
  | nil =>
    refine .inl ⟨rfl, ?_⟩
    have hfree : r.filter.name ∉ s.names := (problems_eq_nil_iff.1 hproblems).2.2
    exact congrArg (Prod.mk _) (save_of_notMem hfree)
  | cons p ps => exact .inr ⟨List.cons_ne_nil p ps, rfl⟩

/-! ### Runs -/

theorem entries_submit (s : SavedFilters) (r : Submission) :
    (s.submit r.entered r.params r.table).2.entries =
      s.entries ++ (s.submit r.entered r.params r.table).1.toOption.toList := by
  obtain ⟨-, h⟩ | ⟨-, h⟩ := submit_cases s r
  · rw [h]
    rfl
  · rw [h]
    exact (List.append_nil s.entries).symm

theorem nodup_names_submit (h : s.names.Nodup) (r : Submission) :
    (s.submit r.entered r.params r.table).2.names.Nodup := by
  obtain ⟨hproblems, hsubmit⟩ | ⟨-, hsubmit⟩ := submit_cases s r
  · have hfree : r.filter.name ∉ s.names := (problems_eq_nil_iff.1 hproblems).2.2
    rw [hsubmit, names, List.map_append]
    exact h.append (List.nodup_singleton _) (by simpa using hfree)
  · rwa [hsubmit]

theorem run_cons (s : SavedFilters) (r : Submission) (rs : List Submission) :
    s.run (r :: rs) =
      ((s.submit r.entered r.params r.table).1 ::
          ((s.submit r.entered r.params r.table).2.run rs).1,
        ((s.submit r.entered r.params r.table).2.run rs).2) := rfl

/-- **Names stay distinct over a run.** -/
theorem nodup_names_run (h : s.names.Nodup) (rs : List Submission) : (s.run rs).2.names.Nodup := by
  induction rs generalizing s with
  | nil => exact h
  | cons r rs ih =>
    rw [run_cons]
    exact ih (nodup_names_submit h r)

/-- **A run keeps every entry at its place** and appends those that it saves. -/
theorem entries_run (s : SavedFilters) (rs : List Submission) :
    (s.run rs).2.entries = s.entries ++ s.saved rs := by
  induction rs generalizing s with
  | nil => exact (List.append_nil s.entries).symm
  | cons r rs ih =>
    have hsaved : s.saved (r :: rs) = (s.submit r.entered r.params r.table).1.toOption.toList ++
        (s.submit r.entered r.params r.table).2.saved rs := by
      unfold saved
      rw [run_cons, List.filterMap_cons]
      cases (s.submit r.entered r.params r.table).1 <;> rfl
    rw [hsaved, run_cons, ih, entries_submit, List.append_assoc]

/-- Where names are distinct, the entry that is found is the last one of its name. -/
theorem find?_eq_getLast? (h : s.names.Nodup) (name : String) :
    s.find? name = (s.entries.filter (·.name = name)).getLast? := by
  obtain ⟨entries⟩ := s
  change (entries.map (·.name)).Nodup at h
  change entries.find? _ = (entries.filter _).getLast?
  induction entries with
  | nil => rfl
  | cons f fs ih =>
    rw [List.map_cons, List.nodup_cons] at h
    by_cases hname : f.name = name
    · have hrest : fs.filter (·.name = name) = [] := by
        refine List.filter_eq_nil_iff.2 fun g hg heq => h.1 ?_
        exact List.mem_map.2 ⟨g, hg, (of_decide_eq_true heq).trans hname.symm⟩
      rw [List.find?_cons_of_pos (by simpa using hname),
        List.filter_cons_of_pos (by simpa using hname), hrest, List.getLast?_singleton]
    · rw [List.find?_cons_of_neg (by simpa using hname),
        List.filter_cons_of_neg (by simpa using hname), ih h.2]

theorem list_append {fs : List SavedFilter} {table : String} (h : ∀ f ∈ fs, f.table ≠ table) :
    list ⟨s.entries ++ fs⟩ table = s.list table := by
  rw [list, list, List.filter_append]
  simpa using h

/-- **A submission after any run.** It succeeds exactly if the name without the blanks around it is
not empty, at most a hundred characters long and free. Then it appends the one filter, and the lists
of other tables stay. Otherwise everything stays, and the problems are those of all rules that the
name breaks, or that the name is empty. All the while names are distinct, and the entry found under
a name is the last one saved under it, where the first entries count as saved before. -/
theorem submit_after_run (h : s.names.Nodup) (rs : List Submission) (r : Submission) :
    let t := (s.run rs).2
    let name := Text.trim r.entered
    let result := (t.submit r.entered r.params r.table).1
    let u := (t.submit r.entered r.params r.table).2
    ((∃ f, result = .ok f) ↔ name ≠ "" ∧ name.length ≤ 100 ∧ name ∉ t.names) ∧
      (∀ f, result = .ok f → f = ⟨name, r.params, r.table⟩ ∧ u.entries = t.entries ++ [f] ∧
        ∀ table, table ≠ r.table → u.list table = t.list table) ∧
      (∀ problems, result = .error problems → u = t ∧ problems.Nodup ∧
        ∀ p, p ∈ problems ↔ if name = "" then p = .empty else t.Breaks name p) ∧
      t.names.Nodup ∧
      ∀ n, t.find? n = ((s.entries ++ s.saved rs).filter (·.name = n)).getLast? := by
  intro t name result u
  have hnames : t.names.Nodup := nodup_names_run h rs
  have hfind (n : String) :
      t.find? n = ((s.entries ++ s.saved rs).filter (·.name = n)).getLast? := by
    rw [find?_eq_getLast? hnames, entries_run]
  obtain ⟨hproblems, hsubmit⟩ | ⟨hproblems, hsubmit⟩ := submit_cases t r
  · have hresult : result = .ok r.filter := congrArg Prod.fst hsubmit
    have hu : u = ⟨t.entries ++ [r.filter]⟩ := congrArg Prod.snd hsubmit
    rw [hresult, hu]
    refine ⟨⟨fun _ => problems_eq_nil_iff.1 hproblems, fun _ => ⟨r.filter, rfl⟩⟩, fun f hf => ?_,
      fun problems herror => (nomatch herror), hnames, hfind⟩
    obtain rfl := Except.ok.inj hf
    refine ⟨rfl, rfl, fun table htable => list_append fun f hf => ?_⟩
    rw [List.mem_singleton.1 hf]
    exact htable.symm
  · have hresult : result = .error (t.problems name) := congrArg Prod.fst hsubmit
    have hu : u = t := congrArg Prod.snd hsubmit
    rw [hresult, hu]
    refine ⟨⟨fun ⟨f, hf⟩ => (nomatch hf), fun h => absurd (problems_eq_nil_iff.2 h) hproblems⟩,
      fun f hf => (nomatch hf), fun problems herror => ?_, hnames, hfind⟩
    obtain rfl := Except.error.inj herror
    exact ⟨rfl, nodup_problems, fun p => mem_problems⟩

/-- A name with blanks around it is saved, and then refused for another table. -/
theorem submit_after_run_refused :
    let s : SavedFilters := ⟨[⟨"a", "q=1", "tx"⟩]⟩
    let rs : List Submission := [⟨" b ", "q=2", "ty"⟩, ⟨"b", "q=3", "tx"⟩]
    let t := (s.run rs).2
    s.names.Nodup ∧ (∃ f, (t.submit "c" "q=4" "tx").1 = .ok f) ∧
      t.find? "b" = some ⟨"b", "q=2", "ty"⟩ := by
  intro s rs t
  have h : s.names.Nodup := by decide
  obtain ⟨hok, -, -, -, hfind⟩ := submit_after_run h rs ⟨"c", "q=4", "tx"⟩
  refine ⟨h, hok.2 (by decide +kernel), (hfind "b").trans ?_⟩
  decide +kernel

/-- An empty name is not reported as taken, though there is an entry of the empty name. -/
theorem empty_name_only :
    let s : SavedFilters := ⟨[⟨"", "q=1", "tx"⟩]⟩
    s.names.Nodup ∧ ∃ problems, s.submit "  " "q=2" "tx" = (.error problems, s) ∧
      s.Breaks (Text.trim "  ") (.taken "") ∧ .taken "" ∉ problems := by
  refine ⟨by decide, [.empty], by decide, ?_, by decide⟩
  exact ⟨by decide, by decide⟩

end SavedFilters

end TableFilter
