import Mathlib.Algebra.BigOperators.Intervals
import Mathlib.Algebra.Order.BigOperators.Group.Finset
import TableFilter.Calendar.Timestamp

/-!
# The number of a day

Every day has a number, counted from the first of January of the year 1, which is day 1.

* `Date.number` counts the days of the years, of the months and of the month before. Dates that
  exist are told apart by it (`Date.number_injective`), and the neighbours of a date have the
  neighbouring numbers (`Date.number_next`, `Date.number_previous`).
* `Timestamp.dayNumber` is the number of the day in which the minute of a timestamp lies, counted in
  minutes of universal time. It is the number of `Timestamp.utcDate` as long as the offset is less
  than a day (`Timestamp.number_utcDate`).
-/

namespace TableFilter.Calendar

namespace Date

/-- The days of a year before its month of a number. -/
def daysBeforeMonth (year : Int) (month : Nat) : Nat :=
  ∑ m ∈ Finset.Ico 1 month, monthLength year m

/-- The days from the first day of the year 1 to the first day of a year: 365 for each year, and one
more for each leap year between. -/
def daysBeforeYear (year : Int) : Int :=
  365 * (year - 1) + (year - 1) / 4 - (year - 1) / 100 + (year - 1) / 400

/-- The number of a day. The first of January of the year 1 is day 1. -/
def number (d : Date) : Int :=
  daysBeforeYear d.year + daysBeforeMonth d.year d.month + d.day

variable {d e : Date} {year : Int} {month : Nat}

/-! ### Months and years -/

theorem isValid_iff :
    d.isValid = true ↔
      (1 ≤ d.month ∧ d.month ≤ 12) ∧ 1 ≤ d.day ∧ d.day ≤ monthLength d.year d.month := by
  simp [isValid, and_assoc]

theorem monthLength_pos (year : Int) (month : Nat) : 1 ≤ monthLength year month := by
  unfold monthLength
  split_ifs <;> decide

theorem monthLength_le (year : Int) (month : Nat) : monthLength year month ≤ 31 := by
  unfold monthLength
  split_ifs <;> decide

theorem daysBeforeMonth_one (year : Int) : daysBeforeMonth year 1 = 0 := rfl

theorem daysBeforeMonth_succ (h : 1 ≤ month) :
    daysBeforeMonth year (month + 1) = daysBeforeMonth year month + monthLength year month :=
  Finset.sum_Ico_succ_top h _

theorem daysBeforeMonth_mono (year : Int) : Monotone (daysBeforeMonth year) := fun _ _ h =>
  Finset.sum_le_sum_of_subset (Finset.Ico_subset_Ico_right h)

/-- The months of a year have 365 or 366 days in all, as the year has. -/
theorem daysBeforeYear_succ (year : Int) :
    daysBeforeYear (year + 1) = daysBeforeYear year + daysBeforeMonth year 13 := by
  have hmonths : daysBeforeMonth year 13 = if isLeap year then 366 else 365 := by
    unfold daysBeforeMonth monthLength
    generalize isLeap year = leap
    revert leap
    decide
  rw [hmonths]
  unfold daysBeforeYear isLeap
  split
  · next h =>
    simp only [Bool.and_eq_true, Bool.or_eq_true, decide_eq_true_eq] at h
    omega
  · next h =>
    simp only [Bool.and_eq_true, Bool.or_eq_true, decide_eq_true_eq] at h
    omega

theorem daysBeforeYear_le {first second : Int} (h : first ≤ second) :
    daysBeforeYear first ≤ daysBeforeYear second := by
  refine monotone_int_of_le_succ (fun year => ?_) h
  rw [daysBeforeYear_succ]
  omega

/-! ### Dates by their numbers -/

/-- A date comes before the next month. -/
theorem dayOfYear_le (h : d.isValid = true) :
    daysBeforeMonth d.year d.month + d.day ≤ daysBeforeMonth d.year (d.month + 1) := by
  obtain ⟨hmonth, -, hday⟩ := isValid_iff.1 h
  rw [daysBeforeMonth_succ hmonth.1]
  omega

/-- A date lies in its year. -/
theorem number_bounds (h : d.isValid = true) :
    daysBeforeYear d.year < d.number ∧ d.number ≤ daysBeforeYear (d.year + 1) := by
  obtain ⟨⟨-, hmonth⟩, hday, -⟩ := isValid_iff.1 h
  have hnext := dayOfYear_le h
  have hyear : daysBeforeMonth d.year (d.month + 1) ≤ daysBeforeMonth d.year 13 :=
    daysBeforeMonth_mono _ (by omega)
  rw [daysBeforeYear_succ, number]
  omega

theorem year_le_of_number_le (hd : d.isValid = true) (he : e.isValid = true)
    (h : d.number ≤ e.number) : d.year ≤ e.year := by
  by_contra hlt
  have hmono : daysBeforeYear (e.year + 1) ≤ daysBeforeYear d.year :=
    daysBeforeYear_le (by omega)
  have := (number_bounds hd).1
  have := (number_bounds he).2
  omega

theorem month_le_of_number_le (hd : d.isValid = true) (he : e.isValid = true)
    (hyear : d.year = e.year) (h : d.number ≤ e.number) : d.month ≤ e.month := by
  by_contra hlt
  have hmono : daysBeforeMonth d.year (e.month + 1) ≤ daysBeforeMonth d.year d.month :=
    daysBeforeMonth_mono _ (by omega)
  have hday := dayOfYear_le he
  have hfirst := (isValid_iff.1 hd).2.1
  unfold number at h
  rw [← hyear] at h hday
  omega

/-- **Dates that exist are told apart by their numbers.** -/
theorem number_injective (hd : d.isValid = true) (he : e.isValid = true)
    (h : d.number = e.number) : d = e := by
  have hyear : d.year = e.year :=
    le_antisymm (year_le_of_number_le hd he h.le) (year_le_of_number_le he hd h.ge)
  have hmonth : d.month = e.month :=
    le_antisymm (month_le_of_number_le hd he hyear h.le)
      (month_le_of_number_le he hd hyear.symm h.ge)
  have hday : d.day = e.day := by
    unfold number at h
    rw [hyear, hmonth] at h
    omega
  cases d
  cases e
  simp_all

theorem number_next (h : d.isValid = true) :
    d.next.isValid = true ∧ d.next.number = d.number + 1 := by
  obtain ⟨⟨hfirst, hlast⟩, hday⟩ := isValid_iff.1 h
  unfold next
  split_ifs with hmonth hyear
  · exact ⟨isValid_iff.2 ⟨⟨hfirst, hlast⟩, by dsimp only; omega⟩, by simp [number]; omega⟩
  · refine ⟨isValid_iff.2 ⟨⟨by simp, hyear⟩, le_rfl, monthLength_pos _ _⟩, ?_⟩
    simp only [number, daysBeforeMonth_succ hfirst]
    omega
  · have hdecember : d.month + 1 = 13 := by omega
    refine ⟨isValid_iff.2 ⟨by simp, le_rfl, monthLength_pos _ _⟩, ?_⟩
    simp only [number, daysBeforeYear_succ, daysBeforeMonth_one, ← hdecember,
      daysBeforeMonth_succ hfirst]
    omega

theorem number_previous (h : d.isValid = true) :
    d.previous.isValid = true ∧ d.previous.number = d.number - 1 := by
  obtain ⟨⟨hfirst, hlast⟩, hday⟩ := isValid_iff.1 h
  unfold previous
  split_ifs with hmonth hyear
  · exact ⟨isValid_iff.2 ⟨⟨hfirst, hlast⟩, by dsimp only; omega⟩, by simp [number]; omega⟩
  · obtain ⟨m, hm⟩ : ∃ m, d.month = m + 1 := ⟨d.month - 1, by omega⟩
    have hrange : 1 ≤ d.month - 1 ∧ d.month - 1 ≤ 12 := by omega
    refine ⟨isValid_iff.2 ⟨hrange, monthLength_pos _ _, le_rfl⟩, ?_⟩
    simp only [number, hm, Nat.add_sub_cancel, daysBeforeMonth_succ (show 1 ≤ m by omega)]
    omega
  · have hjanuary : d.month = 1 := by omega
    refine ⟨isValid_iff.2 ⟨by simp, by simp, le_rfl⟩, ?_⟩
    have hyear := daysBeforeYear_succ (d.year - 1)
    rw [sub_add_cancel] at hyear
    have hdecember : daysBeforeMonth (d.year - 1) 13 = daysBeforeMonth (d.year - 1) 12 + 31 :=
      daysBeforeMonth_succ (by decide)
    simp only [number, hjanuary, hyear, daysBeforeMonth_one, hdecember]
    omega

end Date

namespace Timestamp

/-- The number of the day in universal time in which the minute of a timestamp lies: its minutes
since midnight of day 0, less those by which the local clock is ahead, in whole days. -/
def dayNumber (t : Timestamp) : Int :=
  (1440 * t.date.number + (60 * t.hour + t.minute) - t.offset) / 1440

/-- **The day in universal time has the number that the minutes give.** -/
theorem number_utcDate {t : Timestamp} (h : t.isValid = true) (hoffset : t.offset.natAbs < 1440) :
    t.utcDate.isValid = true ∧ t.utcDate.number = t.dayNumber := by
  simp only [isValid, Bool.and_eq_true, decide_eq_true_eq] at h
  obtain ⟨⟨⟨hdate, hhour⟩, hminute⟩, -⟩ := h
  unfold utcDate dayNumber
  dsimp only
  split_ifs with hbefore hafter
  · obtain ⟨hvalid, hnumber⟩ := Date.number_previous hdate
    exact ⟨hvalid, by omega⟩
  · obtain ⟨hvalid, hnumber⟩ := Date.number_next hdate
    exact ⟨hvalid, by omega⟩
  · exact ⟨hdate, by omega⟩

end Timestamp

end TableFilter.Calendar
