import Mathlib.Data.List.TakeWhile
import TableFilter.Proofs.Calendar.Days
import TableFilter.Proofs.Number.Digits

/-!
# The end of a day as a normal form

A text is `DatedOn` a day if it is a timestamp whose minute lies in that day of universal time, or a
bare date of that day. Timestamps have a colon (`Timestamp.ofText?_eq_some`) and bare dates have none
(`Date.ofText?_eq_some`), so that there is one such day at most.

`endOfDay` gives every text of a day the same form, leaves all other texts alone and therefore
changes nothing the second time (`endOfDay_normal`): the form is again a timestamp of the day if the
year has four digits, and otherwise it is no date at all.
-/

namespace TableFilter.Calendar

/-- Whether a text is a timestamp or a bare date of the day of a number, in universal time. -/
def DatedOn (s : String) (day : Int) : Prop :=
  (∃ t, Timestamp.ofText? s = some t ∧ t.dayNumber = day) ∨
    ∃ d, Date.ofText? s = some d ∧ d.number = day

/-! ### Parts of a text -/

variable {cs rest : List Char} {n : Nat} {c : Char}

theorem suffix_of_twoDigits (h : twoDigits cs = some (n, rest)) : rest <:+ cs := by
  unfold twoDigits at h
  split at h
  · next a b tail =>
    simp only [bind, Option.bind_eq_some_iff] at h
    obtain ⟨tens, -, ones, -, h⟩ := h
    cases h
    exact (List.suffix_cons b rest).trans (List.suffix_cons a _)
  · cases h

theorem eq_cons_of_after (h : after c cs = some rest) : cs = c :: rest := by
  unfold after at h
  split at h
  · next d tail =>
    split at h
    · next hc => cases h; rw [hc]
    · cases h
  · cases h

theorem suffix_of_afterSeparator (h : afterSeparator cs = some rest) : rest <:+ cs := by
  unfold afterSeparator at h
  split at h
  · split at h
    · cases h; exact List.suffix_cons _ _
    · cases h
  · cases h

theorem suffix_of_fullDate? {d : Date} (h : fullDate? cs = some (d, rest)) : rest <:+ cs := by
  unfold fullDate? at h
  simp only [bind, Option.bind_eq_some_iff] at h
  obtain ⟨⟨century, cs₁⟩, h₁, ⟨year, cs₂⟩, h₂, cs₃, h₃, ⟨month, cs₄⟩, h₄, cs₅, h₅, ⟨day, cs₆⟩, h₆,
    h⟩ := h
  cases h
  obtain rfl := eq_cons_of_after h₃
  obtain rfl := eq_cons_of_after h₅
  calc cs₆ <:+ cs₅ := suffix_of_twoDigits h₆
    _ <:+ '-' :: cs₅ := List.suffix_cons _ _
    _ <:+ cs₃ := suffix_of_twoDigits h₄
    _ <:+ '-' :: cs₃ := List.suffix_cons _ _
    _ <:+ cs₁ := suffix_of_twoDigits h₂
    _ <:+ cs := suffix_of_twoDigits h₁

theorem colon_mem_of_clock? {time : Nat × Nat × Nat} (h : clock? cs = some (time, rest)) :
    ':' ∈ cs := by
  unfold clock? at h
  simp only [bind, Option.bind_eq_some_iff] at h
  obtain ⟨⟨hour, cs₁⟩, h₁, cs₂, h₂, -⟩ := h
  obtain rfl := eq_cons_of_after h₂
  exact (suffix_of_twoDigits h₁).mem List.mem_cons_self

theorem offset?_bound {offset : Int} (h : offset? cs = some offset) : offset.natAbs < 1440 := by
  unfold offset? at h
  split at h
  · cases h; decide
  · cases h; decide
  · simp only [bind, Option.bind_eq_some_iff] at h
    obtain ⟨negative, -, ⟨hours, cs⟩, -, cs, -, ⟨minutes, cs⟩, -, h⟩ := h
    split at h
    · next hrange =>
      simp only [Bool.and_eq_true, decide_eq_true_eq] at hrange
      cases h
      split <;> omega
    · cases h
  · cases h

/-- A timestamp that is read exists, is less than a day off universal time, and has a colon in its
text. -/
theorem Timestamp.ofText?_eq_some {s : String} {t : Timestamp} (h : ofText? s = some t) :
    t.isValid = true ∧ t.offset.natAbs < 1440 ∧ ':' ∈ s.toList := by
  unfold ofText? at h
  simp only [bind, Option.bind_eq_some_iff] at h
  obtain ⟨⟨date, cs₁⟩, hdate, cs₂, hseparator, ⟨⟨hour, minute, second⟩, cs₃⟩, hclock, cs₄, -, offset,
    hoffset, h⟩ := h
  split at h
  · next hvalid =>
    cases h
    have hcolon := (suffix_of_afterSeparator hseparator).mem (colon_mem_of_clock? hclock)
    exact ⟨hvalid, offset?_bound hoffset, (suffix_of_fullDate? hdate).mem hcolon⟩
  · cases h

/-! ### Bare dates -/

section

variable (hblank : Text.isBlank c = false) (hdigit : Number.digit? c = none)

include hblank in
theorem mem_dropWhile_isBlank (hc : c ∈ cs) : c ∈ cs.dropWhile Text.isBlank := by
  rw [← List.takeWhile_append_dropWhile (p := Text.isBlank) (l := cs), List.mem_append] at hc
  refine hc.resolve_left fun hmem => ?_
  exact absurd (List.mem_takeWhile_imp hmem) (by simp [hblank])

include hblank hdigit

/-- The characters that a reading of digits takes are blanks and digits. -/
theorem mem_of_someDigits {most : Nat} (h : someDigits most cs = some (n, rest)) (hc : c ∈ cs) :
    c ∈ rest := by
  unfold someDigits at h
  dsimp only at h
  split at h
  · cases h
  have hc := mem_dropWhile_isBlank hblank hc
  generalize cs.dropWhile Text.isBlank = cs at h hc
  obtain ⟨front, heq, hlength, hfront⟩ := Number.takeDigits_spec (cs.take most)
  have hcs : cs = front ++ ((Number.takeDigits (cs.take most)).2 ++ cs.drop most) := by
    rw [← List.append_assoc, ← heq, List.take_append_drop]
  cases h
  rw [← hlength]
  nth_rewrite 1 [hcs] at hc
  nth_rewrite 1 [hcs]
  rw [List.drop_left]
  exact (List.mem_append.1 hc).resolve_left fun hmem => hfront c hmem hdigit

omit hblank in
theorem mem_of_signedYear? {negative : Bool} {year : Int}
    (h : signedYear? negative cs = some (year, rest)) (hc : c ∈ cs) : c ∈ rest := by
  obtain ⟨front, heq, -, hfront⟩ := Number.takeDigits_spec cs
  unfold signedYear? at h
  dsimp only at h
  split at h
  · cases h
  · cases h
    rw [heq] at hc
    exact (List.mem_append.1 hc).resolve_left fun hmem => hfront c hmem hdigit

theorem mem_of_year? {year : Int} (h : year? cs = some (year, rest)) (hminus : c ≠ '-')
    (hplus : c ≠ '+') (hc : c ∈ cs) : c ∈ rest := by
  have hc := mem_dropWhile_isBlank hblank hc
  unfold year? at h
  split at h
  · next heq => exact mem_of_signedYear? hdigit h (List.mem_of_ne_of_mem hminus (heq ▸ hc))
  · next heq => exact mem_of_signedYear? hdigit h (List.mem_of_ne_of_mem hplus (heq ▸ hc))
  · obtain ⟨⟨n, cs'⟩, hdigits, heq⟩ := Option.map_eq_some_iff.1 h
    cases heq
    exact mem_of_someDigits hblank hdigit hdigits hc

end

/-- A bare date that is read exists and has no colon in its text. -/
theorem Date.ofText?_eq_some {s : String} {d : Date} (h : ofText? s = some d) :
    d.isValid = true ∧ ':' ∉ s.toList := by
  unfold ofText? at h
  simp only [bind, Option.bind_eq_some_iff] at h
  obtain ⟨⟨year, cs₁⟩, h₁, cs₂, h₂, ⟨month, cs₃⟩, h₃, cs₄, h₄, ⟨day, cs₅⟩, h₅, h⟩ := h
  split at h
  · next hall =>
    simp only [Bool.and_eq_true, List.isEmpty_iff] at hall
    obtain ⟨⟨rfl, -⟩, hvalid⟩ := hall
    cases h
    refine ⟨hvalid, fun hcolon => ?_⟩
    obtain rfl := eq_cons_of_after h₂
    obtain rfl := eq_cons_of_after h₄
    have hblank : Text.isBlank ':' = false := by decide
    have hdigit : Number.digit? ':' = none := by decide
    -- The colon is none of the characters that are read, so it is still there at the end.
    have h₁ := mem_of_year? hblank hdigit h₁ (by decide) (by decide) hcolon
    have h₃ := mem_of_someDigits hblank hdigit h₃ (List.mem_of_ne_of_mem (by decide) h₁)
    have h₅ := mem_of_someDigits hblank hdigit h₅ (List.mem_of_ne_of_mem (by decide) h₃)
    exact absurd h₅ List.not_mem_nil
  · cases h

/-! ### Days and their texts -/

section

variable {s t : String} {day : Int} {d : Date}

theorem isValid_of_day? (h : day? s = some d) : d.isValid = true := by
  unfold day? at h
  split at h
  · next t ht =>
    obtain ⟨hvalid, hoffset, -⟩ := Timestamp.ofText?_eq_some ht
    cases h
    exact (Timestamp.number_utcDate hvalid hoffset).1
  · exact (Date.ofText?_eq_some h).1

/-- **A text of a day names the date of that number.** -/
theorem day?_of_datedOn (h : DatedOn s day) :
    ∃ d, d.isValid = true ∧ d.number = day ∧ day? s = some d := by
  unfold day?
  rcases h with ⟨t, ht, hday⟩ | ⟨d, hd, hday⟩
  · obtain ⟨hvalid, hoffset, -⟩ := Timestamp.ofText?_eq_some ht
    obtain ⟨hdate, hnumber⟩ := Timestamp.number_utcDate hvalid hoffset
    exact ⟨t.utcDate, hdate, hnumber.trans hday, by rw [ht]⟩
  · obtain ⟨hvalid, hcolon⟩ := Date.ofText?_eq_some hd
    refine ⟨d, hvalid, hday, ?_⟩
    cases ht : Timestamp.ofText? s with
    | none => exact hd
    | some t => exact absurd (Timestamp.ofText?_eq_some ht).2.2 hcolon

theorem endOfDay_of_day? (h : day? s = some d) : endOfDay s = d.endText := by
  rw [endOfDay, h]

theorem endOfDay_of_datedOn (hd : d.isValid = true) (h : DatedOn s d.number) :
    endOfDay s = d.endText := by
  obtain ⟨e, he, hnumber, hday⟩ := day?_of_datedOn h
  obtain rfl := Date.number_injective he hd hnumber
  exact endOfDay_of_day? hday

end

/-! ### The form of a day -/

open Date

theorem padded_succ {width : Nat} (h : 1 ≤ width) (n : Nat) :
    padded (width + 1) n = padded width (n / 10) ++ [(n % 10).digitChar] := by
  unfold padded
  dsimp only
  by_cases hn : n < 10
  · have hzero : Number.natText 0 = ['0'] := rfl
    rw [Number.natText_of_lt hn, Nat.div_eq_of_lt hn, Nat.mod_eq_of_lt hn, hzero,
      ← List.replicate_succ', List.length_singleton, List.length_singleton, Nat.add_sub_cancel,
      Nat.sub_add_cancel h]
  · rw [Number.natText_of_le (not_lt.1 hn), List.length_append, List.length_singleton,
      Nat.add_sub_add_right, List.append_assoc]

theorem padded_one (h : n < 10) : padded 1 n = [n.digitChar] := by
  rw [padded, Number.natText_of_lt h]
  rfl

theorem twoDigits_padded (h : n < 100) (rest : List Char) :
    twoDigits (padded 2 n ++ rest) = some (n, rest) := by
  rw [padded_succ le_rfl, padded_one (by omega)]
  simp only [List.cons_append, List.nil_append, twoDigits,
    Number.digit?_digitChar (show n / 10 < 10 by omega),
    Number.digit?_digitChar (show n % 10 < 10 by omega)]
  exact congrArg (fun n => some (n, rest)) (by omega)

/-- A number of four digits is one of two before another. -/
theorem padded_four (n : Nat) : padded 4 n = padded 2 (n / 100) ++ padded 2 (n % 100) := by
  rw [padded_succ (by decide), padded_succ (by decide), padded_succ (n := n % 100) le_rfl,
    padded_one (n := n % 100 / 10) (by omega), List.append_assoc]
  have htens : n / 10 % 10 = n % 100 / 10 := by omega
  have hones : n % 10 = n % 100 % 10 := by omega
  rw [Nat.div_div_eq_div_mul, htens, hones]

theorem after_cons (c : Char) (cs : List Char) : after c (c :: cs) = some cs := if_pos rfl

/-- The text of a date with a year of four digits is read as that date. -/
theorem fullDate?_text {d : Date} (hvalid : d.isValid = true) (hlow : 0 ≤ d.year)
    (hhigh : d.year ≤ 9999) (rest : List Char) : fullDate? (d.text ++ rest) = some (d, rest) := by
  obtain ⟨⟨-, hmonth⟩, -, hday⟩ := isValid_iff.1 hvalid
  have hlength := monthLength_le d.year d.month
  have htext : d.text ++ rest = padded 2 (d.year.natAbs / 100) ++ (padded 2 (d.year.natAbs % 100)
      ++ '-' :: (padded 2 d.month ++ '-' :: (padded 2 d.day ++ rest))) := by
    rw [text, yearText, if_neg (by omega), if_neg (by omega), padded_four]
    simp
  rw [htext]
  simp only [fullDate?, bind, Option.bind, pure, after_cons,
    twoDigits_padded (show d.year.natAbs / 100 < 100 by omega),
    twoDigits_padded (show d.year.natAbs % 100 < 100 by omega),
    twoDigits_padded (show d.month < 100 by omega), twoDigits_padded (show d.day < 100 by omega)]
  have hyear : ((100 * (d.year.natAbs / 100) + d.year.natAbs % 100 : Nat) : Int) = d.year := by
    omega
  rw [hyear]

/-- **The end of a day is a timestamp of that day,** if the year has four digits. -/
theorem ofText?_endText {d : Date} (hvalid : d.isValid = true) (hlow : 0 ≤ d.year)
    (hhigh : d.year ≤ 9999) : Timestamp.ofText? d.endText = some ⟨d, 23, 59, 59, 0⟩ := by
  have hclock : clock? "23:59:59.999Z".toList = some ((23, 59, 59), ".999Z".toList) := by decide
  have hfraction : afterFraction ".999Z".toList = some ['Z'] := by decide
  have hseparator : afterSeparator "T23:59:59.999Z".toList = some "23:59:59.999Z".toList := rfl
  have hoffset : offset? ['Z'] = some 0 := rfl
  have hall : Timestamp.isValid ⟨d, 23, 59, 59, 0⟩ = true := by
    simp [Timestamp.isValid, hvalid]
  simp only [Timestamp.ofText?, endText, String.toList_ofList, bind, Option.bind,
    fullDate?_text hvalid hlow hhigh, hseparator, hclock, hfraction, hoffset]
  exact if_pos hall

/-- The text of a date whose year has a sign begins with it. -/
theorem text_eq_cons {d : Date} (h : ¬(0 ≤ d.year ∧ d.year ≤ 9999)) :
    ∃ sign cs, (sign = '-' ∨ sign = '+') ∧ d.text = sign :: cs := by
  by_cases hneg : d.year < 0
  · exact ⟨'-', _, .inl rfl, by rw [text, yearText, if_pos hneg]; rfl⟩
  · exact ⟨'+', _, .inr rfl, by rw [text, yearText, if_neg hneg, if_pos (by omega)]; rfl⟩

/-- The end of a day names no day, if the year has a sign. -/
theorem day?_endText_of_signed {d : Date} (h : ¬(0 ≤ d.year ∧ d.year ≤ 9999)) :
    day? d.endText = none := by
  have htimestamp : Timestamp.ofText? d.endText = none := by
    obtain ⟨sign, cs, hsign, htext⟩ := text_eq_cons h
    have hdigit : Number.digit? sign = none := by rcases hsign with rfl | rfl <;> decide
    have hdigits (cs : List Char) : twoDigits (sign :: cs) = none := by
      cases cs <;> simp [twoDigits, hdigit]
    simp only [Timestamp.ofText?, endText, String.toList_ofList, htext, List.cons_append, fullDate?,
      hdigits, bind, Option.bind]
  have hdate : Date.ofText? d.endText = none := by
    cases he : Date.ofText? d.endText with
    | none => rfl
    | some e =>
      refine absurd ?_ (Date.ofText?_eq_some he).2
      rw [endText, String.toList_ofList]
      exact List.mem_append_right _ (by decide)
  rw [day?, htimestamp]
  exact hdate

/-- The end of a day is its own end. -/
theorem endOfDay_endText {d : Date} (hvalid : d.isValid = true) :
    endOfDay d.endText = d.endText := by
  by_cases hyear : 0 ≤ d.year ∧ d.year ≤ 9999
  · refine endOfDay_of_day? ?_
    rw [day?, ofText?_endText hvalid hyear.1 hyear.2]
    simp [Timestamp.utcDate]
  · rw [endOfDay, day?_endText_of_signed hyear]

theorem endOfDay_endOfDay (s : String) : endOfDay (endOfDay s) = endOfDay s := by
  cases hday : day? s with
  | none => simp [endOfDay, hday]
  | some d =>
    rw [endOfDay_of_day? hday]
    exact endOfDay_endText (isValid_of_day? hday)

/-- **The end of a day is a normal form of the texts that name the day.** Taking it again changes
nothing, and texts that are neither timestamps nor bare dates stay as they are. Texts of the same
day have the same end, and in the years 0 to 9999 that end is a timestamp of the same day. -/
theorem endOfDay_normal :
    (∀ s, endOfDay (endOfDay s) = endOfDay s) ∧
      (∀ s, Timestamp.ofText? s = none → Date.ofText? s = none → endOfDay s = s) ∧
      ∀ s day, DatedOn s day →
        (∀ t, DatedOn t day → endOfDay t = endOfDay s) ∧
        (number ⟨0, 1, 1⟩ ≤ day → day ≤ number ⟨9999, 12, 31⟩ →
          ∃ t, Timestamp.ofText? (endOfDay s) = some t ∧ t.dayNumber = day) := by
  refine ⟨endOfDay_endOfDay, fun s hs hd => ?_, fun s day hs => ?_⟩
  · rw [endOfDay, day?, hs]
    dsimp only
    rw [hd]
  · obtain ⟨d, hvalid, rfl, -⟩ := day?_of_datedOn hs
    rw [endOfDay_of_datedOn hvalid hs]
    refine ⟨fun t ht => endOfDay_of_datedOn hvalid ht, fun hlow hhigh => ?_⟩
    have hfirst : 0 ≤ d.year := year_le_of_number_le (by decide) hvalid hlow
    have hlast : d.year ≤ 9999 := year_le_of_number_le hvalid (by decide) hhigh
    refine ⟨_, ofText?_endText hvalid hfirst hlast, ?_⟩
    simp only [Timestamp.dayNumber]
    omega

/-- Half an hour after midnight, an hour ahead of universal time, the first of March is still the
leap day, which a bare date may write with fewer digits. -/
theorem endOfDay_normal_leapDay :
    let s := "2024-03-01T00:30:00+01:00"
    let day := number ⟨2024, 2, 29⟩
    (DatedOn s day ∧ DatedOn "2024-2-29" day ∧ number ⟨0, 1, 1⟩ ≤ day ∧
        day ≤ number ⟨9999, 12, 31⟩) ∧
      endOfDay "2024-2-29" = endOfDay s ∧
      (∃ t, Timestamp.ofText? (endOfDay s) = some t ∧ t.dayNumber = day) ∧
      (Timestamp.ofText? "yesterday" = none ∧ Date.ofText? "yesterday" = none) ∧
      endOfDay "yesterday" = "yesterday" := by
  intro s day
  have htimestamp : DatedOn s day := .inl ⟨⟨⟨2024, 3, 1⟩, 0, 30, 0, 60⟩, by decide, by decide⟩
  have hdate : DatedOn "2024-2-29" day := .inr ⟨⟨2024, 2, 29⟩, by decide, rfl⟩
  have hfirst : number ⟨0, 1, 1⟩ ≤ day := by decide
  have hlast : day ≤ number ⟨9999, 12, 31⟩ := by decide
  have hnone : Timestamp.ofText? "yesterday" = none ∧ Date.ofText? "yesterday" = none := by decide
  obtain ⟨-, hother, hday⟩ := endOfDay_normal
  obtain ⟨hsame, hread⟩ := hday s day htimestamp
  exact ⟨⟨htimestamp, hdate, hfirst, hlast⟩, hsame _ hdate, hread hfirst hlast, hnone,
    hother _ hnone.1 hnone.2⟩

end TableFilter.Calendar
