import Mathlib.Data.Prod.Lex
import Mathlib.Order.MinMax

/-!
# The calendar

The Gregorian date of a day number. Years are counted from March inside, so that the leap day is
the last one: 400 years have 146097 days, a century of them has 36524 (the last one a day more),
four years have 1461 (without a leap day one less), and five months have 153.
-/

namespace ITrace

/-- A date, with the months and days counted from 1. -/
structure Date where
  year : Int
  month : Int
  day : Int
  month_range : 1 ≤ month ∧ month ≤ 12
  day_range : 1 ≤ day ∧ day ≤ 31

/-- A date, ordered by the year, then by the month, then by the day. -/
def Date.calendar (d : Date) : Int ×ₗ Int ×ₗ Int := toLex (d.year, toLex (d.month, d.day))

/-- A year that begins in March, and a day of it. -/
structure MarchYear where
  year : Int
  dayOfYear : Int
  range : 0 ≤ dayOfYear ∧ dayOfYear ≤ 365

/-- The whole parts of `size` in `x`, of which there are at most `last`. -/
def parts (size last x : Int) : Int := min (x / size) last

/-- What the whole parts leave of `x`. -/
def rest (size last x : Int) : Int := x - size * parts size last x

/-- The days that the centuries leave of an era. -/
abbrev dayOfCentury (n : Int) : Int := rest 36524 3 (n % 146097)

/-- The days that the groups of four years leave of a century. -/
abbrev dayOfFour (n : Int) : Int := rest 1461 24 (dayOfCentury n)

theorem dayOfCentury_range (n : Int) : 0 ≤ dayOfCentury n ∧ dayOfCentury n ≤ 36524 := by
  simp only [dayOfCentury, rest, parts]
  omega

theorem dayOfFour_range (n : Int) : 0 ≤ dayOfFour n ∧ dayOfFour n ≤ 1460 := by
  have hrange := dayOfCentury_range n
  simp only [dayOfFour, rest, parts] at *
  omega

/-- The year that day `n` is in, counted from the first of March of the year 0. -/
def marchYear (n : Int) : MarchYear where
  year := 400 * (n / 146097) + 100 * parts 36524 3 (n % 146097) +
    4 * parts 1461 24 (dayOfCentury n) + parts 365 3 (dayOfFour n)
  dayOfYear := rest 365 3 (dayOfFour n)
  range := by
    have hrange := dayOfFour_range n
    simp only [rest, parts]
    omega

/-- The months from March on. -/
def MarchYear.monthIndex (y : MarchYear) : Int := (5 * y.dayOfYear + 2) / 153

def MarchYear.date (y : MarchYear) : Date where
  year := if y.monthIndex < 10 then y.year else y.year + 1
  month := if y.monthIndex < 10 then y.monthIndex + 3 else y.monthIndex - 9
  day := y.dayOfYear - (153 * y.monthIndex + 2) / 5 + 1
  month_range := by
    have hrange := y.range
    unfold MarchYear.monthIndex
    split <;> omega
  day_range := by
    have hrange := y.range
    unfold MarchYear.monthIndex
    omega

/-- The date of the day `n`, counted from 1970-01-01. -/
def civil (n : Int) : Date := (marchYear (n + 719468)).date

/-- More days are more whole parts, or more is left. -/
theorem parts_lt {size : Int} (hsize : 0 < size) (last : Int) {x y : Int} (h : x < y) :
    parts size last x < parts size last y ∨
      parts size last x = parts size last y ∧ rest size last x < rest size last y := by
  have hle : parts size last x ≤ parts size last y :=
    min_le_min (Int.ediv_le_ediv hsize (Int.le_of_lt h)) (Int.le_refl last)
  rcases Int.lt_or_eq_of_le hle with hlt | heq
  · exact .inl hlt
  · refine .inr ⟨heq, ?_⟩
    rw [rest, rest, heq]
    omega

theorem parts_range {size last x : Int} (hsize : 0 < size) (hlast : 0 ≤ last) (hx : 0 ≤ x) :
    0 ≤ parts size last x ∧ parts size last x ≤ last :=
  ⟨le_min (Int.ediv_nonneg hx (Int.le_of_lt hsize)) hlast, min_le_right _ _⟩

theorem marchYear_lt {m n : Int} (h : m < n) :
    (marchYear m).year < (marchYear n).year ∨
      (marchYear m).year = (marchYear n).year ∧
        (marchYear m).dayOfYear < (marchYear n).dayOfYear := by
  have hcenturies (n : Int) : 0 ≤ parts 36524 3 (n % 146097) ∧ parts 36524 3 (n % 146097) ≤ 3 :=
    parts_range (by decide) (by decide) (by omega)
  have hfours (n : Int) : 0 ≤ parts 1461 24 (dayOfCentury n) ∧ parts 1461 24 (dayOfCentury n) ≤ 24 :=
    parts_range (by decide) (by decide) (dayOfCentury_range n).1
  have hyears (n : Int) : 0 ≤ parts 365 3 (dayOfFour n) ∧ parts 365 3 (dayOfFour n) ≤ 3 :=
    parts_range (by decide) (by decide) (dayOfFour_range n).1
  have hera : m / 146097 < n / 146097 ∨ m / 146097 = n / 146097 ∧ m % 146097 < n % 146097 := by
    omega
  have hm := And.intro (hcenturies m) (And.intro (hfours m) (hyears m))
  have hn := And.intro (hcenturies n) (And.intro (hfours n) (hyears n))
  simp only [marchYear, dayOfFour, dayOfCentury] at *
  rcases hera with hlt | ⟨heq, hlt⟩
  · omega
  rcases parts_lt (by decide : (0 : Int) < 36524) 3 hlt with hlt | ⟨heq, hlt⟩
  · omega
  rcases parts_lt (by decide : (0 : Int) < 1461) 24 hlt with hlt | ⟨heq, hlt⟩
  · omega
  rcases parts_lt (by decide : (0 : Int) < 365) 3 hlt with hlt | ⟨heq, hlt⟩
  · omega
  · omega

theorem calendar_date_lt {y z : MarchYear}
    (h : y.year < z.year ∨ y.year = z.year ∧ y.dayOfYear < z.dayOfYear) :
    y.date.calendar < z.date.calendar := by
  have hy := y.range
  have hz := z.range
  simp only [Date.calendar, Prod.Lex.toLex_lt_toLex, MarchYear.date]
  unfold MarchYear.monthIndex
  split <;> split <;> omega

/-- A later day has a later date. -/
theorem civil_lt {m n : Int} (h : m < n) : (civil m).calendar < (civil n).calendar := by
  have hlt : m + 719468 < n + 719468 := by omega
  exact calendar_date_lt (marchYear_lt hlt)

/-- A date is the date of one day. -/
theorem civil_injective {m n : Int} (h : (civil m).calendar = (civil n).calendar) : m = n := by
  have hirrefl (d : Date) : ¬ d.calendar < d.calendar := by
    simp [Date.calendar]
  rcases Int.lt_trichotomy m n with hlt | heq | hgt
  · have hdate := civil_lt hlt
    rw [h] at hdate
    exact absurd hdate (hirrefl _)
  · exact heq
  · have hdate := civil_lt hgt
    rw [h] at hdate
    exact absurd hdate (hirrefl _)

end ITrace
