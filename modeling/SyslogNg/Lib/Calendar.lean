import Mathlib.Data.Int.Basic

/-!
# The Gregorian calendar

Days are counted from 1970-01-01. A year starts in March here, so that the leap day is its last day,
and the calendar repeats every 400 years, which have 146097 days.
-/

namespace SyslogNg.Lib

structure Date where
  year : Int
  month : Int
  day : Int
  deriving DecidableEq, Repr

def daysBeforeYear (yoe : Int) : Int := 365 * yoe + yoe / 4 - yoe / 100

def daysBeforeMonth (mp : Int) : Int := (153 * mp + 2) / 5

/-- The year of an era that has a day: the century, the four years of the century, the year. -/
def yearOfEra (doe : Int) : Int :=
  let century := min (doe / 36524) 3
  let doc := doe - 36524 * century
  let four := doc / 1461
  100 * century + 4 * four + min ((doc - 1461 * four) / 365) 3

def monthOfYear (doy : Int) : Int := (5 * doy + 2) / 153

def dateOfDay (days : Int) : Date :=
  let z := days + 719468
  let era := z / 146097
  let doe := z % 146097
  let yoe := yearOfEra doe
  let doy := doe - daysBeforeYear yoe
  let mp := monthOfYear doy
  let month := if mp < 10 then mp + 3 else mp - 9
  ⟨yoe + era * 400 + (if month ≤ 2 then 1 else 0), month, doy - daysBeforeMonth mp + 1⟩

def dayOfDate (date : Date) : Int :=
  let y := if date.month ≤ 2 then date.year - 1 else date.year
  let mp := if date.month > 2 then date.month - 3 else date.month + 9
  y / 400 * 146097 + daysBeforeYear (y % 400) + daysBeforeMonth mp + date.day - 1 - 719468

theorem yearOfEra_bounds {doe : Int} (h0 : 0 ≤ doe) (h1 : doe < 146097) :
    (0 ≤ yearOfEra doe ∧ yearOfEra doe < 400) ∧
      0 ≤ doe - daysBeforeYear (yearOfEra doe) ∧ doe - daysBeforeYear (yearOfEra doe) < 366 := by
  unfold yearOfEra
  extract_lets century doc four
  have hcentury : 0 ≤ century ∧ century ≤ 3 ∧ 0 ≤ doc ∧ doc < 36525 := by
    omega
  have hfour : 0 ≤ four ∧ four ≤ 24 ∧ 0 ≤ doc - 1461 * four ∧ doc - 1461 * four < 1461 := by
    omega
  generalize hyear : min ((doc - 1461 * four) / 365) 3 = year
  have hlast : 0 ≤ year ∧ year ≤ 3 := by
    omega
  have hbefore : daysBeforeYear (100 * century + 4 * four + year) =
      36524 * century + 1461 * four + 365 * year := by
    have hfours : (100 * century + 4 * four + year) / 4 = 25 * century + four := by
      clear_value century four
      omega
    have hcenturies : (100 * century + 4 * four + year) / 100 = century := by
      clear_value century four
      omega
    unfold daysBeforeYear
    rw [hfours, hcenturies]
    omega
  rw [hbefore]
  omega

theorem monthOfYear_bounds {doy : Int} (h0 : 0 ≤ doy) (h1 : doy < 366) :
    0 ≤ monthOfYear doy ∧ monthOfYear doy < 12 := by
  unfold monthOfYear
  omega

theorem dayOfMonth_bounds (doy : Int) :
    0 ≤ doy - daysBeforeMonth (monthOfYear doy) ∧ doy - daysBeforeMonth (monthOfYear doy) < 31 := by
  unfold daysBeforeMonth monthOfYear
  omega

variable (days : Int)

theorem dateOfDay_parts :
    ∃ era yoe mp dom : Int, (0 ≤ yoe ∧ yoe < 400) ∧ (0 ≤ mp ∧ mp < 12) ∧ (0 ≤ dom ∧ dom < 31) ∧
      days = era * 146097 + daysBeforeYear yoe + daysBeforeMonth mp + dom - 719468 ∧
      dateOfDay days =
        ⟨yoe + era * 400 + (if mp < 10 then 0 else 1), (if mp < 10 then mp + 3 else mp - 9), dom + 1⟩ := by
  have hdoe : 0 ≤ (days + 719468) % 146097 ∧ (days + 719468) % 146097 < 146097 := by
    omega
  obtain ⟨hyear, hdoy⟩ := yearOfEra_bounds hdoe.1 hdoe.2
  have hmonth := monthOfYear_bounds hdoy.1 hdoy.2
  have hday := dayOfMonth_bounds
    ((days + 719468) % 146097 - daysBeforeYear (yearOfEra ((days + 719468) % 146097)))
  refine ⟨(days + 719468) / 146097, _, _, _, hyear, hmonth, hday, ?_, ?_⟩
  · omega
  · unfold dateOfDay
    simp only [Date.mk.injEq, and_true]
    split
    · rw [if_neg (by omega)]
    · rw [if_pos (by omega)]

theorem dayOfDate_dateOfDay : dayOfDate (dateOfDay days) = days := by
  obtain ⟨era, yoe, mp, dom, hyoe, hmp, hdom, hdays, hdate⟩ := dateOfDay_parts days
  rw [hdate]
  unfold dayOfDate
  simp only
  by_cases hm : mp < 10
  · rw [if_pos hm, if_pos hm, if_neg (by omega), if_pos (by omega)]
    have hera : (yoe + era * 400 + 0) / 400 = era := by omega
    have hrest : (yoe + era * 400 + 0) % 400 = yoe := by omega
    have hmonth : mp + 3 - 3 = mp := by omega
    rw [hera, hrest, hmonth]
    omega
  · rw [if_neg hm, if_neg hm, if_pos (by omega), if_neg (by omega)]
    have hera : (yoe + era * 400 + 1 - 1) / 400 = era := by omega
    have hrest : (yoe + era * 400 + 1 - 1) % 400 = yoe := by omega
    have hmonth : mp - 9 + 9 = mp := by omega
    rw [hera, hrest, hmonth]
    omega

theorem dateOfDay_injective {a b : Int} (h : dateOfDay a = dateOfDay b) : a = b := by
  rw [← dayOfDate_dateOfDay a, h, dayOfDate_dateOfDay]

theorem dateOfDay_month : 1 ≤ (dateOfDay days).month ∧ (dateOfDay days).month ≤ 12 := by
  obtain ⟨era, yoe, mp, dom, -, hmp, -, -, hdate⟩ := dateOfDay_parts days
  rw [hdate]
  simp only
  split
  · omega
  · omega

theorem dateOfDay_day : 1 ≤ (dateOfDay days).day ∧ (dateOfDay days).day ≤ 31 := by
  obtain ⟨era, yoe, mp, dom, -, -, hdom, -, hdate⟩ := dateOfDay_parts days
  rw [hdate]
  simp only
  omega

example : dateOfDay 19782 = ⟨2024, 2, 29⟩ := by decide

end SyslogNg.Lib
