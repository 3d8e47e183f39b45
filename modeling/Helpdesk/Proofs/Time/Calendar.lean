import Helpdesk.Time.Calendar
import Mathlib.Order.Monotone.Basic
import Mathlib.Tactic.IntervalCases

/-! The order of dates. A day lies within its year and its month (`year_spec`, `month_spec`), so
that of two days the earlier one has the earlier date (`ofDay_before`). -/

namespace Helpdesk.Time

theorem daysBeforeYear_mono {x y : Int} (h : x ≤ y) : daysBeforeYear x ≤ daysBeforeYear y := by
  have step (z : Int) : daysBeforeYear z ≤ daysBeforeYear (z + 1) := by
    rw [daysBeforeYear_succ, daysInYear]
    split <;> omega
  exact monotone_int_of_le_succ step h

theorem yearOfDay_spec (n : Int) :
    daysBeforeYear (yearOfDay n) ≤ n ∧ n < daysBeforeYear (yearOfDay n + 1) := by
  simp only [yearOfDay]
  split
  next early =>
    refine ⟨?_, by simpa using early⟩
    simp only [daysBeforeYear] at *
    omega
  next notEarly =>
    split
    next late =>
      refine ⟨late, ?_⟩
      simp only [daysBeforeYear] at *
      omega
    next notLate => exact ⟨by omega, by omega⟩

theorem yearOfDay_mono {m n : Int} (h : m ≤ n) : yearOfDay m ≤ yearOfDay n := by
  by_contra less
  have next : yearOfDay n + 1 ≤ yearOfDay m := by omega
  have years := daysBeforeYear_mono next
  have begun := (yearOfDay_spec m).1
  have ended := (yearOfDay_spec n).2
  omega

theorem daysBeforeMonth_mono (leap : Bool) {m n : Nat} (h : m ≤ n) :
    daysBeforeMonth leap m ≤ daysBeforeMonth leap n := by
  have step (k : Nat) : daysBeforeMonth leap k ≤ daysBeforeMonth leap (k + 1) := by
    by_cases inYear : k < 13
    · interval_cases k <;> cases leap <;> decide
    · obtain ⟨i, rfl⟩ := Nat.exists_eq_add_of_le (Nat.le_of_not_lt inYear)
      simp [daysBeforeMonth, Nat.add_comm 13 i]
  exact monotone_nat_of_le_succ step h

theorem monthUpTo_spec {leap : Bool} {day m : Nat} (h : day < daysBeforeMonth leap (m + 1)) :
    daysBeforeMonth leap (monthUpTo leap day m) ≤ day ∧
      day < daysBeforeMonth leap (monthUpTo leap day m + 1) ∧ monthUpTo leap day m ≤ m := by
  induction m with
  | zero => exact absurd h (Nat.not_lt_zero day)
  | succ m ih =>
    rw [monthUpTo]
    split
    next begun => exact ⟨begun, h, Nat.le_refl _⟩
    next notBegun =>
      obtain ⟨first, last, small⟩ := ih (by omega)
      exact ⟨first, last, by omega⟩

theorem daysBeforeMonth_thirteen (y : Int) :
    (daysBeforeMonth (isLeapYear y) 13 : Int) = daysInYear y := by
  rw [daysInYear]
  cases isLeapYear y <;> rfl

namespace Date

def Before (d e : Date) : Prop :=
  d.year < e.year ∨ d.year = e.year ∧ (d.month < e.month ∨ d.month = e.month ∧ d.day < e.day)

def dayOfYear (n : Int) : Nat := (n + epochDay - daysBeforeYear (ofDay n).year).toNat

theorem year_spec (n : Int) :
    daysBeforeYear (ofDay n).year + dayOfYear n = n + epochDay ∧
      dayOfYear n < daysBeforeMonth (isLeapYear (ofDay n).year) 13 := by
  obtain ⟨begun, notEnded⟩ := yearOfDay_spec (n + epochDay)
  have year : (ofDay n).year = yearOfDay (n + epochDay) := rfl
  rw [daysBeforeYear_succ, ← daysBeforeMonth_thirteen] at notEnded
  rw [dayOfYear, year]
  constructor <;> omega

theorem month_spec (n : Int) :
    daysBeforeMonth (isLeapYear (ofDay n).year) (ofDay n).month + (ofDay n).day = dayOfYear n + 1 ∧
      dayOfYear n < daysBeforeMonth (isLeapYear (ofDay n).year) ((ofDay n).month + 1) ∧
      (ofDay n).month ≤ 12 := by
  obtain ⟨begun, notEnded, small⟩ := monthUpTo_spec (year_spec n).2
  refine ⟨?_, notEnded, small⟩
  have day : (ofDay n).day = dayOfYear n -
      daysBeforeMonth (isLeapYear (ofDay n).year) (ofDay n).month + 1 := rfl
  have month : (ofDay n).month = monthUpTo (isLeapYear (ofDay n).year) (dayOfYear n) 12 := rfl
  rw [← month] at begun
  omega

theorem day_le (n : Int) : (ofDay n).day ≤ 31 := by
  obtain ⟨first, last, small⟩ := month_spec n
  have length : ∀ leap, ∀ m ≤ 12,
      daysBeforeMonth leap (m + 1) ≤ daysBeforeMonth leap m + 31 := by decide
  have long := length (isLeapYear (ofDay n).year) (ofDay n).month small
  omega

theorem year_mono {m n : Int} (h : m ≤ n) : (ofDay m).year ≤ (ofDay n).year :=
  yearOfDay_mono (by omega)

theorem ofDay_before {m n : Int} (h : m < n) : (ofDay m).Before (ofDay n) := by
  rw [Before]
  rcases Int.lt_or_eq_of_le (year_mono (Int.le_of_lt h)) with earlier | sameYear
  · exact .inl earlier
  refine .inr ⟨sameYear, ?_⟩
  have first := (year_spec m).1
  have second := (year_spec n).1
  rw [sameYear] at first
  have days : dayOfYear m < dayOfYear n := by omega
  obtain ⟨firstDay, firstEnd, -⟩ := month_spec m
  obtain ⟨secondDay, secondEnd, -⟩ := month_spec n
  rw [sameYear] at firstDay firstEnd
  by_cases later : (ofDay n).month < (ofDay m).month
  · have months := daysBeforeMonth_mono (isLeapYear (ofDay n).year) later
    rw [Nat.succ_eq_add_one] at months
    have positive : 1 ≤ (ofDay m).day := Nat.le_add_left 1 _
    omega
  · rcases Nat.lt_or_eq_of_le (Nat.le_of_not_lt later) with earlier | sameMonth
    · exact .inl earlier
    · rw [sameMonth] at firstDay
      exact .inr ⟨sameMonth, by omega⟩

end Date
end Helpdesk.Time
