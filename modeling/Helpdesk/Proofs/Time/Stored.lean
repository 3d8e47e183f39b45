import Helpdesk.Proofs.Text.Decimal
import Helpdesk.Proofs.Time.Calendar
import Helpdesk.Store.Cell
import Mathlib.Data.Prod.Lex
import Mathlib.Data.String.Basic

/-! Stored moments sort as texts. Numbers of one width sort as their digits do, and so two texts of
stored moments compare as the moments cut to whole seconds, a leap second being a second of its own
(`compareTexts_toStored`). One of the two may lie before the first year. Counting back from a moment
fails only where it would lead before all moments (`minusMillis?_eq_none_iff`). -/

namespace Helpdesk

namespace Time
open Text.Decimal (padded padded_append_lt padded_eq_cons)

theorem yearText_of_four {y : Int} (low : 0 ≤ y) (high : y ≤ 9999) :
    yearText y = padded 4 y.natAbs :=
  if_pos ⟨low, high⟩

theorem yearText_append_lt {x y : Int} (negative : x < 0) (low : 0 ≤ y) (high : y ≤ 9999)
    (as bs : List Char) :
    yearText x ++ as < yearText y ++ bs := by
  have signed : yearText x = '-' :: padded 4 x.natAbs := by
    rw [yearText, if_neg (by omega), if_pos negative]
  obtain ⟨c, cs, chars, digit⟩ := padded_eq_cons 4 y.natAbs
  rw [signed, yearText_of_four low high, chars, List.cons_append, List.cons_append,
    List.cons_lt_cons_iff]
  simp only [Text.Decimal.isDigit, Char.isDigit, Bool.and_eq_true, decide_eq_true_eq] at digit
  exact .inl (Char.lt_def.2 (UInt32.lt_of_lt_of_le (by decide) digit.1))

namespace Instant
variable {t a b : Instant}

/-- A moment cut to whole seconds; a leap second comes after the second that it is counted with. -/
def cut (t : Instant) : ℤ ×ₗ ℕ := toLex (t.seconds, t.nanos / second)

def HasFourDigitYear (t : Instant) : Prop := 0 ≤ t.date.year ∧ t.date.year ≤ 9999

instance (t : Instant) : Decidable t.HasFourDigitYear := inferInstanceAs (Decidable (_ ∧ _))

theorem cut_lt_iff : a.cut < b.cut ↔
    a.seconds < b.seconds ∨ a.seconds = b.seconds ∧ a.nanos / second < b.nanos / second :=
  Prod.Lex.toLex_lt_toLex

theorem cut_eq_iff : a.cut = b.cut ↔ a.seconds = b.seconds ∧ a.nanos / second = b.nanos / second :=
  toLex.injective.eq_iff.trans Prod.ext_iff

theorem leap_spec (t : Instant) :
    t.nanos / second = 0 ∨ t.nanos / second = 1 ∧ t.seconds % 60 = 59 := by
  have whole := t.isMoment.2.2
  simp only [second] at *
  omega

theorem secondOfDay_cast (t : Instant) : (t.secondOfDay : Int) = t.seconds % 86400 := by
  rw [secondOfDay]
  omega

theorem clock_before (sameDay : a.seconds / 86400 = b.seconds / 86400) (h : a.cut < b.cut) :
    a.hour < b.hour ∨ a.hour = b.hour ∧
      (a.minute < b.minute ∨ a.minute = b.minute ∧ a.secondOfMinute < b.secondOfMinute) := by
  have first := a.secondOfDay_cast
  have second_ := b.secondOfDay_cast
  have firstLeap := a.leap_spec
  have secondLeap := b.leap_spec
  rw [cut_lt_iff] at h
  simp only [hour, minute, secondOfMinute]
  generalize a.nanos / second = i at *
  generalize b.nanos / second = j at *
  omega

theorem clock_bounds (t : Instant) : t.hour < 100 ∧ t.minute < 100 ∧ t.secondOfMinute < 100 := by
  have leap := t.leap_spec
  have day := t.secondOfDay_cast
  rw [hour, minute, secondOfMinute]
  omega

theorem year_le_of_seconds_le (h : a.seconds ≤ b.seconds) : a.date.year ≤ b.date.year :=
  Date.year_mono (Int.ediv_le_ediv (by decide) h)

theorem storedChars_eq (t : Instant) : t.storedChars =
    yearText t.date.year ++ ('-' :: (padded 2 t.date.month ++ ('-' :: (padded 2 t.date.day ++
      ('T' :: (padded 2 t.hour ++
      (':' :: (padded 2 t.minute ++ (':' :: (padded 2 t.secondOfMinute ++ ['Z'])))))))))) := by
  simp [storedChars, dateText, clockText]

theorem toStored_eq_of_cut_eq (h : a.cut = b.cut) : a.toStored = b.toStored := by
  obtain ⟨seconds, leap⟩ := cut_eq_iff.1 h
  simp only [toStored, storedChars, clockText, date, hour, minute, secondOfMinute,
    secondOfDay, seconds, leap]

theorem toStored_lt_of_cut_lt (low : 0 ≤ b.date.year) (high : b.date.year ≤ 9999)
    (h : a.cut < b.cut) :
    a.toStored < b.toStored := by
  have seconds : a.seconds ≤ b.seconds := by
    rcases cut_lt_iff.1 h with less | ⟨same, -⟩ <;> omega
  have years := year_le_of_seconds_le seconds
  rw [toStored, toStored, String.lt_iff_toList_lt, String.toList_ofList,
    String.toList_ofList, storedChars_eq, storedChars_eq]
  by_cases negative : a.date.year < 0
  · exact yearText_append_lt negative low high _ _
  · have first : 0 ≤ a.date.year := Int.not_lt.1 negative
    obtain ⟨firstHour, firstMinute, firstSecond⟩ := a.clock_bounds
    obtain ⟨secondHour, secondMinute, secondSecond⟩ := b.clock_bounds
    obtain ⟨-, -, firstMonth⟩ := Date.month_spec (a.seconds / 86400)
    obtain ⟨-, -, secondMonth⟩ := Date.month_spec (b.seconds / 86400)
    have firstDay := Date.day_le (a.seconds / 86400)
    have secondDay := Date.day_le (b.seconds / 86400)
    rw [← date] at firstMonth secondMonth firstDay secondDay
    rw [yearText_of_four first (by omega), yearText_of_four low high,
      padded_append_lt 3 (by omega) (by omega), List.cons_lt_cons_self,
      padded_append_lt 1 (by omega) (by omega), List.cons_lt_cons_self,
      padded_append_lt 1 (by omega) (by omega), List.cons_lt_cons_self,
      padded_append_lt 1 (by omega) (by omega), List.cons_lt_cons_self,
      padded_append_lt 1 (by omega) (by omega), List.cons_lt_cons_self,
      padded_append_lt 1 (by omega) (by omega)]
    have days : a.seconds / 86400 ≤ b.seconds / 86400 := Int.ediv_le_ediv (by decide) seconds
    rcases Int.lt_or_eq_of_le days with less | sameDay
    · have before := Date.ofDay_before less
      rw [Date.Before, ← date, ← date] at before
      omega
    · have sameDate : a.date = b.date := congrArg Date.ofDay sameDay
      have clock := clock_before sameDay h
      rw [sameDate]
      omega

theorem compareTexts_toStored (ha : a.HasFourDigitYear) (hb : b.date.year ≤ 9999) :
    Store.Cell.compareTexts a.toStored b.toStored = compare a.cut b.cut := by
  rw [Store.Cell.compareTexts]
  rcases lt_trichotomy a.cut b.cut with less | same | greater
  · have low : 0 ≤ b.date.year := by
      refine ha.1.trans (year_le_of_seconds_le ?_)
      rcases cut_lt_iff.1 less with less | ⟨same, -⟩ <;> omega
    rw [if_pos (toStored_lt_of_cut_lt low hb less), compare_lt_iff_lt.2 less]
  · have texts := toStored_eq_of_cut_eq same
    rw [texts, if_neg (lt_irrefl _), if_pos rfl, compare_eq_iff_eq.2 same]
  · have texts := toStored_lt_of_cut_lt ha.1 ha.2 greater
    rw [if_neg (not_lt_of_gt texts), if_neg texts.ne', compare_gt_iff_gt.2 greater]

theorem seconds_le_of_minusMillis? {millis : Nat} (h : t.minusMillis? millis = some a) :
    a.seconds ≤ t.seconds := by
  have seconds_of_some {i : Int} {n : Nat} (h : ofSeconds? i n = some a) : a.seconds = i := by
    rw [ofSeconds?] at h
    split at h
    · cases h
      rfl
    · cases h
  rw [minusMillis?] at h
  by_cases leap : t.isLeap
  · simp only [leap, Bool.true_and, decide_eq_true_eq, if_true] at h
    split at h
    · rw [seconds_of_some h]
    next long =>
      split at h
      all_goals
        rw [seconds_of_some h]
        omega
  · simp only [leap, Bool.false_and, Bool.false_eq_true, if_false] at h
    split at h
    all_goals
      rw [seconds_of_some h]
      omega

def HasPast (t : Instant) (millis : Nat) : Prop :=
  firstSecond * second ≤ t.seconds * second + t.nanos - millis * 1000000

theorem minusMillis?_eq_none_iff {millis : Nat} :
    t.minusMillis? millis = none ↔ ¬ t.HasPast millis := by
  have none_iff (i : Int) (n : Nat) : ofSeconds? i n = none ↔ ¬ (-8334601228800 ≤ i ∧
      i ≤ 8210266876799 ∧ (n < 1000000000 ∨ n < 2 * 1000000000 ∧ i % 60 = 59)) := by
    rw [ofSeconds?]
    split
    next moment => exact iff_of_false nofun (not_not.2 moment)
    next outside => exact iff_of_true rfl outside
  obtain ⟨low, high, fraction⟩ := t.isMoment
  rw [minusMillis?, HasPast]
  simp only [isLeap, firstSecond, lastSecond, second] at *
  by_cases leap : 1000000000 ≤ t.nanos
  · simp only [leap, decide_true, Bool.true_and, decide_eq_true_eq, if_true]
    split
    · rw [none_iff]
      omega
    · split
      all_goals
        rw [none_iff]
        omega
  · simp only [leap, decide_false, Bool.false_and, Bool.false_eq_true, if_false]
    split
    all_goals
      rw [none_iff]
      omega

end Instant
end Time
end Helpdesk
