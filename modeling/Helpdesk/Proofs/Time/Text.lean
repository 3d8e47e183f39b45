import Helpdesk.Proofs.Time.Stored
import Helpdesk.Time.Rfc3339
import Mathlib.Data.List.TakeWhile

/-! Stored moments are read back. Days have valid dates that lead back to them (`toDay_ofDay`), and so
the text of a stored moment is read as the moment cut to whole seconds where the year has four digits,
and refused where it has a sign (`ofText?_toStored`). -/

namespace Helpdesk.Time
open Text.Decimal (padded isDigit)

namespace Date

theorem isValid_ofDay (n : Int) : (ofDay n).isValid := by
  obtain ⟨first, last, small⟩ := month_spec n
  have month : (ofDay n).month ≠ 0 := by
    intro zero
    rw [zero] at last
    exact absurd last (Nat.not_lt_zero _)
  have day : 1 ≤ (ofDay n).day := Nat.le_add_left 1 _
  simp only [isValid, daysInMonth, Bool.and_eq_true]
  refine ⟨⟨⟨decide_eq_true ?_, decide_eq_true ?_⟩, decide_eq_true ?_⟩, decide_eq_true ?_⟩
  all_goals omega

theorem toDay_ofDay (n : Int) : (ofDay n).toDay = n := by
  have year := (year_spec n).1
  have month := (month_spec n).1
  rw [toDay]
  omega

end Date

theorem digits?_padded (w : Nat) {n : Nat} (h : n < 10 ^ (w + 1)) (rest : List Char) :
    digits? (w + 1) (w + 1) (padded (w + 1) n ++ rest) = some (n, rest) := by
  have length := Text.Decimal.length_padded w h
  have run : ((padded (w + 1) n ++ rest).take (w + 1)).takeWhile isDigit = padded (w + 1) n := by
    rw [List.take_left' length]
    exact List.takeWhile_eq_self_iff.2 fun c hc => Text.Decimal.isDigit_of_mem_padded hc
  have long : ¬ (padded (w + 1) n).length < w + 1 := by omega
  simp only [digits?, run, if_neg long, Text.Decimal.value_padded, List.drop_left]

theorem digits?_of_not_isDigit {least most : Nat} {c : Char} (h : isDigit c = false) (cs : List Char) :
    digits? (least + 1) (most + 1) (c :: cs) = none := by
  simp [digits?, h]

theorem expect?_self (c : Char) (cs : List Char) : expect? c (c :: cs) = some cs := if_pos rfl

theorem separator?_T (cs : List Char) : separator? ('T' :: cs) = some cs := rfl

namespace Instant
variable {t : Instant}

theorem isMoment_wholeSeconds (t : Instant) : IsMoment t.seconds (t.nanos / second * second) := by
  obtain ⟨first, last, fraction⟩ := t.isMoment
  refine ⟨first, last, ?_⟩
  simp only [second] at *
  omega

def wholeSeconds (t : Instant) : Instant :=
  ⟨t.seconds, t.nanos / second * second, t.isMoment_wholeSeconds⟩

theorem strictReading?_storedChars (h : t.HasFourDigitYear) :
    strictReading? t.storedChars =
      some ⟨t.date, t.hour, t.minute, t.secondOfMinute, 0, 0⟩ := by
  obtain ⟨low, high⟩ := h
  obtain ⟨hour, minute, second_⟩ := t.clock_bounds
  obtain ⟨-, -, month⟩ := Date.month_spec (t.seconds / 86400)
  have day := Date.day_le (t.seconds / 86400)
  rw [← date] at month day
  have year : (t.date.year.natAbs : Int) = t.date.year := Int.natAbs_of_nonneg low
  have written : (⟨⟨t.date.year.natAbs, t.date.month, t.date.day⟩, t.hour, t.minute,
      t.secondOfMinute, 0, 0⟩ : Reading) = ⟨t.date, t.hour, t.minute, t.secondOfMinute, 0, 0⟩ := by
    rw [year]
  rw [storedChars_eq, yearText_of_four low high, ← written, strictReading?]
  refine Option.bind_eq_some_iff.2 ⟨_, digits?_padded 3 (by omega) _, ?_⟩
  refine Option.bind_eq_some_iff.2 ⟨_, expect?_self '-' _, ?_⟩
  refine Option.bind_eq_some_iff.2 ⟨_, digits?_padded 1 (by omega) _, ?_⟩
  refine Option.bind_eq_some_iff.2 ⟨_, expect?_self '-' _, ?_⟩
  refine Option.bind_eq_some_iff.2 ⟨_, digits?_padded 1 (by omega) _, ?_⟩
  refine Option.bind_eq_some_iff.2 ⟨_, separator?_T _, ?_⟩
  refine Option.bind_eq_some_iff.2 ⟨_, digits?_padded 1 hour _, ?_⟩
  refine Option.bind_eq_some_iff.2 ⟨_, expect?_self ':' _, ?_⟩
  refine Option.bind_eq_some_iff.2 ⟨_, digits?_padded 1 minute _, ?_⟩
  refine Option.bind_eq_some_iff.2 ⟨_, expect?_self ':' _, ?_⟩
  refine Option.bind_eq_some_iff.2 ⟨_, digits?_padded 1 second_ _, ?_⟩
  rfl

theorem strictReading?_of_not_four (h : ¬ t.HasFourDigitYear) :
    strictReading? t.storedChars = none := by
  have signed : ∃ c cs, yearText t.date.year = c :: cs ∧ isDigit c = false := by
    have long : ¬ (0 ≤ t.date.year ∧ t.date.year ≤ 9999) := h
    rw [yearText, if_neg long]
    split
    · exact ⟨_, _, rfl, by decide⟩
    · exact ⟨_, _, rfl, by decide⟩
  obtain ⟨c, cs, text, sign⟩ := signed
  rw [storedChars_eq, text, List.cons_append, strictReading?, digits?_of_not_isDigit sign]
  rfl

theorem ofSeconds?_self (t : Instant) : ofSeconds? t.seconds t.nanos = some t :=
  dif_pos t.isMoment

theorem instant?_storedReading (t : Instant) :
    Reading.instant? ⟨t.date, t.hour, t.minute, t.secondOfMinute, 0, 0⟩ = some t.wholeSeconds := by
  have day := t.secondOfDay_cast
  have hours : t.hour ≤ 23 := by rw [hour]; omega
  have minutes : t.minute ≤ 59 := by rw [minute]; omega
  have leap : t.secondOfMinute = 60 ∧ t.nanos / second = 1 ∧ t.seconds % 60 = 59 ∨
      t.secondOfMinute ≤ 59 ∧ t.secondOfMinute = t.seconds % 60 ∧ t.nanos / second = 0 := by
    rw [secondOfMinute]
    rcases t.leap_spec with zero | ⟨one, last⟩ <;> omega
  have seconds : t.secondOfMinute ≤ 60 := by omega
  have back : t.date.toDay * 86400 + ((t.hour : Int) * 3600 + t.minute * 60 +
      ((if t.secondOfMinute = 60 then 59 else t.secondOfMinute : Nat) : Int)) = t.seconds := by
    rw [date, Date.toDay_ofDay, hour, minute]
    split <;> omega
  have nanos : 0 + (if t.secondOfMinute = 60 then second else 0) = t.wholeSeconds.nanos := by
    change _ = t.nanos / second * second
    rcases leap with ⟨sixty, one, -⟩ | ⟨less, -, zero⟩
    · rw [if_pos sixty, one, Nat.one_mul, Nat.zero_add]
    · rw [if_neg (by omega), zero, Nat.zero_mul]
  have universal : (0 : Int).natAbs < 86400 := by decide
  rw [Reading.instant?, if_pos ⟨Date.isValid_ofDay _, hours, minutes, seconds, universal⟩]
  simp only [back, nanos, Int.sub_zero, if_pos (And.intro t.isMoment.1 t.isMoment.2.1)]
  exact t.wholeSeconds.ofSeconds?_self

theorem ofText?_toStored (t : Instant) :
    ofText? t.toStored = if t.HasFourDigitYear then some t.wholeSeconds else none := by
  rw [ofText?, toStored, String.toList_ofList]
  split
  next four => rw [strictReading?_storedChars four, Option.bind_some, instant?_storedReading]
  next signed => rw [strictReading?_of_not_four signed, Option.bind_none]

end Instant
end Helpdesk.Time
