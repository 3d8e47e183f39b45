import Helpdesk.Proofs.Text.Order
import Helpdesk.Proofs.Time.Text

/-! The order of moments and of the texts that are stored for them. A moment cut to whole seconds
determines its text and is determined by it, the earlier one has the smaller bytes, and reading the text
leads back to it (`toStored_sorts`). -/

namespace Helpdesk.Time.Instant
open Text.Utf8 (encode encode_lt_encode encode_lt_iff)

/-- The order of moments; a leap second comes after the second that it is counted with. -/
def Before (a b : Instant) : Prop :=
  a.seconds < b.seconds ∨ a.seconds = b.seconds ∧ a.nanos < b.nanos

instance (a b : Instant) : Decidable (a.Before b) := inferInstanceAs (Decidable (_ ∨ _))

section Cut
variable {a b : Instant}

theorem wholeSeconds_before_iff : a.wholeSeconds.Before b.wholeSeconds ↔ a.cut < b.cut := by
  have nanos : a.nanos / second * second < b.nanos / second * second ↔
      a.nanos / second < b.nanos / second := Nat.mul_lt_mul_right (by decide)
  rw [cut_lt_iff, ← nanos]
  rfl

theorem wholeSeconds_eq_iff : a.wholeSeconds = b.wholeSeconds ↔ a.cut = b.cut := by
  have nanos : a.nanos / second * second = b.nanos / second * second ↔
      a.nanos / second = b.nanos / second := Nat.mul_left_inj (by decide)
  rw [cut_eq_iff, ← nanos, wholeSeconds, wholeSeconds, mk.injEq]

theorem toStored_lt_iff (ha : a.HasFourDigitYear) (hb : b.HasFourDigitYear) :
    a.toStored < b.toStored ↔ a.cut < b.cut := by
  refine ⟨fun texts => ?_, toStored_lt_of_cut_lt hb.1 hb.2⟩
  rcases lt_trichotomy a.cut b.cut with less | same | greater
  · exact less
  · rw [toStored_eq_of_cut_eq same] at texts
    exact absurd texts (lt_irrefl _)
  · exact absurd texts (lt_asymm (toStored_lt_of_cut_lt ha.1 ha.2 greater))

theorem toStored_eq_iff (ha : a.HasFourDigitYear) (hb : b.HasFourDigitYear) :
    a.toStored = b.toStored ↔ a.cut = b.cut := by
  refine ⟨fun texts => ?_, toStored_eq_of_cut_eq⟩
  rcases lt_trichotomy a.cut b.cut with less | same | greater
  · exact absurd texts (toStored_lt_of_cut_lt hb.1 hb.2 less).ne
  · exact same
  · exact absurd texts (toStored_lt_of_cut_lt ha.1 ha.2 greater).ne'

/-- Before the first year the sign of the year decides. -/
theorem toStored_lt_of_negative (ha : a.date.year < 0) (hb : b.HasFourDigitYear) :
    a.toStored < b.toStored := by
  rw [toStored, toStored, String.lt_iff_toList_lt, String.toList_ofList, String.toList_ofList,
    storedChars_eq, storedChars_eq]
  exact yearText_append_lt ha hb.1 hb.2 _ _

/-- Stored moments sort by their bytes as the moments do when they are cut to whole seconds, and each
text is read back as the moment that was cut. Moments before the first year come before all these. -/
theorem toStored_sorts (ha : a.HasFourDigitYear) (hb : b.HasFourDigitYear) :
    (encode a.toStored < encode b.toStored ↔ a.wholeSeconds.Before b.wholeSeconds) ∧
      (a.toStored = b.toStored ↔ a.wholeSeconds = b.wholeSeconds) ∧
      ofText? a.toStored = some a.wholeSeconds ∧
      ∀ c : Instant, c.date.year < 0 → encode c.toStored < encode a.toStored := by
  refine ⟨?_, ?_, ?_, fun c negative => encode_lt_encode (toStored_lt_of_negative negative ha)⟩
  · rw [encode_lt_iff, toStored_lt_iff ha hb, wholeSeconds_before_iff]
  · rw [toStored_eq_iff ha hb, wholeSeconds_eq_iff]
  · rw [ofText?_toStored, if_pos ha]

end Cut

namespace NewYear

def last : Instant := ⟨1483228799, 700000000, by decide⟩

def leap : Instant := ⟨1483228799, 1100000000, by decide⟩

def beforeFirst : Instant := ⟨-62167219201, 0, by decide⟩

/-- The two moments share their second, and yet the leap second is stored as a later one. -/
theorem stored_leap : (last.HasFourDigitYear ∧ leap.HasFourDigitYear ∧ beforeFirst.date.year < 0) ∧
    encode last.toStored < encode leap.toStored ∧ last.toStored ≠ leap.toStored ∧
    ofText? last.toStored = some ⟨1483228799, 0, by decide⟩ ∧
    encode beforeFirst.toStored < encode last.toStored := by
  have years : last.HasFourDigitYear ∧ leap.HasFourDigitYear ∧ beforeFirst.date.year < 0 := by decide
  obtain ⟨bytes, texts, read, negative⟩ := toStored_sorts years.1 years.2.1
  have before : last.wholeSeconds.Before leap.wholeSeconds := by decide
  have apart : last.wholeSeconds ≠ leap.wholeSeconds := by decide
  exact ⟨years, bytes.2 before, fun same => apart (texts.1 same), read, negative _ years.2.2⟩

end NewYear
end Helpdesk.Time.Instant
