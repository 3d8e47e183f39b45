/-! The whole numbers that 64 bits hold, without and with a sign. -/

namespace Helpdesk.Bits64

def limit : Nat := 18446744073709551616

def signedLimit : Int := 9223372036854775808

def fitsSigned (i : Int) : Bool := -signedLimit ≤ i && i < signedLimit

theorem fitsSigned_iff {i : Int} :
    fitsSigned i ↔ -9223372036854775808 ≤ i ∧ i < 9223372036854775808 := by
  simp only [fitsSigned, Bool.and_eq_true, decide_eq_true_eq]
  rfl

theorem fitsSigned_toInt (i : Int64) : fitsSigned i.toInt := by
  have low := i.le_toInt
  have high := i.toInt_lt
  exact fitsSigned_iff.2 (by omega)

theorem toInt_ofInt {i : Int} (h : fitsSigned i) : (Int64.ofInt i).toInt = i := by
  have bounds := fitsSigned_iff.1 h
  rw [Int64.toInt_ofInt]
  exact Int.bmod_eq_of_le (by simp only [Int64.size]; omega) (by simp only [Int64.size]; omega)

end Helpdesk.Bits64
