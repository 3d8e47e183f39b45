import Helpdesk.Bits64

/-! Whole numbers in decimal. `natural?` reads a nonempty run of ASCII digits, `integer?` one with an
optional sign; the texts written by `ofNat` and `ofInt` have no leading zero and no plus sign. -/

namespace Helpdesk.Text.Decimal

def isDigit (c : Char) : Bool := c.isDigit

def digitValue (c : Char) : Nat := c.toNat - '0'.toNat

def ofNat (n : Nat) : List Char := Nat.toDigits 10 n

def ofInt (i : Int) : List Char :=
  if i < 0 then '-' :: ofNat i.natAbs else ofNat i.natAbs

theorem ofInt_natCast (n : Nat) : ofInt n = ofNat n := by
  simp [ofInt]

def value (cs : List Char) : Nat := Nat.ofDigitChars 10 cs 0

@[simp] theorem value_ofNat (n : Nat) : value (ofNat n) = n := by
  simp [value, ofNat]

theorem isDigit_of_mem_ofNat {c : Char} {n : Nat} (h : c ∈ ofNat n) : isDigit c := by
  simp only [isDigit]
  exact Nat.isDigit_of_mem_toDigits (by decide) (by decide) h

theorem ofNat_ne_nil (n : Nat) : ofNat n ≠ [] := Nat.toDigits_ne_nil

def natural? (cs : List Char) : Option Nat :=
  if cs ≠ [] ∧ cs.all isDigit then some (value cs) else none

theorem natural?_ofNat (n : Nat) : natural? (ofNat n) = some n := by
  have h : (ofNat n).all isDigit := List.all_eq_true.2 fun _ hc => isDigit_of_mem_ofNat hc
  simp [natural?, ofNat_ne_nil, h]

/-- A sign may stand in front of the digits, but not alone and not twice. -/
def integer? : List Char → Option Int
  | '-' :: cs => (natural? cs).map fun n => -(n : Int)
  | '+' :: cs => (natural? cs).map Int.ofNat
  | cs => (natural? cs).map Int.ofNat

def int64? (cs : List Char) : Option Int64 :=
  (integer? cs).bind fun i => if Bits64.fitsSigned i then some (Int64.ofInt i) else none

def ofInt64 (i : Int64) : List Char := ofInt i.toInt

def padded (width n : Nat) : List Char :=
  List.replicate (width - (ofNat n).length) '0' ++ ofNat n

end Helpdesk.Text.Decimal
