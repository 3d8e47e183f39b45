import Helpdesk.Bits64

/-! Binary floating-point numbers of 64 bits as exact values. A finite one is a sign and a count of the
smallest positive double, `2 ^ -1074`; arithmetic is done exactly on such counts and then rounded once,
to the nearest double and on a tie to the even one. -/

namespace Helpdesk

inductive Double
  | finite (negative : Bool) (units : Nat)
  | infinite (negative : Bool)
  | nan
deriving Repr, DecidableEq, Inhabited

namespace Double

def one : Nat := Nat.pow 2 1074

def limit : Nat := Nat.pow 2 2098

def zero : Double := .finite false 0

/-- `num / den` to the nearest whole number, a half to the even one. -/
def halfEven (num den : Nat) : Nat :=
  let q := num / den
  let r := num % den
  if 2 * r < den then q
  else if den < 2 * r then q + 1
  else q + q % 2

theorem halfEven_mul (q : Nat) {den : Nat} (h : 0 < den) : halfEven (q * den) den = q := by
  simp [halfEven, Nat.mul_div_cancel _ h, h]

/-- How many bits of a count of units lie below the 53 that a double keeps. -/
def spareBits (units : Nat) : Nat := units.log2 - 52

def nearest (num den : Nat) : Nat :=
  let step := Nat.pow 2 (spareBits (num / den))
  halfEven num (den * step) * step

def ofUnits (negative : Bool) (units : Nat) : Double :=
  if units < limit then .finite negative units else .infinite negative

def round (negative : Bool) (num den : Nat) : Double :=
  ofUnits negative (nearest num den)

def ofInt (i : Int) : Double := round (decide (i < 0)) (i.natAbs * one) 1

def ofInt64 (i : Int64) : Double := ofInt i.toInt

/-- The double nearest to `digits * 10 ^ exponent`. Exponents that decide the outcome by themselves
are not expanded. -/
def ofDecimal (negative : Bool) (digits : Nat) (exponent : Int) : Double :=
  if digits = 0 then .finite negative 0
  else
    let places := (digits.log2 : Int) / 4 + exponent
    if 400 < places then .infinite negative
    else if (digits.log2 : Int) / 3 + 1 + exponent < -400 then .finite negative 0
    else if 0 ≤ exponent then round negative (digits * Nat.pow 10 exponent.toNat * one) 1
    else round negative (digits * one) (Nat.pow 10 (-exponent).toNat)

def isFinite : Double → Bool
  | .finite _ _ => true
  | _ => false

def isInfinite : Double → Bool
  | .infinite _ => true
  | _ => false

def isZero : Double → Bool
  | .finite _ u => u == 0
  | _ => false

def neg : Double → Double
  | .finite n u => .finite (!n) u
  | .infinite n => .infinite (!n)
  | .nan => .nan

instance : Neg Double := ⟨neg⟩

def mul : Double → Double → Double
  | .finite m a, .finite n b => round (m != n) (a * b) one
  | .infinite m, .finite n b => if b = 0 then .nan else .infinite (m != n)
  | .finite m a, .infinite n => if a = 0 then .nan else .infinite (m != n)
  | .infinite m, .infinite n => .infinite (m != n)
  | .nan, _ => .nan
  | _, .nan => .nan

instance : Mul Double := ⟨mul⟩

def div : Double → Double → Double
  | .finite m a, .finite n b =>
    if b = 0 then (if a = 0 then .nan else .infinite (m != n)) else round (m != n) (a * one) b
  | .infinite m, .finite n _ => .infinite (m != n)
  | .finite m _, .infinite n => .finite (m != n) 0
  | .infinite _, .infinite _ => .nan
  | .nan, _ => .nan
  | _, .nan => .nan

instance : Div Double := ⟨div⟩

/-- Equality of numbers: the two zeros are equal and `nan` equals nothing. -/
def equal : Double → Double → Bool
  | .finite m a, .finite n b => a == b && (a == 0 || m == n)
  | .infinite m, .infinite n => m == n
  | _, _ => false

def isNonneg : Double → Bool
  | .finite n u => !n || u == 0
  | .infinite n => !n
  | .nan => false

def roundHalfAway : Double → Double
  | .finite n u => .finite n ((u + one / 2) / one * one)
  | d => d

/-- The whole part as an integer of 64 bits with a sign: beyond its range the bound, for `nan` zero. -/
def toInt64Saturating : Double → Int
  | .finite n u =>
    if n then max (-(u / one : Nat)) (-Bits64.signedLimit)
    else min (u / one : Nat) (Bits64.signedLimit - 1)
  | .infinite n => if n then -Bits64.signedLimit else Bits64.signedLimit - 1
  | .nan => 0

def toInt? : Double → Option Int
  | .finite n u => if u % one = 0 then some (if n then -(u / one : Nat) else (u / one : Nat)) else none
  | _ => none

def compareInt : Double → Int → Option Ordering
  | .finite n u, i => some (compare (if n then -(u : Int) else u) (i * one))
  | .infinite n, _ => some (if n then .lt else .gt)
  | .nan, _ => none

def compare? : Double → Double → Option Ordering
  | .nan, _ => none
  | _, .nan => none
  | .infinite m, .infinite n => some (compare n.toNat m.toNat)
  | .infinite m, .finite _ _ => some (if m then .lt else .gt)
  | .finite _ _, .infinite n => some (if n then .gt else .lt)
  | .finite m a, .finite n b =>
    some (compare (if m then -(a : Int) else a) (if n then -(b : Int) else b))

end Double
end Helpdesk
