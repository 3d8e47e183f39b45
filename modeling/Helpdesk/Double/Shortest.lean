import Helpdesk.Double
import Helpdesk.Text.Decimal

/-! The decimal digits of a positive double. `shortest` finds the fewest significant digits whose
decimal number rounds to the double, and of those the nearest; `significant` gives a fixed number of
digits. Both work in exact arithmetic on the grid of the decimals with a given number of digits. -/

namespace Helpdesk.Double

inductive Tie
  | up
  | even
deriving Repr, DecidableEq

structure Digits where
  digits : Nat
  exponent : Int
deriving Repr, DecidableEq

/-- The numbers that round to a double, in quarters of the smallest double. -/
structure Interval where
  low : Nat
  mid : Nat
  high : Nat
  closed : Bool
deriving Repr

/-- Below a power of two the doubles lie twice as dense as above it. -/
def interval (units : Nat) : Interval :=
  let spare := spareBits units
  let step := Nat.pow 2 spare
  let narrow := spare ≠ 0 ∧ units = Nat.pow 2 (52 + spare)
  { low := 4 * units - (if narrow then step else 2 * step)
    mid := 4 * units
    high := 4 * units + 2 * step
    closed := units / step % 2 == 0 }

def quarters : Nat := 4 * one

def Interval.contains (i : Interval) (num den : Nat) : Bool :=
  if i.closed then i.low * den ≤ num && num ≤ i.high * den
  else i.low * den < num && num < i.high * den

def leadExponent (units : Nat) : Int :=
  ((Text.Decimal.ofNat (units * Nat.pow 10 340 / one)).length : Int) - 341

def powerOfTen (exponent : Int) : Nat × Nat :=
  if 0 ≤ exponent then (Nat.pow 10 exponent.toNat, 1) else (1, Nat.pow 10 (-exponent).toNat)

/-- The decimal on the grid of `10 ^ exponent` that stands for the double, if one does. -/
def onGrid? (tie : Tie) (i : Interval) (exponent : Int) : Option Digits :=
  let (up, down) := powerOfTen exponent
  let below := i.mid * down / (quarters * up)
  let inside := fun n : Nat => n ≠ 0 && i.contains (n * (quarters * up)) down
  let toBelow := i.mid * down - below * (quarters * up)
  let toAbove := (below + 1) * (quarters * up) - i.mid * down
  match inside below, inside (below + 1) with
  | true, false => some ⟨below, exponent⟩
  | false, true => some ⟨below + 1, exponent⟩
  | true, true =>
    let takeBelow :=
      if toBelow = toAbove then (match tie with | .up => false | .even => below % 2 == 0)
      else decide (toBelow < toAbove)
    some ⟨if takeBelow then below else below + 1, exponent⟩
  | false, false => none

/-- Without a zero at the end that a carry left behind. -/
def Digits.strip (d : Digits) : Nat → Digits
  | 0 => d
  | n + 1 =>
    if d.digits ≠ 0 ∧ d.digits % 10 = 0 then Digits.strip ⟨d.digits / 10, d.exponent + 1⟩ n else d

/-- Tries one digit, two digits and so on; seventeen are always enough. -/
def shortest (tie : Tie) (units : Nat) : Digits :=
  let lead := leadExponent units
  let found := (List.range 17).findSome? fun n : Nat => onGrid? tie (interval units) (lead - n)
  match found with
  | some d => d.strip 17
  | none => ⟨0, 0⟩

def significant (count : Nat) (units : Nat) : Digits :=
  let exponent := leadExponent units + 1 - count
  let (up, down) := powerOfTen exponent
  let num := units * down
  let den := one * up
  Digits.strip ⟨(2 * num + den) / (2 * den), exponent⟩ (count + 1)

end Helpdesk.Double
