import Helpdesk.Document
import Helpdesk.Text.Decimal

/-! Numbers in JSON text. A numeral without a point and without an exponent is a whole number, if one of
64 bits can hold it. Any other is a double: its leading digits are collected as long as 64 bits hold
them, further digits count as zeros, and the collected number is multiplied or divided by a power of
ten, each step rounded. -/

namespace Helpdesk.Document

structure JsonNumeral where
  negative : Bool
  whole : List Char
  fraction : Option (List Char)
  exponent : Option Int

def wholePart? (cs : List Char) : Option (List Char × List Char) :=
  let digits := cs.takeWhile Text.Decimal.isDigit
  let rest := cs.dropWhile Text.Decimal.isDigit
  match digits with
  | [] => none
  | '0' :: _ :: _ => none
  | digits => some (digits, rest)

def fractionPart? : List Char → Option (Option (List Char) × List Char)
  | '.' :: cs =>
    let digits := cs.takeWhile Text.Decimal.isDigit
    if digits = [] then none else some (some digits, cs.dropWhile Text.Decimal.isDigit)
  | cs => some (none, cs)

def exponentSign : List Char → Bool × List Char
  | '-' :: cs => (true, cs)
  | '+' :: cs => (false, cs)
  | cs => (false, cs)

def exponentPart? : List Char → Option (Option Int × List Char)
  | c :: cs =>
    if c = 'e' ∨ c = 'E' then
      let (negative, cs) := exponentSign cs
      let digits := cs.takeWhile Text.Decimal.isDigit
      if digits = [] then none
      else
        let size : Int := Text.Decimal.value digits
        some (some (if negative then -size else size), cs.dropWhile Text.Decimal.isDigit)
    else some (none, c :: cs)
  | [] => some (none, [])

def scanNumeral? (cs : List Char) : Option (JsonNumeral × List Char) := do
  let (negative, cs) := match cs with
    | '-' :: cs => (true, cs)
    | cs => (false, cs)
  let (whole, cs) ← wholePart? cs
  let (fraction, cs) ← fractionPart? cs
  let (exponent, cs) ← exponentPart? cs
  some (⟨negative, whole, fraction, exponent⟩, cs)

/-- Appends digits to a number while 64 bits hold it; the digits left over are returned. -/
def collect (n : Nat) : List Char → Nat × List Char
  | [] => (n, [])
  | d :: ds =>
    let next := n * 10 + Text.Decimal.digitValue d
    if next < Bits64.limit then collect next ds else (n, d :: ds)

def tenTo (n : Nat) : Double := Double.ofDecimal false 1 n

/-- Division by `10 ^ n`, in steps of at most `10 ^ 308`. -/
def shiftDown (d : Double) (n : Nat) : Double :=
  if n ≤ 308 then d / tenTo n
  else if d.isZero then d
  else shiftDown (d / tenTo 308) (n - 308)
termination_by n

def scaled? (n : Nat) (exponent : Int) : Option Double :=
  let d := Double.ofInt n
  if exponent < 0 then some (shiftDown d exponent.natAbs)
  else if exponent ≤ 308 then
    let product := d * tenTo exponent.natAbs
    if product.isInfinite then none else some product
  else if d.isZero then some d else none

def JsonNumeral.double? (n : JsonNumeral) : Option Double :=
  let fraction := n.fraction.getD []
  let (whole, restWhole) := collect 0 n.whole
  let (digits, restFraction) := collect whole fraction
  let shift : Int := restWhole.length - (fraction.length - restFraction.length : Nat)
  (scaled? digits (shift + n.exponent.getD 0)).map fun d => if n.negative then -d else d

def JsonNumeral.document (n : JsonNumeral) : Document :=
  let size := Text.Decimal.value n.whole
  if n.fraction.isNone ∧ n.exponent.isNone ∧ size < Bits64.limit then
    if n.negative then
      if size = 0 then .real (-Double.zero)
      else if (size : Int) ≤ Bits64.signedLimit then .int (-(size : Int))
      else .real (-Double.ofInt size)
    else .int size
  else match n.double? with
    | some d => .real d
    | none => .unreadable

end Helpdesk.Document
