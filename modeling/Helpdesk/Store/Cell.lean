import Helpdesk.Fault
import Helpdesk.Text.Pattern
import Helpdesk.Text.Utf8

/-! Cells of the database, how they are stored, and how they compare. A column prefers texts or whole
numbers and converts what it is given where nothing is lost by it. In comparisons null is unknown, numbers
come before texts and texts before bytes. -/

namespace Helpdesk.Store

inductive Cell
  | null
  | int (i : Int64)
  | real (d : Double)
  | text (s : String)
  | blob (bytes : List UInt8)
deriving Repr, DecidableEq, Inhabited

/-- What a column prefers; parameters prefer nothing. -/
inductive Affinity
  | text
  | integer
  | none
deriving Repr, DecidableEq, Inhabited

namespace Cell

def cellType : Cell → CellType
  | .null => .null
  | .int _ => .integer
  | .real _ => .real
  | .text _ => .text
  | .blob _ => .blob

def isNull : Cell → Bool
  | .null => true
  | _ => false

def ofValue? : Value → Option Cell
  | .null => some .null
  | .bool b => some (.int (if b then 1 else 0))
  | .int i => some (.int i)
  | .real d => some (.real d)
  | .text s => some (.text s)
  | .moment t => some (.text t.toStored)
  | .list _ => none

/-- A cell as the database takes it: what is no number is null. -/
def admitted : Cell → Cell
  | .real .nan => .null
  | c => c

def toValue : Cell → Value
  | .null => .null
  | .int i => .int i
  | .real d => .real d
  | .text s => .text s
  | .blob bytes => .text (Text.Utf8.decodeLossy bytes)

def ofOption {α : Type} (f : α → Cell) : Option α → Cell
  | none => .null
  | some a => f a

def toText : Cell → String
  | .null => ""
  | .int i => String.ofList (Text.Decimal.ofInt64 i)
  | .real d => d.toCell
  | .text s => s
  | .blob bytes => Text.Utf8.decodeLossy bytes

def isSpace (c : Char) : Bool := c == ' ' || (9 ≤ c.toNat && c.toNat ≤ 13)

def trimSpaces (cs : List Char) : List Char :=
  ((cs.dropWhile isSpace).reverse.dropWhile isSpace).reverse

def ofNumeral? (s : String) : Option Cell :=
  let (negative, body) := match trimSpaces s.toList with
    | '-' :: cs => (true, cs)
    | '+' :: cs => (false, cs)
    | cs => (false, cs)
  (Double.Numeral.scan? body).map fun n =>
    let size : Int := Text.Decimal.value n.whole
    let whole := if negative then -size else size
    if n.exponent.isNone ∧ body.all Text.Decimal.isDigit ∧ Bits64.fitsSigned whole then
      .int (Int64.ofInt whole)
    else .real (n.toDouble negative)

/-- A double that is a whole number of 64 bits, the two outermost apart, as that number. -/
def narrow : Cell → Cell
  | .real d =>
    match d.toInt? with
    | some i => if -Bits64.signedLimit < i ∧ i < Bits64.signedLimit - 1 then .int (Int64.ofInt i) else .real d
    | none => .real d
  | c => c

def stored : Affinity → Cell → Cell
  | .text, .int i => .text (Cell.int i).toText
  | .text, .real d => .text (Cell.real d).toText
  | .integer, .text s =>
    match ofNumeral? s with
    | some c => c.narrow
    | none => .text s
  | .integer, .real d => (Cell.real d).narrow
  | _, c => c

def numeric : Cell → Cell
  | .text s => (ofNumeral? s).getD (.text s)
  | c => c

def textual : Cell → Cell
  | .int i => .text (Cell.int i).toText
  | .real d => .text (Cell.real d).toText
  | c => c

def rank : Cell → Nat
  | .null => 0
  | .int _ => 1
  | .real _ => 1
  | .text _ => 2
  | .blob _ => 3

def compareTexts (a b : String) : Ordering :=
  if a < b then .lt else if a = b then .eq else .gt

def compareBytes : List UInt8 → List UInt8 → Ordering
  | [], [] => .eq
  | [], _ :: _ => .lt
  | _ :: _, [] => .gt
  | a :: as, b :: bs => if a < b then .lt else if b < a then .gt else compareBytes as bs

/-- The order of two cells; nulls are equal in it and come first. -/
def order : Cell → Cell → Ordering
  | .int a, .int b => compare a.toInt b.toInt
  | .int a, .real b => ((b.compareInt a.toInt).getD .eq).swap
  | .real a, .int b => (a.compareInt b.toInt).getD .eq
  | .real a, .real b => (a.compare? b).getD .eq
  | .text a, .text b => compareTexts a b
  | .blob a, .blob b => compareBytes a b
  | a, b => compare a.rank b.rank

/-- The two sides of a comparison: numbers are compared as numbers where a column of numbers takes part,
and as texts where a column of texts meets what has no preference. -/
def sides (a b : Affinity) (x y : Cell) : Cell × Cell :=
  if a = .integer ∨ b = .integer then (x.numeric, y.numeric)
  else if a = .text ∧ b = .none ∨ a = .none ∧ b = .text then (x.textual, y.textual)
  else (x, y)

/-- The outcome of a comparison; unknown where one side is null. -/
def compareAs? (a b : Affinity) (x y : Cell) : Option Ordering :=
  if x.isNull ∨ y.isNull then none
  else
    let (x, y) := sides a b x y
    some (x.order y)

def like? (x pattern : Cell) : Option Bool :=
  if x.isNull ∨ pattern.isNull then none
  else some (Text.Pattern.matchesText pattern.toText x.toText)

end Cell

/-- Truth of a condition on a row: true, false or unknown. -/
abbrev Truth := Option Bool

namespace Truth

def and (a b : Truth) : Truth :=
  if a = some false ∨ b = some false then some false
  else if a = some true ∧ b = some true then some true
  else none

def or (a b : Truth) : Truth :=
  if a = some true ∨ b = some true then some true
  else if a = some false ∧ b = some false then some false
  else none

def not (a : Truth) : Truth := a.map Bool.not

@[simp] theorem and_true (a : Truth) : and a (some true) = a := by
  rcases a with _ | _ | _ <;> rfl

@[simp] theorem or_false (a : Truth) : or a (some false) = a := by
  rcases a with _ | _ | _ <;> rfl

end Truth

def Cell.compareTruth (op : Operator) (a b : Affinity) (x y : Cell) : Truth :=
  match op with
  | .eq => (compareAs? a b x y).map (· == .eq)
  | .neq => (compareAs? a b x y).map (· != .eq)
  | .gt => (compareAs? a b x y).map (· == .gt)
  | .gte => (compareAs? a b x y).map (· != .lt)
  | .lt => (compareAs? a b x y).map (· == .lt)
  | .lte => (compareAs? a b x y).map (· != .gt)
  | .like => x.like? y
  | .notLike => Truth.not (x.like? y)
  | _ => none

/-- Whether a cell equals one of several; unknown when it equals none and a null is among them. -/
def Cell.amongTruth (a : Affinity) (x : Cell) (ys : List Cell) : Truth :=
  ys.foldr (fun y rest => Truth.or (Cell.compareTruth .eq a .none x y) rest) (some false)

end Helpdesk.Store
