import Helpdesk.Double.Shortest

/-! Texts of doubles. The digits are found once; a layout says how they are set: which are written in
positional notation, whether a whole number keeps `.0`, and how an exponent looks. `scan?` reads the
decimal notation back. -/

namespace Helpdesk.Double

structure Layout where
  tie : Tie
  /-- Decimal exponents of the leading digit that are written without an exponent. -/
  positional : Int → Bool
  /-- A whole number keeps a fraction of one zero. -/
  keepPoint : Bool
  /-- A single digit in front of an exponent keeps a fraction of one zero. -/
  keepPointBeforeExponent : Bool
  /-- The least number of digits of the exponent. -/
  exponentWidth : Nat

/-- Running text: never an exponent, and whole numbers without a point. -/
def plain : Layout := ⟨.up, fun _ => true, false, false, 1⟩

/-- Documents: always a point or an exponent; positional from `10 ^ -5` up to `10 ^ 16`. -/
def document : Layout := ⟨.even, fun e => -5 ≤ e && e ≤ 15, true, false, 1⟩

/-- Text cells of the database: positional from `10 ^ -4` up to `10 ^ 15`, the exponent in two places. -/
def cell : Layout := ⟨.up, fun e => -4 ≤ e && e ≤ 14, true, true, 2⟩

/-- The decimal point in a run of digits, with zeros filled in: the leading digit counts `10 ^ lead`. -/
def positionalText (keepPoint : Bool) (digits : List Char) (lead : Int) : List Char :=
  if lead < 0 then
    '0' :: '.' :: (List.replicate (-lead - 1).toNat '0' ++ digits)
  else
    let whole := lead.toNat + 1
    if digits.length ≤ whole then
      digits ++ List.replicate (whole - digits.length) '0' ++ (if keepPoint then ['.', '0'] else [])
    else digits.take whole ++ '.' :: digits.drop whole

def exponentText (layout : Layout) (digits : List Char) (lead : Int) : List Char :=
  let mantissa := match digits with
    | [] => []
    | [d] => d :: (if layout.keepPointBeforeExponent then ['.', '0'] else [])
    | d :: ds => d :: '.' :: ds
  mantissa ++ 'e' :: (if lead < 0 then '-' else '+') ::
    Text.Decimal.padded layout.exponentWidth lead.natAbs

def digitsText (layout : Layout) (d : Digits) : List Char :=
  let digits := Text.Decimal.ofNat d.digits
  let lead := d.exponent + digits.length - 1
  if layout.positional lead then positionalText layout.keepPoint digits lead
  else exponentText layout digits lead

def magnitudeText (layout : Layout) (units : Nat) : List Char :=
  if units = 0 then '0' :: (if layout.keepPoint then ['.', '0'] else [])
  else digitsText layout (shortest layout.tie units)

def signed (negative : Bool) (cs : List Char) : List Char :=
  if negative then '-' :: cs else cs

def toText : Double → String
  | .finite n u => String.ofList (signed n (magnitudeText plain u))
  | .infinite n => if n then "-inf" else "inf"
  | .nan => "NaN"

def toDocument? : Double → Option String
  | .finite n u => some (String.ofList (signed n (magnitudeText document u)))
  | _ => none

/-- The text that a text column keeps of a double: fifteen digits, and zero without a sign. -/
def toCell : Double → String
  | .finite n u =>
    if u = 0 then "0.0"
    else String.ofList (signed n (digitsText cell (significant 15 u)))
  | .infinite n => if n then "-Inf" else "Inf"
  | .nan => "NaN"

structure Numeral where
  whole : List Char
  fraction : List Char
  exponent : Option Int

def Numeral.toDouble (negative : Bool) (n : Numeral) : Double :=
  ofDecimal negative (Text.Decimal.value (n.whole ++ n.fraction))
    (n.exponent.getD 0 - n.fraction.length)

/-- An unsigned numeral that fills the text: digits with or without a point, at least one digit in all,
and an optional exponent with at least one digit. -/
def Numeral.scan? (cs : List Char) : Option Numeral :=
  let whole := cs.takeWhile Text.Decimal.isDigit
  let rest := cs.dropWhile Text.Decimal.isDigit
  let (fraction, rest) := match rest with
    | '.' :: rest => (rest.takeWhile Text.Decimal.isDigit, rest.dropWhile Text.Decimal.isDigit)
    | rest => ([], rest)
  if whole = [] ∧ fraction = [] then none
  else match rest with
    | [] => some ⟨whole, fraction, none⟩
    | e :: rest =>
      if e = 'e' ∨ e = 'E' then
        (Text.Decimal.integer? rest).map fun i => ⟨whole, fraction, some i⟩
      else none

def foldCase (cs : List Char) : List Char := cs.map Char.toLower

/-- A number as people write it: a sign, then a numeral or the name of infinity or of `nan` in any case. -/
def ofText? (cs : List Char) : Option Double :=
  let (negative, body) := match cs with
    | '-' :: body => (true, body)
    | '+' :: body => (false, body)
    | body => (false, body)
  let named := foldCase body
  if named = "inf".toList ∨ named = "infinity".toList then some (.infinite negative)
  else if named = "nan".toList then some .nan
  else (Numeral.scan? body).map (Numeral.toDouble negative)

end Helpdesk.Double
