import Helpdesk.Document.JsonSyntax
import Helpdesk.Double.Layout
import Helpdesk.Time.Calendar

/-! Values in TOML text that are written without quotes: truth values, whole numbers in four bases,
doubles, dates and times. -/

namespace Helpdesk.Document.Toml

open Text.Decimal (isDigit value)

def plainDigits? (ok : Char → Bool) : List Char → Option (List Char)
  | [] => none
  | [c] => if ok c then some [c] else none
  | c :: '_' :: cs => if ok c then (plainDigits? ok cs).map (c :: ·) else none
  | c :: cs => if ok c then (plainDigits? ok cs).map (c :: ·) else none

def wholeDigits? (cs : List Char) : Option (List Char) :=
  match plainDigits? isDigit cs with
  | some ('0' :: _ :: _) => none
  | digits => digits

def splitSign : List Char → Bool × List Char
  | '-' :: cs => (true, cs)
  | '+' :: cs => (false, cs)
  | cs => (false, cs)

def whole (i : Int) : Document := if inWholeRange i then .int i else .unreadable

def basedNumber? (base : Nat) (cs : List Char) : Option Document := do
  let digits ← plainDigits? (fun c => match hexDigit? c with | some d => d < base | none => false) cs
  let values ← digits.mapM hexDigit?
  some (whole (values.foldl (fun n d => n * base + d) 0 : Nat))

def isExponentMark (c : Char) : Bool := c == 'e' || c == 'E'

def fractionDigits? : List Char → Option (List Char)
  | [] => some []
  | '.' :: cs => plainDigits? isDigit cs
  | _ => none

def exponentValue? : List Char → Option Int
  | [] => some 0
  | _ :: cs => do
    let (negative, cs) := splitSign cs
    let digits ← plainDigits? isDigit cs
    some (if negative then -(value digits : Int) else value digits)

/-- Doubles out of range have no value; infinity has a name of its own. -/
def double (d : Double) : Document := if d.isInfinite then .unreadable else .real d

def decimalNumber? (negative : Bool) (cs : List Char) : Option Document := do
  let mantissa := cs.takeWhile fun c => !isExponentMark c
  let power := cs.dropWhile fun c => !isExponentMark c
  let digits ← wholeDigits? (mantissa.takeWhile (· ≠ '.'))
  let point := mantissa.dropWhile (· ≠ '.')
  if point = [] ∧ power = [] then
    some (whole (if negative then -(value digits : Int) else value digits))
  else
    let fraction ← fractionDigits? point
    let exponent ← exponentValue? power
    some (double (Double.ofDecimal negative (value (digits ++ fraction)) (exponent - fraction.length)))

def number? : List Char → Option Document
  | '0' :: 'x' :: cs => basedNumber? 16 cs
  | '0' :: 'o' :: cs => basedNumber? 8 cs
  | '0' :: 'b' :: cs => basedNumber? 2 cs
  | cs =>
    let (negative, body) := splitSign cs
    if body = ['i', 'n', 'f'] then some (.real (.infinite negative))
    else if body = ['n', 'a', 'n'] then some (.real .nan)
    else decimalNumber? negative body

def fixedDigits? (n : Nat) (cs : List Char) : Option (Nat × List Char) :=
  let digits := cs.take n
  if digits.length = n ∧ digits.all isDigit then some (value digits, cs.drop n) else none

def afterDate? (cs : List Char) : Option (List Char) := do
  let (year, cs) ← fixedDigits? 4 cs
  match cs with
  | '-' :: cs => do
    let (month, cs) ← fixedDigits? 2 cs
    match cs with
    | '-' :: cs => do
      let (day, cs) ← fixedDigits? 2 cs
      if (Time.Date.mk year month day).isValid then some cs else none
    | _ => none
  | _ => none

def afterSeconds? : List Char → Option (List Char)
  | ':' :: cs => do
    let (second, cs) ← fixedDigits? 2 cs
    if 60 < second then none
    else match cs with
      | '.' :: cs =>
        if (cs.takeWhile isDigit).isEmpty then none else some (cs.dropWhile isDigit)
      | cs => some cs
  | cs => some cs

def afterMinutes? (hours : Nat) (cs : List Char) : Option (List Char) := do
  let (hour, cs) ← fixedDigits? 2 cs
  match cs with
  | ':' :: cs => do
    let (minute, cs) ← fixedDigits? 2 cs
    if hour ≤ hours ∧ minute ≤ 59 then some cs else none
  | _ => none

def afterTime? (cs : List Char) : Option (List Char) := (afterMinutes? 23 cs).bind afterSeconds?

def afterOffset? : List Char → Option (List Char)
  | 'Z' :: cs => some cs
  | 'z' :: cs => some cs
  | '+' :: cs => afterMinutes? 23 cs
  | '-' :: cs => afterMinutes? 23 cs
  | cs => some cs

def isMoment (cs : List Char) : Bool :=
  match afterDate? cs with
  | some [] => true
  | some (separator :: cs) =>
    (separator == 'T' || separator == 't' || separator == ' ') &&
      ((afterTime? cs).bind afterOffset?) == some []
  | none => afterTime? cs == some []

/-- Moments are kept as a table of their own kind, which no value can be read from. -/
def moment (cs : List Char) : Document := .table [("date", .text (String.ofList cs))]

def scalar? (cs : List Char) : Option Document :=
  if cs = ['t', 'r', 'u', 'e'] then some (.bool true)
  else if cs = ['f', 'a', 'l', 's', 'e'] then some (.bool false)
  else if isMoment cs then some (moment cs)
  else number? cs

def isWordChar (c : Char) : Bool :=
  c.isAlphanum || c == '_' || c == '-' || c == '+' || c == '.' || c == ':'

/-- The unquoted word at the front, and the text behind it. One blank may stand between a date and a
time. -/
def word (cs : List Char) : List Char × List Char :=
  let front := cs.takeWhile isWordChar
  let rest := cs.dropWhile isWordChar
  match rest with
  | ' ' :: c :: rest =>
    if c.isDigit ∧ afterDate? front = some [] then
      (front ++ ' ' :: (c :: rest).takeWhile isWordChar, (c :: rest).dropWhile isWordChar)
    else (front, ' ' :: c :: rest)
  | rest => (front, rest)

end Helpdesk.Document.Toml
