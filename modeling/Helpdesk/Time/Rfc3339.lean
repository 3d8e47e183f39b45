import Helpdesk.Time.Instant
import Helpdesk.Text.Blank
import Helpdesk.Text.Decimal

/-! Moments as text after RFC 3339, always written in universal time. The stored form is cut to whole
seconds; the full form has as many digits of the fraction as it needs, in groups of three. Reading is
strict, with every field at its full width, or lenient, as documents are read: there fields may be short,
blanks may stand between them, and the year may have a sign. -/

namespace Helpdesk.Time

open Text (isBlank trimStart)
open Text.Decimal (ofNat padded isDigit value)

def yearText (y : Int) : List Char :=
  if 0 ≤ y ∧ y ≤ 9999 then padded 4 y.natAbs
  else (if y < 0 then '-' else '+') :: padded 4 y.natAbs

def dateText (d : Date) : List Char :=
  yearText d.year ++ '-' :: padded 2 d.month ++ '-' :: padded 2 d.day

namespace Instant

def clockText (t : Instant) : List Char :=
  padded 2 t.hour ++ ':' :: padded 2 t.minute ++ ':' :: padded 2 t.secondOfMinute

def fractionText (t : Instant) : List Char :=
  let nanos := t.nanos % second
  if nanos = 0 then []
  else if nanos % 1000000 = 0 then '.' :: padded 3 (nanos / 1000000)
  else if nanos % 1000 = 0 then '.' :: padded 6 (nanos / 1000)
  else '.' :: padded 9 nanos

def storedChars (t : Instant) : List Char := dateText t.date ++ 'T' :: t.clockText ++ ['Z']

/-- The form that tables keep: whole seconds, so that texts of four-digit years sort as moments do. -/
def toStored (t : Instant) : String := String.ofList t.storedChars

def toFull (t : Instant) : String :=
  String.ofList (dateText t.date ++ 'T' :: t.clockText ++ t.fractionText ++ ['Z'])

end Instant

structure Reading where
  date : Date
  hour : Nat
  minute : Nat
  second : Nat
  nanos : Nat
  offset : Int
deriving Repr

/-- Second sixty is a leap second, in whichever minute it is written. -/
def Reading.instant? (r : Reading) : Option Instant :=
  if r.date.isValid ∧ r.hour ≤ 23 ∧ r.minute ≤ 59 ∧ r.second ≤ 60 ∧ r.offset.natAbs < 86400 then
    let leap := r.second = 60
    let clock : Int := r.hour * 3600 + r.minute * 60 + (if leap then 59 else r.second)
    let seconds := r.date.toDay * 86400 + clock
    if firstSecond ≤ seconds ∧ seconds ≤ lastSecond then
      Instant.ofSeconds? (seconds - r.offset) (r.nanos + if leap then Time.second else 0)
    else none
  else none

def digits? (least most : Nat) (cs : List Char) : Option (Nat × List Char) :=
  let run := (cs.take most).takeWhile isDigit
  if run.length < least then none else some (value run, cs.drop run.length)

def expect? (c : Char) : List Char → Option (List Char)
  | d :: cs => if c = d then some cs else none
  | [] => none

def fraction? : List Char → Option (Nat × List Char)
  | '.' :: cs =>
    let run := cs.takeWhile isDigit
    if run = [] then none
    else
      let kept := run.take 9
      some (value kept * Nat.pow 10 (9 - kept.length), cs.dropWhile isDigit)
  | cs => some (0, cs)

/-- `Z`, or hours and minutes with a sign; `colon` takes what may stand between the two. -/
def offset? (colon : List Char → Option (List Char)) : List Char → Option (Int × List Char)
  | [] => none
  | c :: cs =>
    if c = 'Z' ∨ c = 'z' then some (0, cs)
    else if c = '+' ∨ c = '-' ∨ c = '\u2212' then do
      let (hours, cs) ← digits? 2 2 cs
      let cs ← colon cs
      let (minutes, cs) ← digits? 2 2 cs
      if 60 ≤ minutes then none
      else
        let size : Int := hours * 3600 + minutes * 60
        some (if c = '+' then size else -size, cs)
    else none

def separator? : List Char → Option (List Char)
  | c :: cs => if c = 'T' ∨ c = 't' ∨ c = ' ' then some cs else none
  | [] => none

def strictReading? (cs : List Char) : Option Reading := do
  let (year, cs) ← digits? 4 4 cs
  let cs ← expect? '-' cs
  let (month, cs) ← digits? 2 2 cs
  let cs ← expect? '-' cs
  let (day, cs) ← digits? 2 2 cs
  let cs ← separator? cs
  let (hour, cs) ← digits? 2 2 cs
  let cs ← expect? ':' cs
  let (minute, cs) ← digits? 2 2 cs
  let cs ← expect? ':' cs
  let (second, cs) ← digits? 2 2 cs
  let (nanos, cs) ← fraction? cs
  let (offset, cs) ← offset? (expect? ':') cs
  if cs = [] then some ⟨⟨year, month, day⟩, hour, minute, second, nanos, offset⟩ else none

/-- A year with a sign has any number of digits, one without at most four. -/
def looseYear? (cs : List Char) : Option (Int × List Char) :=
  match trimStart cs with
  | '-' :: cs => (digits? 1 cs.length cs).map fun (n, cs) => (-(n : Int), cs)
  | '+' :: cs => (digits? 1 cs.length cs).map fun (n, cs) => ((n : Int), cs)
  | cs => (digits? 1 4 cs).map fun (n, cs) => ((n : Int), cs)

def loosePair? (cs : List Char) : Option (Nat × List Char) := digits? 1 2 (trimStart cs)

def looseExpect? (c : Char) (cs : List Char) : Option (List Char) := expect? c (trimStart cs)

def looseOffset? (cs : List Char) : Option (Int × List Char) :=
  let cs := trimStart cs
  if (cs.take 3).map Char.toUpper = ['U', 'T', 'C'] then some (0, cs.drop 3)
  else offset? (fun cs => some (cs.dropWhile fun c => c == ':' || isBlank c)) cs

def lenientReading? (cs : List Char) : Option Reading := do
  let (year, cs) ← looseYear? cs
  let cs ← looseExpect? '-' cs
  let (month, cs) ← loosePair? cs
  let cs ← looseExpect? '-' cs
  let (day, cs) ← loosePair? cs
  let cs ← separator? cs
  let (hour, cs) ← loosePair? cs
  let cs ← looseExpect? ':' cs
  let (minute, cs) ← loosePair? cs
  let cs ← looseExpect? ':' cs
  let (second, cs) ← loosePair? cs
  let (nanos, cs) ← fraction? cs
  let (offset, cs) ← looseOffset? cs
  if trimStart cs = [] then some ⟨⟨year, month, day⟩, hour, minute, second, nanos, offset⟩ else none

namespace Instant

def ofText? (s : String) : Option Instant := (strictReading? s.toList).bind Reading.instant?

def ofLooseText? (s : String) : Option Instant := (lenientReading? s.toList).bind Reading.instant?

end Instant
end Helpdesk.Time
