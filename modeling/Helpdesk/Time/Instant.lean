import Helpdesk.Time.Calendar

/-! Moments of universal time: a second counted from 1970-01-01T00:00:00Z and a fraction in nanoseconds.
A leap second is the last second of its minute with a fraction of one second or more. Every moment lies
in the years from -262143 to 262142. -/

namespace Helpdesk.Time

def second : Nat := 1000000000

/-- The first second of the year -262143. -/
def firstSecond : Int := -8334601228800

/-- The last second of the year 262142. -/
def lastSecond : Int := 8210266876799

/-- The fraction fills no whole second, or the moment is inside a leap second. -/
def IsMoment (seconds : Int) (nanos : Nat) : Prop :=
  firstSecond ≤ seconds ∧ seconds ≤ lastSecond ∧
    (nanos < second ∨ nanos < 2 * second ∧ seconds % 60 = 59)

instance (seconds : Int) (nanos : Nat) : Decidable (IsMoment seconds nanos) :=
  inferInstanceAs (Decidable (_ ∧ _))

structure Instant where
  seconds : Int
  nanos : Nat
  isMoment : IsMoment seconds nanos
deriving Repr, DecidableEq

namespace Instant

def ofSeconds? (seconds : Int) (nanos : Nat) : Option Instant :=
  if h : IsMoment seconds nanos then some ⟨seconds, nanos, h⟩ else none

def epoch : Instant := ⟨0, 0, by decide⟩

def isLeap (t : Instant) : Bool := second ≤ t.nanos

def date (t : Instant) : Date := Date.ofDay (t.seconds / 86400)

def secondOfDay (t : Instant) : Nat := (t.seconds % 86400).toNat

def hour (t : Instant) : Nat := t.secondOfDay / 3600

def minute (t : Instant) : Nat := t.secondOfDay / 60 % 60

def secondOfMinute (t : Instant) : Nat := t.secondOfDay % 60 + t.nanos / second

/-- The moment `millis` milliseconds earlier. Going back a second or more leaves a leap second as if it
were the first second of the next minute. -/
def minusMillis? (t : Instant) (millis : Nat) : Option Instant :=
  let whole : Int := (millis / 1000 : Nat)
  let fraction := millis % 1000 * 1000000
  if t.isLeap && millis < 1000 then ofSeconds? t.seconds (t.nanos - fraction)
  else
    let start := if t.isLeap then t.seconds + 1 else t.seconds
    let nanos := if t.isLeap then t.nanos - second else t.nanos
    if fraction ≤ nanos then ofSeconds? (start - whole) (nanos - fraction)
    else ofSeconds? (start - whole - 1) (nanos + second - fraction)

end Instant
end Helpdesk.Time
