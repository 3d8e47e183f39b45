import Helpdesk.Text.Blank
import Helpdesk.Text.Decimal

/-! Log filters: directives between commas. A directive names a level, or a target, perhaps with a span
and a field of it in brackets, and the level for it behind an equals sign. -/

namespace Helpdesk.Cli.LogFilter

def levelNames : List String := ["error", "warn", "info", "debug", "trace", "off"]

/-- A level by its name in any case or by its number; no text at all is a level too. -/
def isLevel (cs : List Char) : Bool :=
  cs.isEmpty || levelNames.contains (String.ofList (cs.map Char.toLower)) ||
    (match cs with
      | '-' :: _ => false
      | cs =>
        match Text.Decimal.integer? cs with
        | some n => decide (n ≤ 5)
        | none => false)

inductive State
  | start
  | target
  | span
  | field
  /-- Behind a field. -/
  | fields
  /-- Behind a span. -/
  | behindSpan
  /-- In a level that began at a position. -/
  | level (start : Nat)
deriving Repr, DecidableEq

def isStart (c : Char) : Bool :=
  c == '-' || c == ':' || c == '_' || c.isAlphanum || 0x80 ≤ c.toNat

def step (s : State) (position : Nat) (c : Char) : Option State :=
  match s with
  | .start => if c = '[' then some .span else if isStart c then some .target else none
  | .target =>
    if c = '=' then some (.level (position + 1))
    else if c = '[' then some .span
    else some .target
  | .span =>
    if c = ']' then some .behindSpan
    else if c = '\x7b' then some .field
    else some .span
  | .field => if c = '\x7d' then some .fields else some .field
  | .fields => if c = ']' then some .behindSpan else none
  | .behindSpan => if c = '=' then some (.level (position + 1)) else none
  | .level start => some (.level start)

def run (s : State) (position : Nat) : List Char → Option State
  | [] => some s
  | c :: cs => (step s position c).bind fun s => run s (position + 1) cs

/-- Positions are counted without the blanks in front, but the level is taken from the whole text. -/
def isDirective (cs : List Char) : Bool :=
  match run .start 0 (Text.trim cs) with
  | some .target => true
  | some .behindSpan => true
  | some (.level start) => isLevel (cs.drop start)
  | _ => false

def splitCommas : List Char → List (List Char)
  | [] => [[]]
  | c :: cs =>
    if c = ',' then [] :: splitCommas cs
    else match splitCommas cs with
      | [] => [[c]]
      | part :: parts => (c :: part) :: parts

def isValid (s : String) : Bool :=
  (splitCommas s.toList).all fun part => part.isEmpty || isDirective part

end Helpdesk.Cli.LogFilter
