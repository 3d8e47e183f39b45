import Helpdesk.Document.Reader
import Helpdesk.Double.Layout
import Helpdesk.Text.Blank
import Helpdesk.Time.Rfc3339

/-! Values of conditions, parameters and records. Documents hold every kind of value but moments, which
are written as texts and stay texts when they are read back. -/

namespace Helpdesk

inductive Value
  | null
  | bool (b : Bool)
  | int (i : Int64)
  | real (d : Double)
  | text (s : String)
  | list (items : List Value)
  | moment (t : Time.Instant)
deriving Repr, Inhabited

namespace Value

def text? : Value → Option String
  | .text s => some s
  | _ => none

def isList : Value → Bool
  | .list _ => true
  | _ => false

def isNull : Value → Bool
  | .null => true
  | _ => false

def ofTexts (texts : List String) : Value := .list (texts.map .text)

def number? : Value → Option Double
  | .int i => some (Double.ofInt64 i)
  | .real d => some d
  | .text s => Double.ofText? (Text.trim s.toList)
  | _ => none

/-- A finite number of hours that is not negative. -/
def hours? (v : Value) : Option Double :=
  v.number?.bind fun d => if d.isFinite && d.isNonneg then some d else none

def separatedTexts : List String → String
  | [] => ""
  | [s] => s
  | s :: ss => s ++ ", " ++ separatedTexts ss

mutual
def toText : Value → String
  | .null => "null"
  | .bool b => if b then "true" else "false"
  | .int i => String.ofList (Text.Decimal.ofInt64 i)
  | .real d => d.toText
  | .text s => "'" ++ s ++ "'"
  | .moment t => "'" ++ t.toStored ++ "'"
  | .list items => "[" ++ separatedTexts (toTexts items) ++ "]"

def toTexts : List Value → List String
  | [] => []
  | v :: vs => toText v :: toTexts vs
end

mutual
def toDocument : Value → Document
  | .null => .null
  | .bool b => .bool b
  | .int i => .ofInt64 i
  | .real d => .real d
  | .text s => .text s
  | .moment t => .text t.toFull
  | .list items => .list (toDocuments items)

def toDocuments : List Value → List Document
  | [] => []
  | v :: vs => toDocument v :: toDocuments vs
end

/-- Whole numbers beyond 64 bits with a sign are doubles. -/
def ofWhole (i : Int) : Value :=
  if Bits64.fitsSigned i then .int (Int64.ofInt i) else .real (Double.ofInt i)

def read (o : Document.Origin) : Nat → Document → Option Value
  | _, .null => some .null
  | _, .bool b => some (.bool b)
  | _, .int i => some (ofWhole i)
  | _, .real d => some (.real d)
  | _, .text s => some (.text s)
  | room + 1, .list items => (items.mapM (read o room)).map .list
  | _, _ => none

mutual
/-- Equality of values, with the equality of numbers on doubles. -/
def equal : Value → Value → Bool
  | .null, .null => true
  | .bool a, .bool b => a == b
  | .int a, .int b => a == b
  | .real a, .real b => a.equal b
  | .text a, .text b => a == b
  | .moment a, .moment b => a == b
  | .list a, .list b => equalItems a b
  | _, _ => false

def equalItems : List Value → List Value → Bool
  | [], [] => true
  | a :: as, b :: bs => equal a b && equalItems as bs
  | _, _ => false
end

end Value
end Helpdesk
