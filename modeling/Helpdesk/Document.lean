import Helpdesk.Double

/-! Documents: the tree that a rule file, a configuration or a record is read from and written to.
Tables keep their members in the order of the text, repeated ones too; the readers decide what a
repetition means. -/

namespace Helpdesk

inductive Document
  | null
  | bool (b : Bool)
  /-- A whole number, from `-2 ^ 63` to `2 ^ 64 - 1`. -/
  | int (i : Int)
  | real (d : Double)
  | text (s : String)
  | list (items : List Document)
  | table (members : List (String × Document))
  /-- A part that has the right form but no value, such as a number out of range. It can be skipped,
  never read. -/
  | unreadable
deriving Repr, Inhabited

namespace Document

def inWholeRange (i : Int) : Bool := -Bits64.signedLimit ≤ i && i < Bits64.limit

/-- A whole number in a place that may hold any number; one out of range becomes a double. -/
def number (i : Int) : Document :=
  if inWholeRange i then .int i else .real (Double.ofInt i)

def ofInt64 (i : Int64) : Document := .int i.toInt

def ofOption {α : Type} (f : α → Document) : Option α → Document
  | none => .null
  | some a => f a

def optional {α : Type} (key : String) (f : α → Document) : Option α → List (String × Document)
  | none => []
  | some a => [(key, f a)]

def nonempty {α : Type} (key : String) (f : α → Document) : List α → List (String × Document)
  | [] => []
  | items => [(key, .list (items.map f))]

def member? : Document → String → Option Document
  | .table members, key => members.lookup key
  | _, _ => none

end Document
end Helpdesk
