import Helpdesk.Document
import Helpdesk.Dict

/-! Reading typed values from documents. A reader knows the notation that the document comes from and how
many levels of lists and tables it may still enter. Records are read from tables, where unknown members
are skipped and known ones may not be repeated, or from lists, where the fields stand in their order. -/

namespace Helpdesk.Document

/-- Where a part of a document comes from. A flattened part was read once before its type was known. -/
inductive Origin
  | json
  | toml
  | flattened
deriving Repr, DecidableEq

abbrev Reader (α : Type) := Origin → Nat → Document → Option α

def jsonRoom : Nat := 127

mutual
def depth : Document → Nat
  | .list items => depthItems items + 1
  | .table members => depthMembers members + 1
  | _ => 0

def depthItems : List Document → Nat
  | [] => 0
  | d :: ds => max (depth d) (depthItems ds)

def depthMembers : List (String × Document) → Nat
  | [] => 0
  | (_, d) :: ms => max (depth d) (depthMembers ms)
end

mutual
def isReadable : Document → Bool
  | .unreadable => false
  | .list items => areReadable items
  | .table members => membersReadable members
  | _ => true

def areReadable : List Document → Bool
  | [] => true
  | d :: ds => isReadable d && areReadable ds

def membersReadable : List (String × Document) → Bool
  | [] => true
  | (_, d) :: ms => isReadable d && membersReadable ms
end

namespace Reader

def text : Reader String
  | _, _, .text s => some s
  | _, _, _ => none

def int64 : Reader Int64
  | _, _, .int i => if Bits64.fitsSigned i then some (Int64.ofInt i) else none
  | _, _, _ => none

def option {α : Type} (r : Reader α) : Reader (Option α)
  | _, _, .null => some none
  | o, room, d => (r o room d).map some

def list {α : Type} (r : Reader α) : Reader (List α)
  | o, room + 1, .list items => items.mapM (r o room)
  | _, _, _ => none

def dict {α : Type} (r : Reader α) : Reader (Dict α)
  | o, room + 1, .table members =>
    (members.mapM fun m => (r o room m.2).map fun a => (m.1, a)).map Dict.ofList
  | _, _, _ => none

/-- What may stand beside a name that is written as the only key of a table. -/
def isUnit : Origin → Document → Bool
  | .json, .null => true
  | .toml, .table [] => true
  | .toml, .list [] => true
  | .flattened, .null => true
  | .flattened, .table [] => true
  | _, _ => false

def named {α : Type} (ofName : String → Option α) : Reader α
  | _, _, .text s => ofName s
  | o, _ + 1, .table [(k, d)] => if isUnit o d then ofName k else none
  | _, _, _ => none

inductive Field
  | given (d : Document)
  /-- The record is a table without the field. -/
  | absent
  /-- The record is a list that ends before the field. -/
  | cut

def fields? (names : List String) (o : Origin) : Document → Option (List Field)
  | .table members =>
    names.mapM fun name =>
      match members.filter fun m => m.1 == name with
      | [] => some .absent
      | [m] => some (.given m.2)
      | _ => none
  | .list items =>
    if names.length < items.length ∧ o ≠ .toml then none
    else some ((List.range names.length).map fun i =>
      match items[i]? with
      | some d => .given d
      | none => .cut)
  | _ => none

namespace Field
variable {α : Type}

def required (f : Field) (r : Document → Option α) : Option α :=
  match f with
  | .given d => r d
  | _ => none

def optional (f : Field) (r : Document → Option (Option α)) : Option (Option α) :=
  match f with
  | .given d => r d
  | .absent => some none
  | .cut => none

def orElse (f : Field) (standard : α) (r : Document → Option α) : Option α :=
  match f with
  | .given d => r d
  | _ => some standard

end Field

def ofJson {α : Type} (r : Reader α) (d : Document) : Option α := r .json jsonRoom d

def ofToml {α : Type} (r : Reader α) (d : Document) : Option α := r .toml (depth d) d

end Reader
end Helpdesk.Document
