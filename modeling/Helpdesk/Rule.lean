import Helpdesk.Condition
import Helpdesk.Document.File
import Helpdesk.Query.Predicate

/-! Rules: trees of groups whose leaves hold conditions. A group keeps its connector as it was written;
only a compilation asks whether there is one of that name. When a group has children, its own conditions
do not count. -/

namespace Helpdesk

inductive Connector
  /-- Every term must hold. -/
  | inclusive
  /-- At least one term must hold. -/
  | exclusive
deriving Repr, DecidableEq

namespace Connector

def name : Connector → String
  | .inclusive => "and"
  | .exclusive => "or"

def ofName (s : String) : Outcome Connector :=
  if s = "and" then .ok .inclusive
  else if s = "or" then .ok .exclusive
  else .error (.unknownConnector s)

def combine : Connector → List Predicate → Predicate
  | .inclusive, terms => .all terms
  | .exclusive, terms => .any terms

end Connector

structure Group where
  connector : String
  conditions : List ConditionDefinition
  children : List Group
deriving Repr, Inhabited

namespace Group
open Document.Reader

def ofConnector (connector : String) : Group := ⟨connector, [], []⟩

def hasChildren (g : Group) : Bool := !g.children.isEmpty

def withCondition (g : Group) (c : ConditionDefinition) : Group :=
  { g with conditions := g.conditions ++ [c] }

def withChild (g child : Group) : Group := { g with children := g.children ++ [child] }

def read (o : Document.Origin) : Nat → Document → Option Group
  | 0, _ => none
  | room + 1, d => do
    match ← fields? ["connector", "conditions", "children"] o d with
    | [connector, conditions, children] =>
      let connector ← connector.required (text o room)
      let conditions ← conditions.orElse [] (list ConditionDefinition.read o room)
      match children, room with
      | .given (.list items), room + 1 =>
        let children ← items.mapM (read o room)
        some ⟨connector, conditions, children⟩
      | .given _, _ => none
      | _, _ => some ⟨connector, conditions, []⟩
    | _ => none

mutual
def toDocument : Group → Document
  | ⟨connector, conditions, children⟩ =>
    .table ([("connector", .text connector)] ++
      Document.nonempty "conditions" ConditionDefinition.toDocument conditions ++
      (match children with
        | [] => []
        | g :: gs => [("children", .list (toDocument g :: toDocuments gs))]))

def toDocuments : List Group → List Document
  | [] => []
  | g :: gs => toDocument g :: toDocuments gs
end

end Group

structure Rule where
  name : String
  target : String
  grouping : Group
deriving Repr, Inhabited

namespace Rule
open Document.Reader

def read : Document.Reader Rule
  | o, room + 1, d => do
    match ← fields? ["name", "target", "grouping"] o d with
    | [name, target, grouping] =>
      some ⟨← name.required (text o room), ← target.required (text o room),
        ← grouping.required (Group.read o room)⟩
    | _ => none
  | _, _, _ => none

def toDocument (r : Rule) : Document :=
  .table [("name", .text r.name), ("target", .text r.target), ("grouping", r.grouping.toDocument)]

def load (file : Document.File) : Outcome Rule := file.load read

end Rule
end Helpdesk
