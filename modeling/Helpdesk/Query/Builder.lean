import Helpdesk.Query.Predicate
import Helpdesk.Text.Decimal
import Helpdesk.Value

/-! Queries and how they are built. A builder gives every bound value a name of its own and every joined
association an alias of its own; what it holds is never changed or removed. -/

namespace Helpdesk

structure Association where
  table : String
  /-- The column that the field refers to. -/
  key : String
  /-- The column that people search. -/
  display : String
deriving Repr, DecidableEq

namespace Association
open Document.Reader

def read : Document.Reader Association
  | o, room + 1, d => do
    match ← fields? ["table", "key", "display"] o d with
    | [table, key, display] =>
      some ⟨← table.required (text o room), ← key.orElse "id" (text o room),
        ← display.orElse "name" (text o room)⟩
    | _ => none
  | _, _, _ => none

def toDocument (a : Association) : Document :=
  .table [("table", .text a.table), ("key", .text a.key), ("display", .text a.display)]

end Association

structure Join where
  table : String
  /-- The alias of the table in the query. -/
  name : String
  key : String
  source : Column
deriving Repr, DecidableEq

def Join.toText (j : Join) : String :=
  "LEFT JOIN " ++ j.table ++ " AS " ++ j.name ++ " ON " ++ j.name ++ "." ++ j.key ++ " = " ++
    j.source.toText

structure Parameter where
  name : String
  value : Value
deriving Repr

structure Query where
  table : String
  joins : List Join
  predicate : Predicate
  parameters : List Parameter
deriving Repr

namespace Query

def parameter? (q : Query) (name : String) : Option Value :=
  (q.parameters.find? fun p => p.name == name).map Parameter.value

def sourceText (table : String) (joins : List Join) : String :=
  "SELECT " ++ targetAlias ++ ".* FROM " ++ table ++ " AS " ++ targetAlias ++
    String.join (joins.map fun j => " " ++ j.toText)

def toText (q : Query) : String :=
  sourceText q.table q.joins ++ " WHERE " ++ q.predicate.toText

end Query

structure Builder where
  table : String
  joins : List Join
  parameters : List Parameter
deriving Repr

namespace Builder

def selectFrom (table : String) : Builder := ⟨table, [], []⟩

def column (field : String) : Column := ⟨targetAlias, field⟩

def numberedName (stem : String) (n : Nat) : String := stem ++ String.ofList (Text.Decimal.ofNat n)

/-- Binds a value; its name is the field with a number that no other parameter has. -/
def bind (b : Builder) (field : String) (value : Value) : String × Builder :=
  let name := numberedName (field ++ "_") (b.parameters.length + 1)
  (name, { b with parameters := b.parameters ++ [⟨name, value⟩] })

def Join.serves (j : Join) (source : Column) (a : Association) : Bool :=
  j.source == source && j.table == a.table && j.key == a.key

/-- Joins an association through a field, or finds the join that is there. Rows without the association
stay. -/
def leftJoin (b : Builder) (field : String) (a : Association) : String × Builder :=
  match b.joins.find? fun j => Join.serves j (column field) a with
  | some j => (j.name, b)
  | none =>
    let name := numberedName "j" (b.joins.length + 1)
    (name, { b with joins := b.joins ++ [⟨a.table, name, a.key, column field⟩] })

def compare (b : Builder) (field : String) (op : Operator) (value : Value) : Predicate × Builder :=
  match op with
  | .isNull => (.nullCheck (column field) false, b)
  | .isNotNull => (.nullCheck (column field) true, b)
  | op =>
    let (name, b) := b.bind field value
    (.compare (column field) op name, b)

def toQuery (b : Builder) (predicate : Predicate) : Query :=
  ⟨b.table, b.joins, predicate, b.parameters⟩

@[simp] theorem joins_bind (b : Builder) (field : String) (value : Value) :
    (b.bind field value).2.joins = b.joins := rfl

@[simp] theorem parameters_bind (b : Builder) (field : String) (value : Value) :
    (b.bind field value).2.parameters = b.parameters ++ [⟨(b.bind field value).1, value⟩] := rfl

@[simp] theorem parameters_leftJoin (b : Builder) (field : String) (a : Association) :
    (b.leftJoin field a).2.parameters = b.parameters := by
  unfold leftJoin; split <;> rfl

end Builder
end Helpdesk
