import Helpdesk.Query.Reader
import Helpdesk.Query.Words
import Helpdesk.Record
import Helpdesk.Store.Change
import Helpdesk.Store.Order

/-! Running statements. The database reads the text of a statement by its grammar and finds the tables and
columns that are named; then it takes every row of the table with the joined rows that belong to it, or
with none where there are none, and keeps the row when the condition is true. -/

namespace Helpdesk.Store

structure Range where
  name : String
  table : Table
  row : Option Row
deriving Repr

abbrev Scope := List Range

namespace Scope

def range? (scope : Scope) (name : String) : Option Range :=
  scope.find? fun r => sameName r.name name

def place? (scope : Scope) (c : Column) : Option (Range × Schema.Place) := do
  let r ← scope.range? c.qualifier
  let p ← r.table.schema.place? c.field
  some (r, p)

def cell (scope : Scope) (c : Column) : Affinity × Cell :=
  match scope.place? c with
  | some (r, p) => (p.affinity, match r.row with | some row => row.get p | none => .null)
  | none => (.none, .null)

end Scope
end Store

namespace Clause

open Store

def isFalse : Clause → Bool
  | .fixed false => true
  | _ => false

mutual
/-- A conjunction with a term that is plainly false is plainly false itself; the columns of its other
terms are not looked at. -/
def fold : Clause → Clause
  | .all terms =>
    let terms := folds terms
    if terms.any isFalse then .fixed false else .all terms
  | .any terms => .any (folds terms)
  | c => c

def folds : List Clause → List Clause
  | [] => []
  | c :: cs => fold c :: folds cs
end

def parameter (cells : List Cell) (place : Nat) : Cell := cells[place - 1]?.getD .null

mutual
def truth (cellOf : Column → Affinity × Cell) (cells : List Cell) : Clause → Truth
  | .fixed holds => some holds
  | .all terms => allTruth cellOf cells terms
  | .any terms => anyTruth cellOf cells terms
  | .compare c op place =>
    Cell.compareTruth op (cellOf c).1 .none (cellOf c).2 (parameter cells place)
  | .among c op places =>
    let found := Cell.amongTruth (cellOf c).1 (cellOf c).2 (places.map (parameter cells))
    if op = .oneOf then found else Truth.not found
  | .nullCheck c negated => some ((cellOf c).2.isNull != negated)

def allTruth (cellOf : Column → Affinity × Cell) (cells : List Cell) : List Clause → Truth
  | [] => some true
  | c :: cs => Truth.and (truth cellOf cells c) (allTruth cellOf cells cs)

def anyTruth (cellOf : Column → Affinity × Cell) (cells : List Cell) : List Clause → Truth
  | [] => some false
  | c :: cs => Truth.or (truth cellOf cells c) (anyTruth cellOf cells cs)
end

end Clause

namespace Store

def ranges (s : Store) (table : String) (joins : List Join) : Result Scope := do
  let first ← s.table table
  let rest ← joins.mapM fun j => do
    let t ← s.table j.table
    .ok (Range.mk j.name t none)
  .ok (⟨targetAlias, first, none⟩ :: rest)

def keyColumn (j : Join) : Column := ⟨j.name, j.key⟩

/-- Every column that a statement names has to be there: those of the condition first. -/
def checkColumns (scope : Scope) (columns : List Column) : Result Unit :=
  match columns.find? fun c => (scope.place? c).isNone with
  | some c => .error (.noSuchColumn c.toText)
  | none => .ok ()

def belongs (scope : Scope) (j : Join) (t : Table) (row : Row) : Bool :=
  let key := Scope.cell [⟨j.name, t, some row⟩] (keyColumn j)
  let source := scope.cell j.source
  Cell.compareTruth .eq key.1 source.1 key.2 source.2 == some true

def extend (scope : Scope) (j : Join) (t : Table) : List Scope :=
  match t.rows.filter (belongs scope j t) with
  | [] => [scope ++ [⟨j.name, t, none⟩]]
  | rows => rows.map fun row => scope ++ [⟨j.name, t, some row⟩]

def joined (scopes : List Scope) : List (Join × Table) → List Scope
  | [] => scopes
  | (j, t) :: joins => joined (scopes.flatMap fun scope => extend scope j t) joins

def toRecord (t : Table) (r : Row) : Record :=
  Dict.ofList ((t.schema.columns.zip r.cells).map fun (c, x) => (c.name, x.toValue))

def inOrder (t : Table) (rows : List Row) : List Row :=
  Row.sortBy [⟨t.schema.orderPlace, false⟩] rows

/-- The rows of the table that a statement finds; a row is found once for every combination of joined
rows. -/
def rowsOf (t : Table) (joins : List (Join × Table)) (clause : Clause) (cells : List Cell) :
    List Row :=
  inOrder t (t.rows.flatMap fun row =>
    ((joined [[⟨targetAlias, t, some row⟩]] joins).filter fun scope =>
      clause.truth scope.cell cells == some true).map fun _ => row)

def bindAll (values : List Value) : Result (List Cell) :=
  match values.mapM Cell.ofValue? with
  | some cells => .ok (cells.map Cell.admitted)
  | none => .error .boundList

def selectRows (s : Store) (st : Statement) : Result (Table × List Row) := do
  match st.badWord? with
  | some word => .error (.nearWord word)
  | none => do
    let scope ← s.ranges st.table st.joins
    let clause := st.clause.fold
    checkColumns scope (clause.columns ++ st.joins.flatMap fun j => [keyColumn j, j.source])
    let cells ← bindAll st.parameters
    let t ← s.table st.table
    let joins := st.joins.zip (scope.tail.map Range.table)
    .ok (t, rowsOf t joins clause cells)

/-- A database is given a text and values for its placeholders, and runs what it reads. -/
def runText (s : Store) (text : String) (values : List Value) : Result (Table × List Row) :=
  match Sql.Selection.ofText? text with
  | some q => s.selectRows ⟨q.table, q.joins, q.condition, values⟩
  | none => .error (.nearWord (Sql.Selection.unfit text))

def outcome {α : Type} : Result α → Outcome α
  | .ok a => .ok a
  | .error f => .error (.storage f)

def queryRows (s : Store) (q : Query) : Outcome (Table × List Row) := do
  let st ← q.statement
  outcome (s.runText st.toSql st.parameters)

def execute (s : Store) (q : Query) : Outcome (List Record) := do
  let (t, rows) ← s.queryRows q
  .ok (rows.map (toRecord t))

end Store
end Helpdesk
