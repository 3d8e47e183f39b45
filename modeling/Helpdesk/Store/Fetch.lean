import Helpdesk.Store.Change
import Helpdesk.Store.Order

/-! Reading rows. A lookup asks for some columns of the rows of a table in which given columns equal given
cells. Its columns are found in the table first (`Lookup.prepare`); what is then found is read by the
positions of the columns in the lookup. -/

namespace Helpdesk.Store

structure Lookup where
  columns : List String
  table : String
  conditions : List (String × Cell)
  /-- The columns to sort by, and whether downwards. -/
  order : List (String × Bool)

structure Prepared where
  columns : List Schema.Place
  conditions : List (Schema.Place × Cell)
  keys : List SortKey

abbrev Selected := List (String × Cell)

/-- The columns that a lookup asks for have to be there, then those of its conditions and at last those
that it sorts by. -/
def Lookup.prepare (q : Lookup) (t : Table) : Result Prepared := do
  let columns ← q.columns.mapM (placeOf t)
  let conditions ← q.conditions.mapM fun (column, x) => (placeOf t column).map fun p => (p, x)
  let keys ← q.order.mapM fun (column, descending) =>
    (placeOf t column).map fun p => SortKey.mk p descending
  .ok ⟨columns, conditions, keys⟩

namespace Prepared

def admits (p : Prepared) (r : Row) : Bool := p.conditions.all fun (place, x) => Row.equals place x r

def select (p : Prepared) (r : Row) : Selected :=
  p.columns.map fun place => (place.name, r.get place)

def run (p : Prepared) (rows : List Row) : List Selected :=
  (Row.sortBy p.keys (rows.filter p.admits)).map p.select

end Prepared

def fetch (s : Store) (q : Lookup) : Result (List Selected) := do
  let t ← s.table q.table
  let p ← q.prepare t
  .ok (p.run t.rows)

def firstOf {α : Type} (read : Selected → Result α) : List Selected → Result (Option α)
  | [] => .ok none
  | r :: _ => (read r).map some

def cellAt (r : Selected) (index : Nat) : Result (String × Cell) :=
  match r[index]? with
  | some x => .ok x
  | none => .error (.noPosition index)

def textAt (r : Selected) (index : Nat) : Result String := do
  match ← cellAt r index with
  | (_, .text s) => .ok s
  | (column, x) => .error (.wrongType x.cellType index column)

def intAt (r : Selected) (index : Nat) : Result Int64 := do
  match ← cellAt r index with
  | (_, .int i) => .ok i
  | (column, x) => .error (.wrongType x.cellType index column)

def textOrNullAt (r : Selected) (index : Nat) : Result (Option String) := do
  if (← cellAt r index).2.isNull then .ok none else (textAt r index).map some

def intOrNullAt (r : Selected) (index : Nat) : Result (Option Int64) := do
  if (← cellAt r index).2.isNull then .ok none else (intAt r index).map some

end Helpdesk.Store
