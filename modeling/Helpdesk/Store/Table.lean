import Helpdesk.Store.Schema

/-! Tables: rows under increasing row numbers, and the constraints that a row has to meet within its own
table. -/

namespace Helpdesk.Store

structure Row where
  rowid : Int64
  cells : List Cell
deriving Repr, DecidableEq

namespace Row

def cell (r : Row) (index : Nat) : Cell := r.cells[index]?.getD .null

def get (r : Row) : Schema.Place → Cell
  | .rowid => .int r.rowid
  | .column i _ => r.cell i

end Row

structure Table where
  schema : Schema
  rows : List Row
  /-- The row number that was given last. -/
  lastRowid : Int64
deriving Repr, DecidableEq

namespace Table

def empty (schema : Schema) : Table := ⟨schema, [], 0⟩

def hasRow (t : Table) (i : Int64) : Bool := t.rows.any fun r => r.rowid == i

def admits (t : Table) : Cell → Bool
  | .null => true
  | .int i => t.hasRow i
  | _ => false

def higher (top : Option Int64) (r : Row) : Option Int64 :=
  some (match top with
    | none => r.rowid
    | some i => if i < r.rowid then r.rowid else i)

def topRowid? (t : Table) : Option Int64 := t.rows.foldl higher none

/-- The number of the next row: beyond all that are in use and, where numbers are never reused, beyond
all that were given. -/
def nextRowid? (t : Table) : Option Int64 :=
  let used := match t.topRowid? with
    | none => if t.schema.neverReused then t.lastRowid else 0
    | some i => if t.schema.neverReused ∧ i < t.lastRowid then t.lastRowid else i
  if used = Int64.maxValue then none else some (used + 1)

def qualified (t : Table) (column : String) : String := t.schema.name ++ "." ++ column

def columnIndex? (t : Table) (column : String) : Option Nat :=
  t.schema.columns.findIdx? fun c => c.name == column

def cellOf (t : Table) (r : Row) (column : String) : Cell :=
  match t.columnIndex? column with
  | some i => r.cell i
  | none => .null

/-- Two cells that count as the same in a column of unique cells; nulls never do. -/
def sameCell (x y : Cell) : Bool := !x.isNull && !y.isNull && x.order y == .eq

def sameKey (t : Table) (columns : List String) (a b : Row) : Bool :=
  columns.all fun c => sameCell (t.cellOf a c) (t.cellOf b c)

def missing? (columns : List ColumnDef) (cells : List Cell) : Option ColumnDef :=
  ((columns.zip cells).find? fun (c, x) => c.notNull && x.isNull).map Prod.fst

def checkNotNull (t : Table) (r : Row) : Except StoreFault Unit :=
  match missing? t.schema.columns r.cells with
  | some c => .error (.notNull (t.qualified c.name))
  | none => .ok ()

def shared? (t : Table) (r : Row) (others : List Row) : Option (List String) :=
  if others.any fun o => o.rowid == r.rowid then some [t.schema.rowidColumn.getD "rowid"]
  else t.schema.uniques.find? fun columns => others.any (t.sameKey columns r)

def checkUnique (t : Table) (r : Row) (others : List Row) : Except StoreFault Unit :=
  match t.shared? r others with
  | some columns => .error (.notUnique (columns.map t.qualified))
  | none => .ok ()

def assigned? (column : String) : List (String × Cell) → Option Cell
  | [] => none
  | (name, x) :: rest => if sameName name column then some x else assigned? column rest

/-- The cells of a new row: what is assigned, as its column keeps it, and else what the column has as its
standard. -/
def newCells (t : Table) (rowid : Int64) (assigned : List (String × Cell)) : List Cell :=
  t.schema.columns.map fun c =>
    if t.schema.rowidColumn = some c.name then .int rowid
    else match assigned? c.name assigned with
      | some x => x.stored c.affinity
      | none => c.standard

def place (r : Row) : List Row → List Row
  | [] => [r]
  | o :: os => if r.rowid < o.rowid then r :: o :: os else o :: place r os

end Table
end Helpdesk.Store
