import Helpdesk.Store.Table

/-! Changes of the database. A change either succeeds as a whole or is refused and leaves everything as
it was. Rows are checked first for missing cells, then for cells that others have, and at last for
references to rows that are not there. -/

namespace Helpdesk

open Store in
structure Store where
  tables : List Table
deriving Repr

namespace Store

abbrev Result (α : Type) := Except StoreFault α

def table? (s : Store) (name : String) : Option Table :=
  s.tables.find? fun t => sameName t.schema.name name

def table (s : Store) (name : String) : Result Table :=
  match s.table? name with
  | some t => .ok t
  | none => .error (.noSuchTable name)

def withTable (s : Store) (t : Table) : Store :=
  ⟨s.tables.map fun u => if sameName u.schema.name t.schema.name then t else u⟩

def checkParents (s : Store) : List Reference → Result Unit
  | [] => .ok ()
  | r :: rs =>
    match s.table? r.parent with
    | some _ => s.checkParents rs
    | none => .error (.noSuchTable ("main." ++ r.parent))

def isAnchored (s : Store) (t : Table) (r : Row) : Bool :=
  t.schema.references.all fun ref =>
    match s.table? ref.parent with
    | some parent => parent.admits (t.cellOf r ref.column)
    | none => true

def isReferable (s : Store) (parent : Table) : Bool :=
  s.tables.all fun t =>
    t.schema.references.all fun ref =>
      !sameName ref.parent parent.schema.name ||
        t.rows.all fun r => parent.admits (t.cellOf r ref.column)

def demand (holds : Bool) (fault : StoreFault) : Result Unit :=
  if holds then .ok () else .error fault

def checkAssigned (t : Table) (name : String) (assigned : List (String × Cell)) : Result Unit :=
  match assigned.find? fun a => (t.schema.place? a.1).isNone with
  | some (column, _) => .error (.noColumnNamed name column)
  | none => .ok ()

def insert (s : Store) (name : String) (assigned : List (String × Cell)) : Result (Int64 × Store) := do
  let t ← s.table name
  checkAssigned t name assigned
  s.checkParents t.schema.references
  match t.nextRowid? with
  | none => .error .full
  | some rowid => do
    let row : Row := ⟨rowid, t.newCells rowid assigned⟩
    t.checkNotNull row
    t.checkUnique row t.rows
    demand (s.isAnchored t row) .foreignKey
    .ok (rowid, s.withTable { t with rows := Table.place row t.rows, lastRowid := rowid })

def placeOf (t : Table) (column : String) : Result Schema.Place :=
  match t.schema.place? column with
  | some p => .ok p
  | none => .error (.noSuchColumn column)

def Row.equals (p : Schema.Place) (x : Cell) (r : Row) : Bool :=
  Cell.compareTruth .eq p.affinity .none (r.get p) x == some true

def rowidOf (x : Cell) : Result Int64 :=
  match x.stored .integer with
  | .int i => .ok i
  | _ => .error .datatypeMismatch

def renumber (t : Table) (rowid : Int64) (r : Row) : Row :=
  match t.schema.rowidColumn.bind t.columnIndex? with
  | some index => ⟨rowid, r.cells.set index (.int rowid)⟩
  | none => { r with rowid }

def changeRow (t : Table) (p : Schema.Place) (x : Cell) (r : Row) : Result Row :=
  match p with
  | .rowid => do
    let i ← rowidOf x
    .ok (renumber t i r)
  | .column index c =>
    if t.schema.rowidColumn = some c.name then do
      let i ← rowidOf x
      .ok (renumber t i r)
    else .ok { r with cells := r.cells.set index (x.stored c.affinity) }

/-- Each row against those before it and those that stay. -/
def checkRows (t : Table) (others : List Row) : List Row → Result Unit
  | [] => .ok ()
  | r :: rs => do
    t.checkNotNull r
    t.checkUnique r others
    checkRows t (r :: others) rs

def sortRows (rows : List Row) : List Row := rows.foldr Table.place []

def update (s : Store) (name column : String) (x : Cell) (whereColumn : String) (equals : Cell) :
    Result (Nat × Store) := do
  let t ← s.table name
  let p ← placeOf t column
  let w ← placeOf t whereColumn
  s.checkParents (t.schema.references.filter fun ref => sameName ref.column column)
  let (hit, rest) := t.rows.partition (Row.equals w equals)
  let changed ← hit.mapM (changeRow t p x)
  checkRows t rest changed
  let t' := { t with rows := sortRows (changed ++ rest) }
  let s' := s.withTable t'
  demand (changed.all (s'.isAnchored t')) .foreignKey
  demand (!t.schema.isRowid column || s'.isReferable t') .foreignKey
  .ok (hit.length, s')

def delete (s : Store) (name whereColumn : String) (equals : Cell) : Result (Nat × Store) := do
  let t ← s.table name
  let w ← placeOf t whereColumn
  s.checkParents t.schema.references
  let (hit, rest) := t.rows.partition (Row.equals w equals)
  let t' := { t with rows := rest }
  let s' := s.withTable t'
  demand (s'.isReferable t') .foreignKey
  .ok (hit.length, s')

/-- Removes a table, unless rows of others refer to its rows. -/
def drop (s : Store) (name : String) : Result Store := do
  let t ← s.table name
  demand (s.isReferable { t with rows := [] }) .foreignKey
  .ok ⟨s.tables.filter fun u => !sameName u.schema.name t.schema.name⟩

def ensure (s : Store) (schema : Schema) : Store :=
  match s.table? schema.name with
  | some _ => s
  | none => ⟨s.tables ++ [.empty schema]⟩

def addColumn (t : Table) (c : ColumnDef) : Table :=
  { t with
    schema := { t.schema with columns := t.schema.columns ++ [c] }
    rows := t.rows.map fun r => { r with cells := r.cells ++ [c.standard] } }

def addSource (s : Store) : Store :=
  match s.table? "tickets" with
  | none => s
  | some t =>
    if t.schema.columns.any fun c => c.name == "source" then s
    else s.withTable (addColumn t Schema.sourceColumn)

def migrate (s : Store) : Store := addSource (Schema.all.foldl ensure s)

def checkIndexes (s : Store) : List Index → Result Unit
  | [] => .ok ()
  | i :: is => do
    let t ← s.table i.table
    let _ ← i.columns.mapM (placeOf t)
    s.checkIndexes is

/-- The database brought up to date. Indexes are made on the tables as they are, before tickets get a
source. -/
def upgrade (s : Store) : Result Store := do
  (Schema.all.foldl ensure s).checkIndexes Schema.indexes
  .ok s.migrate

def fresh : Store := migrate ⟨[]⟩

end Store
end Helpdesk
