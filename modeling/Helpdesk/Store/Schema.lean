import Helpdesk.Store.Cell

/-! The tables of the database: users, branches, tickets, attachments and the audit log. -/

namespace Helpdesk.Store

structure ColumnDef where
  name : String
  affinity : Affinity
  notNull : Bool
  standard : Cell
deriving Repr, DecidableEq

structure Reference where
  column : String
  parent : String
deriving Repr, DecidableEq

structure Schema where
  name : String
  columns : List ColumnDef
  /-- The column that is the row number, if there is one. -/
  rowidColumn : Option String
  /-- Whether row numbers are never given again. -/
  neverReused : Bool
  /-- Columns whose cells no two rows share, in the order of the checks. -/
  uniques : List (List String)
  references : List Reference
deriving Repr, DecidableEq

structure Index where
  table : String
  columns : List String
deriving Repr, DecidableEq

/-- Letters of names are compared without regard to case. -/
def sameName (a b : String) : Bool :=
  a.toList.map Char.toLower == b.toList.map Char.toLower

namespace Schema

def textColumn (name : String) : ColumnDef := ⟨name, .text, true, .null⟩

def integerColumn (name : String) : ColumnDef := ⟨name, .integer, true, .null⟩

def idColumn : ColumnDef := ⟨"id", .integer, false, .null⟩

def ColumnDef.orNull (c : ColumnDef) : ColumnDef := { c with notNull := false }

def ColumnDef.withStandard (c : ColumnDef) (s : String) : ColumnDef := { c with standard := .text s }

def users : Schema where
  name := "users"
  columns := [textColumn "kind", integerColumn "id", textColumn "email", textColumn "full_name"]
  rowidColumn := none
  neverReused := false
  uniques := [["kind", "id"], ["email"]]
  references := []

def branches : Schema where
  name := "branches"
  columns := [idColumn, textColumn "name"]
  rowidColumn := some "id"
  neverReused := true
  uniques := [["name"]]
  references := []

def sourceColumn : ColumnDef := ColumnDef.withStandard (textColumn "source") "web"

def tickets : Schema where
  name := "tickets"
  columns := [idColumn, textColumn "key", textColumn "subject",
    ColumnDef.orNull (textColumn "description"), ColumnDef.withStandard (textColumn "status") "new",
    ColumnDef.withStandard (textColumn "priority") "medium", sourceColumn,
    ColumnDef.orNull (integerColumn "branch"), textColumn "reporter",
    ColumnDef.orNull (integerColumn "assignee"), textColumn "created_at", textColumn "updated_at"]
  rowidColumn := some "id"
  neverReused := true
  uniques := [["key"]]
  references := [⟨"branch", "branches"⟩]

def attachments : Schema where
  name := "attachments"
  columns := [idColumn, integerColumn "ticket_id", textColumn "filename", textColumn "created_at"]
  rowidColumn := some "id"
  neverReused := true
  uniques := []
  references := [⟨"ticket_id", "tickets"⟩]

def auditLog : Schema where
  name := "audit_log"
  columns := [idColumn, textColumn "object_class", integerColumn "object_id", textColumn "action",
    integerColumn "version", textColumn "logged_at", textColumn "data"]
  rowidColumn := some "id"
  neverReused := true
  uniques := []
  references := []

def all : List Schema := [users, branches, tickets, attachments, auditLog]

def indexes : List Index := [⟨"tickets", ["status"]⟩, ⟨"tickets", ["branch"]⟩,
  ⟨"attachments", ["ticket_id"]⟩, ⟨"audit_log", ["object_class", "object_id"]⟩]

/-- Tickets as they were before they had a source: row numbers could be given again, and branches were
not checked. -/
def oldTickets : Schema :=
  { tickets with
    columns := tickets.columns.filter fun c => c.name != "source"
    neverReused := false
    references := [] }

/-- Where a name leads to: a column, or the row number under one of its own names. -/
inductive Place
  | rowid
  | column (index : Nat) (definition : ColumnDef)
deriving Repr

def rowidNames : List String := ["rowid", "oid", "_rowid_"]

def place? (s : Schema) (name : String) : Option Place :=
  match s.columns.findIdx? fun c => sameName c.name name with
  | some i => (s.columns[i]?).map (Place.column i)
  | none => if rowidNames.any (sameName name) then some .rowid else none

def Place.name : Place → String
  | .rowid => "rowid"
  | .column _ c => c.name

def Place.affinity : Place → Affinity
  | .rowid => .integer
  | .column _ c => c.affinity

/-- Where `rowid` leads to: a column of that name hides the row number. -/
def orderPlace (s : Schema) : Place := (s.place? "rowid").getD .rowid

def isRowid (s : Schema) (name : String) : Bool :=
  match s.place? name with
  | some .rowid => true
  | some (.column _ c) => s.rowidColumn == some c.name
  | none => false

end Schema
end Helpdesk.Store
