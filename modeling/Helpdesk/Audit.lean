import Helpdesk.Ticket
import Helpdesk.Value

/-! The audit log: one entry for every change of a ticket or an attachment, with the old and the new
value of each field. -/

namespace Helpdesk

inductive Action
  | create
  | update
  | remove
deriving Repr, DecidableEq, Inhabited

namespace Action

def all : List Action := [.create, .update, .remove]

def name : Action → String
  | .create => "create"
  | .update => "update"
  | .remove => "remove"

def ofName? (s : String) : Option Action := all.find? fun a => a.name == s

theorem ofName?_name (a : Action) : ofName? a.name = some a := by
  cases a <;> decide

def read : Document.Reader Action := Document.Reader.named ofName?

def toDocument (a : Action) : Document := .text a.name

end Action

structure FieldDiff where
  field : String
  old : Value
  new : Value
deriving Repr

namespace FieldDiff
open Document.Reader

def read : Document.Reader FieldDiff
  | o, room + 1, d => do
    match ← fields? ["field", "old", "new"] o d with
    | [field, old, new] =>
      some ⟨← field.required (text o room), ← old.orElse .null (Value.read o room),
        ← new.orElse .null (Value.read o room)⟩
    | _ => none
  | _, _, _ => none

def toDocument (d : FieldDiff) : Document :=
  .table [("field", .text d.field), ("old", d.old.toDocument), ("new", d.new.toDocument)]

end FieldDiff

def ticketObject : String := "Ticket"

def attachmentObject : String := "Attachment"

structure AuditEntry where
  objectClass : String
  objectId : Int64
  action : Action
  version : Int64
  loggedAt : Time.Instant
  diffs : List FieldDiff
deriving Repr

namespace AuditEntry
open Document.Reader

def first (objectClass : String) (objectId : Int64) (action : Action) (loggedAt : Time.Instant) :
    AuditEntry :=
  ⟨objectClass, objectId, action, 1, loggedAt, []⟩

def withVersion (e : AuditEntry) (version : Int64) : AuditEntry := { e with version }

def withDiff (e : AuditEntry) (d : FieldDiff) : AuditEntry := { e with diffs := e.diffs ++ [d] }

def read : Document.Reader AuditEntry
  | o, room + 1, d => do
    match ← fields? ["object_class", "object_id", "action", "version", "logged_at", "data"] o d with
    | [objectClass, objectId, action, version, loggedAt, data] =>
      some {
        objectClass := ← objectClass.required (text o room)
        objectId := ← objectId.required (int64 o room)
        action := ← action.required (Action.read o room)
        version := ← version.required (int64 o room)
        loggedAt := ← loggedAt.required (Time.Instant.read o room)
        diffs := ← data.required (list FieldDiff.read o room)
      }
    | _ => none
  | _, _, _ => none

def diffsDocument (diffs : List FieldDiff) : Document := .list (diffs.map FieldDiff.toDocument)

def toDocument (e : AuditEntry) : Document :=
  .table [("object_class", .text e.objectClass), ("object_id", .ofInt64 e.objectId),
    ("action", e.action.toDocument), ("version", .ofInt64 e.version),
    ("logged_at", e.loggedAt.toDocument), ("data", diffsDocument e.diffs)]

end AuditEntry
end Helpdesk
