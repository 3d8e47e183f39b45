import Helpdesk.Operator

/-! What is known about the fields of a table: their kinds, their columns, and the entities that they
belong to. -/

namespace Helpdesk

inductive FieldType
  | text
  | integer
  | boolean
  /-- One of a closed set of values. -/
  | enum
  /-- One of a closed set of values with weights. -/
  | weightedEnum
  /-- A moment, which conditions compare with a number of hours ago. -/
  | datetime
  /-- A reference to a row of another table. -/
  | association
  | user
deriving Repr, DecidableEq, Inhabited

namespace FieldType

def all : List FieldType :=
  [.text, .integer, .boolean, .enum, .weightedEnum, .datetime, .association, .user]

def name : FieldType → String
  | .text => "text"
  | .integer => "integer"
  | .boolean => "boolean"
  | .enum => "enum"
  | .weightedEnum => "weighted_enum"
  | .datetime => "datetime"
  | .association => "association"
  | .user => "user"

def ofName? (s : String) : Option FieldType := all.find? fun t => t.name == s

theorem ofName?_name (t : FieldType) : ofName? t.name = some t := by
  cases t <;> decide

def operators : FieldType → List Operator
  | .text => [.eq, .neq, .oneOf, .notOneOf, .like, .notLike, .isNull, .isNotNull]
  | .integer => [.eq, .neq, .gt, .gte, .lt, .lte, .oneOf, .notOneOf, .isNull, .isNotNull]
  | .boolean => [.eq, .neq]
  | .enum => [.eq, .neq, .oneOf, .notOneOf]
  | .weightedEnum => [.eq, .neq, .gt, .gte, .lt, .lte, .oneOf, .notOneOf]
  | .datetime => [.gt, .gte, .lt, .lte]
  | .association => [.eq, .neq, .like, .notLike, .isNull, .isNotNull]
  | .user => [.eq, .neq, .isNull, .isNotNull]

def allows (t : FieldType) (op : Operator) : Bool := t.operators.contains op

theorem datetime_allows (op : Operator) : FieldType.datetime.allows op = op.isOrdering := by
  cases op <;> decide

def read : Document.Reader FieldType := Document.Reader.named ofName?

def toDocument (t : FieldType) : Document := .text t.name

end FieldType

structure FieldMetadata where
  field : String
  fieldType : FieldType
deriving Repr, DecidableEq

namespace FieldMetadata
open Document.Reader

def read : Document.Reader FieldMetadata
  | o, room + 1, d => do
    match ← fields? ["field", "type"] o d with
    | [field, fieldType] =>
      some ⟨← field.orElse "" (text o room), ← fieldType.required (FieldType.read o room)⟩
    | _ => none
  | _, _, _ => none

def toDocument (m : FieldMetadata) : Document :=
  .table ((if m.field.isEmpty then [] else [("field", .text m.field)]) ++
    [("type", m.fieldType.toDocument)])

end FieldMetadata

structure Entity where
  className : String
  table : String
  fields : Dict FieldMetadata
deriving Repr, DecidableEq

namespace Entity
open Document.Reader

def read : Document.Reader Entity
  | o, room + 1, d => do
    match ← fields? ["class", "table", "fields"] o d with
    | [className, table, fields] =>
      some ⟨← className.required (text o room), ← table.required (text o room),
        ← fields.orElse Dict.empty (dict FieldMetadata.read o room)⟩
    | _ => none
  | _, _, _ => none

def toDocument (e : Entity) : Document :=
  .table [("class", .text e.className), ("table", .text e.table),
    ("fields", .table (e.fields.entries.map fun f => (f.1, f.2.toDocument)))]

end Entity
end Helpdesk
