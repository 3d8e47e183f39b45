import Helpdesk.Fault
import Helpdesk.Field

/-! Conditions. A rule holds them as they were written; a registry of condition types resolves them into
a property, an operator that the property allows, and a value of the right shape. -/

namespace Helpdesk

structure ConditionParameters where
  property : Option String
  operator : Option String
  value : Option Value
deriving Repr, Inhabited

namespace ConditionParameters
open Document.Reader

def empty : ConditionParameters := ⟨none, none, none⟩

def unary (operator : String) : ConditionParameters := ⟨none, some operator, none⟩

def binary (operator : String) (value : Value) : ConditionParameters :=
  ⟨none, some operator, some value⟩

def withProperty (p : ConditionParameters) (property : String) : ConditionParameters :=
  { p with property := some property }

def read : Document.Reader ConditionParameters
  | o, room + 1, d => do
    match ← fields? ["property", "operator", "value"] o d with
    | [property, operator, value] =>
      some ⟨← property.orElse none (option text o room), ← operator.orElse none (option text o room),
        ← value.orElse none (option Value.read o room)⟩
    | _ => none
  | _, _, _ => none

def toDocument (p : ConditionParameters) : Document :=
  .table (Document.optional "property" .text p.property ++
    Document.optional "operator" .text p.operator ++
    Document.optional "value" Value.toDocument p.value)

end ConditionParameters

structure ConditionDefinition where
  conditionType : String
  parameters : ConditionParameters
deriving Repr, Inhabited

namespace ConditionDefinition
open Document.Reader

def read : Document.Reader ConditionDefinition
  | o, room + 1, d => do
    match ← fields? ["type", "parameters"] o d with
    | [conditionType, parameters] =>
      some ⟨← conditionType.required (text o room),
        ← parameters.orElse .empty (ConditionParameters.read o room)⟩
    | _ => none
  | _, _, _ => none

def toDocument (c : ConditionDefinition) : Document :=
  .table [("type", .text c.conditionType), ("parameters", c.parameters.toDocument)]

end ConditionDefinition

structure Condition where
  property : String
  operator : Operator
  value : Value
deriving Repr

inductive ConditionKind
  /-- The condition names it. -/
  | named
  /-- The type is bound to it. -/
  | bound (property : String)
deriving Repr, DecidableEq

structure ConditionRegistry where
  kinds : Dict ConditionKind

namespace ConditionRegistry

def empty : ConditionRegistry := ⟨Dict.empty⟩

def register (r : ConditionRegistry) (conditionType : String) (kind : ConditionKind) :
    ConditionRegistry :=
  ⟨r.kinds.insert conditionType kind⟩

def helpdeskTypes : List String :=
  ["subject", "description", "status", "priority", "source", "branch", "assignee", "reporter",
    "created", "updated"]

def standard : ConditionRegistry :=
  helpdeskTypes.foldl (fun r t => r.register t (.bound t)) (empty.register "field" .named)

def isRegistered (r : ConditionRegistry) (conditionType : String) : Bool :=
  r.kinds.contains conditionType

end ConditionRegistry

structure Target where
  name : String
  metadata? : String → Option FieldMetadata

namespace Target

def metadata (t : Target) (property : String) : Outcome FieldMetadata :=
  match t.metadata? property with
  | some m => .ok m
  | none => .error (.unknownField t.name property)

end Target

namespace Condition

/-- Lists go with the operators that take lists, and moments are given in hours. -/
def checkShape (property : String) (op : Operator) (fieldType : FieldType) (value : Value) :
    Outcome Unit :=
  if op.takesList != value.isList then .error (.wrongShape property op value)
  else if fieldType = .datetime ∧ value.hours?.isNone then .error (.notHours property value)
  else .ok ()

def resolveProperty (conditionType : String) (parameters : ConditionParameters) :
    ConditionKind → Outcome String
  | .bound property => .ok property
  | .named =>
    match parameters.property with
    | some property => .ok property
    | none => .error (.missingProperty conditionType)

def resolveOperator (conditionType property : String) (parameters : ConditionParameters)
    (target : Target) : Outcome (Operator × FieldType) := do
  match parameters.operator with
  | none => .error (.missingOperator conditionType)
  | some name =>
    match Operator.ofName? name with
    | none => .error (.unsupportedOperator property name)
    | some op => do
      let m ← target.metadata property
      if m.fieldType.allows op then .ok (op, m.fieldType)
      else .error (.unsupportedOperator property name)

def resolveValue (property : String) (op : Operator) (fieldType : FieldType)
    (value : Option Value) : Outcome Value :=
  if op.takesValue then
    match value with
    | none => .error (.missingValue property op)
    | some .null => .error (.missingValue property op)
    | some value => do
      checkShape property op fieldType value
      .ok value
  else .ok .null

def resolve (registry : ConditionRegistry) (definition : ConditionDefinition) (target : Target) :
    Outcome Condition := do
  match registry.kinds.get? definition.conditionType with
  | none => .error (.unknownCondition definition.conditionType)
  | some kind => do
    let property ← resolveProperty definition.conditionType definition.parameters kind
    let (op, fieldType) ←
      resolveOperator definition.conditionType property definition.parameters target
    let value ← resolveValue property op fieldType definition.parameters.value
    .ok ⟨property, op, value⟩

end Condition
end Helpdesk
