import Helpdesk.Document.File
import Helpdesk.Field
import Helpdesk.Strategy

/-! Configurations: the entities that rules can target, the priorities, and the strategies. A
configuration is validated before it is used: its classes are told apart, and every name that a query
may contain is an identifier. -/

namespace Helpdesk

structure Config where
  priorities : PriorityTable
  targets : Dict Entity
  /-- Without strategies of its own a configuration has those of the ticket table. -/
  strategies : Option (List StrategyEntry)
deriving Repr, DecidableEq

/-- A nonempty run of ASCII letters, digits and underscores without a digit in front. -/
def isIdentifier (s : String) : Bool :=
  match s.toList with
  | [] => false
  | c :: cs => !c.isDigit && (c :: cs).all fun c => c.isAlphanum || c == '_'

namespace Config
open Document Document.Reader

def read : Document.Reader Config
  | o, room + 1, d => do
    match ← fields? ["priority", "targets", "strategies"] o d with
    | [priorities, targets, strategies] =>
      some ⟨← priorities.orElse .standard (PriorityTable.read o room),
        ← targets.orElse Dict.empty (dict Entity.read o room),
        ← strategies.orElse none (option (list StrategyEntry.read) o room)⟩
    | _ => none
  | _, _, _ => none

def toDocument (c : Config) : Document :=
  .table ([("priority", c.priorities.toDocument),
    ("targets", .table (c.targets.entries.map fun e => (e.1, e.2.toDocument)))] ++
    Document.optional "strategies" (fun es => .list (es.map StrategyEntry.toDocument)) c.strategies)

def ticketEntity : Entity where
  className := "Ticket"
  table := "tickets"
  fields := Dict.ofList [
    ("id", ⟨"id", .integer⟩),
    ("key", ⟨"key", .text⟩),
    ("subject", ⟨"subject", .text⟩),
    ("description", ⟨"description", .text⟩),
    ("status", ⟨"status", .enum⟩),
    ("priority", ⟨"priority", .weightedEnum⟩),
    ("source", ⟨"source", .enum⟩),
    ("branch", ⟨"branch", .association⟩),
    ("assignee", ⟨"assignee", .user⟩),
    ("reporter", ⟨"reporter", .user⟩),
    ("created", ⟨"created_at", .datetime⟩),
    ("updated", ⟨"updated_at", .datetime⟩)]

def helpdesk : Config := ⟨.standard, Dict.ofList [("ticket", ticketEntity)], none⟩

def registry (c : Config) : StrategyRegistry :=
  match c.strategies with
  | some entries => .ofEntries entries
  | none => .helpdesk

def checkIdentifier (place value : String) : Outcome Unit :=
  if isIdentifier value then .ok () else .error (.notIdentifier place value)

/-- A property without a column of its own is stored in the column of its name. -/
def withColumn (property : String) (m : FieldMetadata) : FieldMetadata :=
  if m.field.isEmpty then { m with field := property } else m

def checkFields (target : String) : List (String × FieldMetadata) → Outcome Unit
  | [] => .ok ()
  | (property, m) :: fields => do
    checkIdentifier ("targets." ++ target ++ ".fields." ++ property) (withColumn property m).field
    checkFields target fields

/-- Checks targets in their order; `seen` holds the classes of the targets before them. -/
def checkTargets (seen : List (String × String)) : List (String × Entity) → Outcome Unit
  | [] => .ok ()
  | (target, e) :: targets => do
    match seen.lookup e.className with
    | some other => .error (.classBoundTwice e.className other target)
    | none => do
      checkIdentifier ("targets." ++ target ++ ".table") e.table
      checkFields target e.fields.entries
      checkTargets ((e.className, target) :: seen) targets

def checkStrategy (e : StrategyEntry) : Outcome Unit := do
  checkIdentifier "strategies.field" e.field
  match e.strategy with
  | .associationContains join => do
    checkIdentifier "strategies.join.table" join.table
    checkIdentifier "strategies.join.key" join.key
    checkIdentifier "strategies.join.display" join.display
  | _ => .ok ()

def checkStrategies : List StrategyEntry → Outcome Unit
  | [] => .ok ()
  | e :: es => do
    checkStrategy e
    checkStrategies es

def withColumns (c : Config) : Config :=
  { c with targets := c.targets.mapWithKey fun _ e => { e with fields := e.fields.mapWithKey withColumn } }

def validate (c : Config) : Outcome Config := do
  checkTargets [] c.targets.entries
  checkStrategies (c.strategies.getD [])
  .ok c.withColumns

def ofToml (s : String) : Outcome Config := do
  let c ← ofTomlText read s
  c.validate

def load (file : File) : Outcome Config := do
  let c ← file.load read
  c.validate

def target? (c : Config) (target : String) : Option Entity := c.targets.get? target

def classTarget? (c : Config) (className : String) : Option (String × Entity) :=
  c.targets.entries.find? fun e => e.2.className == className

def targetByClass (c : Config) (className : String) : Outcome String :=
  match c.classTarget? className with
  | some (target, _) => .ok target
  | none => .error (.unboundClass className)

def entity (c : Config) (target : String) : Outcome Entity :=
  match c.target? target with
  | some e => .ok e
  | none => .error (.unknownTarget target)

def isDatetime (c : Config) (target property : String) : Bool :=
  match (c.target? target).bind fun e => e.fields.get? property with
  | some m => m.fieldType == .datetime
  | none => false

def metadata? (c : Config) (className property : String) : Option FieldMetadata :=
  (c.classTarget? className).bind fun (_, e) => e.fields.get? property

end Config

structure MetadataResolver where
  metadata? : String → String → Option FieldMetadata

instance : Coe Config MetadataResolver := ⟨fun c => ⟨c.metadata?⟩⟩

end Helpdesk
