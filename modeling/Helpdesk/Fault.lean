import Helpdesk.Operator
import Helpdesk.User
import Helpdesk.Value

/-! Faults: why a rule could not be read, compiled or run. Each is a cause with what it is about;
`Fault.kind` sorts the causes and `Fault.message?` words them. -/

namespace Helpdesk

inductive CellType
  | null
  | integer
  | real
  | text
  | blob
deriving Repr, DecidableEq, Inhabited

def CellType.name : CellType → String
  | .null => "Null"
  | .integer => "Integer"
  | .real => "Real"
  | .text => "Text"
  | .blob => "Blob"

inductive StoreFault
  | noSuchTable (table : String)
  | noSuchColumn (column : String)
  /-- A column that a new row would be given a cell in. -/
  | noColumnNamed (table column : String)
  | nearWord (word : String)
  | notUnique (columns : List String)
  | foreignKey
  | notNull (column : String)
  | datatypeMismatch
  | full
  /-- A cell whose text is none of the known values. -/
  | unknownValue (value column : String)
  /-- A cell whose text is no moment. -/
  | unknownMoment (value column : String)
  | wrongType (found : CellType) (index : Nat) (column : String)
  | noPosition (index : Nat)
  /-- A list where one value is bound. -/
  | boundList
  | notDatabase
deriving Repr, DecidableEq

def commaSeparated : List String → String
  | [] => ""
  | [s] => s
  | s :: ss => s ++ ", " ++ commaSeparated ss

def StoreFault.text : StoreFault → String
  | .noSuchTable table => "no such table: " ++ table
  | .noSuchColumn column => "no such column: " ++ column
  | .noColumnNamed table column => "table " ++ table ++ " has no column named " ++ column
  | .nearWord word => "near \"" ++ word ++ "\": syntax error"
  | .notUnique columns => "UNIQUE constraint failed: " ++ commaSeparated columns
  | .foreignKey => "FOREIGN KEY constraint failed"
  | .notNull column => "NOT NULL constraint failed: " ++ column
  | .datatypeMismatch => "datatype mismatch"
  | .full => "database or disk is full"
  | .unknownValue value column =>
    "Conversion error from type Text at index: 0, corrupted data: invalid value '" ++ value ++
      "' in column '" ++ column ++ "'"
  | .unknownMoment value column =>
    "Conversion error from type Text at index: 0, corrupted data: invalid timestamp '" ++ value ++
      "' in column '" ++ column ++ "'"
  | .wrongType found index column =>
    "Invalid column type " ++ found.name ++ " at index: " ++ String.ofList (Text.Decimal.ofNat index) ++ ", name: " ++ column
  | .noPosition index => "Invalid column index: " ++ String.ofList (Text.Decimal.ofNat index)
  | .boundList => "corrupted data: list values must be expanded before binding"
  | .notDatabase => "file is not a database"

inductive FaultKind
  | configuration
  | conditionResolution
  | unknownField
  | unsupportedOperator
  | invalidUser
  | invalidStatus
  | invalidSource
  | invalidAuditAction
  | ticketNotFound
  | userNotFound
  | storage
  | io
  | json
  | toml
  | corruptedData
  | noChanges
deriving Repr, DecidableEq

inductive Fault
  | unknownConnector (connector : String)
  | unsupportedFile (path : String)
  | classBoundTwice (className first second : String)
  | notIdentifier (place value : String)
  | unboundClass (className : String)
  | unknownTarget (target : String)
  | unknownCondition (conditionType : String)
  | missingProperty (conditionType : String)
  | missingOperator (conditionType : String)
  | missingValue (property : String) (op : Operator)
  | wrongShape (property : String) (op : Operator) (value : Value)
  | notHours (property : String) (value : Value)
  | notSearchText (field : String) (value : Value)
  | notUserText (field : String) (value : Value)
  | notUser (field identifier : String)
  | wrongAccount (field : String) (account : Account) (identifier : String)
  | notThreshold (field : String) (value : Value)
  | unknownThreshold (field threshold : String)
  | misfit (parameter : String) (op : Operator)
  | unboundParameter (parameter : String)
  | unknownField (target property : String)
  | unsupportedOperator (property operator : String)
  | invalidUser (identifier : String)
  | invalidStatus (status : String)
  | invalidSource (source : String)
  | invalidAction (action : String)
  | ticketNotFound (key : String)
  | userNotFound (user : User)
  | corruptedAudit (objectClass : String) (objectId : Int64)
  | storage (fault : StoreFault)
  | unreadableFile
  | unreadableJson
  | unreadableToml
  | noChanges (key : String)
deriving Repr

namespace Fault

def kind : Fault → FaultKind
  | .unknownConnector _ => .configuration
  | .unsupportedFile _ => .configuration
  | .classBoundTwice _ _ _ => .configuration
  | .notIdentifier _ _ => .configuration
  | .unboundClass _ => .configuration
  | .unknownTarget _ => .configuration
  | .unknownCondition _ => .conditionResolution
  | .missingProperty _ => .conditionResolution
  | .missingOperator _ => .conditionResolution
  | .missingValue _ _ => .conditionResolution
  | .wrongShape _ _ _ => .conditionResolution
  | .notHours _ _ => .conditionResolution
  | .notSearchText _ _ => .conditionResolution
  | .notUserText _ _ => .conditionResolution
  | .notUser _ _ => .conditionResolution
  | .wrongAccount _ _ _ => .conditionResolution
  | .notThreshold _ _ => .conditionResolution
  | .unknownThreshold _ _ => .conditionResolution
  | .misfit _ _ => .conditionResolution
  | .unboundParameter _ => .corruptedData
  | .unknownField _ _ => .unknownField
  | .unsupportedOperator _ _ => .unsupportedOperator
  | .invalidUser _ => .invalidUser
  | .invalidStatus _ => .invalidStatus
  | .invalidSource _ => .invalidSource
  | .invalidAction _ => .invalidAuditAction
  | .ticketNotFound _ => .ticketNotFound
  | .userNotFound _ => .userNotFound
  | .corruptedAudit _ _ => .corruptedData
  | .storage _ => .storage
  | .unreadableFile => .io
  | .unreadableJson => .json
  | .unreadableToml => .toml
  | .noChanges _ => .noChanges

/-- What a fault is about, without the words that its kind puts in front. -/
def detail : Fault → String
  | .unknownConnector connector =>
    "connector '" ++ connector ++ "' is not supported, expected 'and' or 'or'"
  | .unsupportedFile path =>
    "unsupported file type: " ++ path ++ "\n  hint: use a .toml or .json file"
  | .classBoundTwice className first second =>
    "class '" ++ className ++ "' is bound to both '" ++ first ++ "' and '" ++ second ++ "'"
  | .notIdentifier place value =>
    place ++ ": '" ++ value ++
      "' is not a valid identifier\n  hint: use letters, digits and underscores"
  | .unboundClass className => "no target type is bound to class '" ++ className ++ "'"
  | .unknownTarget target => "unknown target type '" ++ target ++ "'"
  | .unknownCondition conditionType => "unknown condition type '" ++ conditionType ++ "'"
  | .missingProperty conditionType => "'" ++ conditionType ++ "' condition requires a property"
  | .missingOperator conditionType => "'" ++ conditionType ++ "' condition requires an operator"
  | .missingValue property op =>
    "'" ++ property ++ "' condition with operator '" ++ op.name ++ "' requires a value"
  | .wrongShape property op value =>
    "'" ++ property ++ "' condition with operator '" ++ op.name ++ "' expects " ++
      (if op.takesList then "a list" else "a single value") ++ ", got " ++ value.toText
  | .notHours property value =>
    "'" ++ property ++ "' expects a non-negative number of hours, got " ++ value.toText
  | .notSearchText field value =>
    "'" ++ field ++ "' search term must be text, got " ++ value.toText
  | .notUserText field value => "'" ++ field ++ "' expects a user identifier, got " ++ value.toText
  | .notUser field identifier =>
    "'" ++ field ++ "': invalid user identifier: '" ++ identifier ++
      "'\n  hint: expected <kind>_<id> with kind oro or diamante"
  | .wrongAccount field account identifier =>
    "'" ++ field ++ "' only accepts " ++ account.name ++ " users, got '" ++ identifier ++ "'"
  | .notThreshold field value =>
    "'" ++ field ++ "' threshold must be a value name, got " ++ value.toText
  | .unknownThreshold field threshold => "unknown " ++ field ++ " value '" ++ threshold ++ "'"
  | .misfit parameter op =>
    "parameter :" ++ parameter ++ " does not fit operator '" ++ op.name ++ "'"
  | .unboundParameter parameter => "unbound parameter :" ++ parameter
  | .unknownField target property => "'" ++ property ++ "' for target '" ++ target ++ "'"
  | .unsupportedOperator property operator =>
    "'" ++ operator ++ "' does not exist for '" ++ property ++
      "'\n  hint: supported operators are: " ++ Operator.names
  | .invalidUser identifier =>
    "'" ++ identifier ++ "'\n  hint: expected <kind>_<id> with kind oro or diamante"
  | .invalidStatus status =>
    "'" ++ status ++
      "'\n  hint: valid statuses are: new, open, pending, in_progress, closed, on_hold"
  | .invalidSource source => "'" ++ source ++ "'\n  hint: valid sources are: phone, email, web"
  | .invalidAction action => "'" ++ action ++ "'"
  | .ticketNotFound key => key
  | .userNotFound user => user.identifier
  | .corruptedAudit objectClass objectId =>
    "invalid audit data for " ++ objectClass ++ " " ++ String.ofList (Text.Decimal.ofInt64 objectId)
  | .storage fault => fault.text
  | .unreadableFile => ""
  | .unreadableJson => ""
  | .unreadableToml => ""
  | .noChanges key =>
    key ++ "\n  hint: notifications are built from the ticket's audit log"

end Fault

/-- The words in front of every message of a kind; kinds that have none give no message. -/
def FaultKind.preamble? : FaultKind → Option String
  | .configuration => some "invalid configuration for rule: "
  | .conditionResolution => some "cannot resolve condition: "
  | .unknownField => some "unknown field "
  | .unsupportedOperator => some "operator "
  | .invalidUser => some "invalid user identifier: "
  | .invalidStatus => some "invalid status: "
  | .invalidSource => some "invalid source: "
  | .invalidAuditAction => some "invalid audit action: "
  | .ticketNotFound => some "ticket not found: "
  | .userNotFound => some "user not found: "
  | .storage => some "storage error: "
  | .corruptedData => some "corrupted data: "
  | .noChanges => some "no changes logged for ticket "
  | .io => none
  | .json => none
  | .toml => none

def FaultKind.name : FaultKind → String
  | .configuration => "Configuration"
  | .conditionResolution => "ConditionResolution"
  | .unknownField => "UnknownField"
  | .unsupportedOperator => "UnsupportedOperator"
  | .invalidUser => "InvalidUser"
  | .invalidStatus => "InvalidStatus"
  | .invalidSource => "InvalidSource"
  | .invalidAuditAction => "InvalidAuditAction"
  | .ticketNotFound => "TicketNotFound"
  | .userNotFound => "UserNotFound"
  | .storage => "Storage"
  | .io => "Io"
  | .json => "Json"
  | .toml => "Toml"
  | .corruptedData => "CorruptedData"
  | .noChanges => "NoChanges"

def Fault.message? (f : Fault) : Option String := f.kind.preamble?.map (· ++ f.detail)

abbrev Outcome := Except Fault

theorem bind_eq_ok {ε α β : Type} {x : Except ε α} {f : α → Except ε β} {b : β} :
    x >>= f = .ok b ↔ ∃ a, x = .ok a ∧ f a = .ok b := by
  cases x <;> simp [bind, Except.bind]

theorem map_eq_ok {ε α β : Type} {x : Except ε α} {f : α → β} {b : β} :
    x.map f = .ok b ↔ ∃ a, x = .ok a ∧ f a = b := by
  cases x <;> simp [Except.map]

end Helpdesk
