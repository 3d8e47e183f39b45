import Helpdesk.Config
import Helpdesk.Rule

/-! What rule files and configuration files may contain, as JSON Schema documents that editors understand.
A schema is a table of statements about a document; named parts stand under `definitions`. -/

namespace Helpdesk.Cli.FileSchema

abbrev Statements := List (String × Document)

def texts (ss : List String) : Document := .list (ss.map .text)

def described (s : String) : Statements := [("description", .text s)]

def standard (d : Document) : Statements := [("default", d)]

def ofType (name : String) : Statements := [("type", .text name)]

def ofTypes (names : List String) : Statements := [("type", texts names)]

def text : Statements := ofType "string"

def part (name : String) : Statements := [("$ref", .text ("#/definitions/" ++ name))]

def wrapped (name : String) : Statements := [("allOf", .list [.table (part name)])]

def anyOf (choices : List Statements) : Statements := [("anyOf", .list (choices.map .table))]

def oneOf (choices : List Statements) : Statements := [("oneOf", .list (choices.map .table))]

def partOrNull (name : String) : Statements := anyOf [part name, ofType "null"]

def items (s : Statements) : Statements := [("items", .table s)]

def listOf (s : Statements) : Statements := ofType "array" ++ items s

def mapTo (s : Statements) : Statements := ofType "object" ++ [("additionalProperties", .table s)]

def names (ss : List String) : Statements := text ++ [("enum", texts ss)]

def members (required : List String) (properties : List (String × Statements)) : Statements :=
  (if required.isEmpty then [] else [("required", texts required)]) ++
    [("properties", .table (properties.map fun p => (p.1, .table p.2)))]

def record (required : List String) (properties : List (String × Statements)) : Statements :=
  ofType "object" ++ members required properties

def integer64 : Statements := ofType "integer" ++ [("format", .text "int64")]

def association : Statements :=
  described "A many-to-one association from a target field to another table." ++
    record ["table"] [
      ("display", described "Human-readable column searched by \"contains\" conditions." ++
        standard (.text "name") ++ text),
      ("key", described "Column of `table` the target field references." ++
        standard (.text "id") ++ text),
      ("table", described "Associated table." ++ text)]

def entity : Statements :=
  described "Entity configuration bound to a target type." ++
    record ["class", "table"] [
      ("class", described "Entity class name, as passed to `get_targets`." ++ text),
      ("fields", described "Logical property name -> field metadata." ++ standard (.table []) ++
        mapTo (part "FieldMetadata")),
      ("table", described "Storage table holding the entities." ++ text)]

def fieldMetadata : Statements :=
  described "How a logical property is stored." ++
    record ["type"] [
      ("field", described "Physical field (column) name. Defaults to the property name." ++ text),
      ("type", part "FieldType")]

def describedType (s : String) (t : FieldType) : Statements := described s ++ names [t.name]

def fieldType : Statements :=
  described "Declared data type of a target property." ++ oneOf [
    names ([FieldType.text, .integer, .boolean].map FieldType.name),
    describedType "A closed set of values compared by identity (e.g. status)." .enum,
    describedType "A closed set of values with a rank (e.g. priority)." .weightedEnum,
    describedType "A timestamp compared against \"N hours ago\"." .datetime,
    describedType "A many-to-one reference to another table (e.g. branch)." .association,
    describedType "A reference to a user account." .user]

def operator : Statements :=
  described ("An operator a condition may export.\n\nRule definitions spell operators in snake_case " ++
    "(`not_in`); the camelCase spellings of older rule exports (`notIn`) are accepted as aliases.") ++
    names (Operator.all.map Operator.name)

def priorities : Statements := mapTo integer64

def strategyKind (name : String) : String × Statements := ("kind", names [name])

def strategyEntry : Statements :=
  described "One registry entry as declared in configuration." ++ ofType "object" ++ oneOf [
    described "Join the association and substring-match its display column." ++
      record ["join", "kind"] [("join", part "Association"), strategyKind "association_contains"],
    described "Resolve a `<kind>_<id>` user identifier to the numeric id." ++
      record ["kind"] [
        ("account", described "Restrict identifiers to one account store." ++ partOrNull "UserKind"),
        strategyKind "identity_lookup"],
    described "Expand a weighted-enum threshold into the set of values past it." ++
      record ["kind"] [strategyKind "weighted_range"]] ++
    members ["field"] [("field", text), ("operator", partOrNull "Operator")]

def account : Statements :=
  described "Account store a user belongs to." ++ oneOf [
    described "Staff account." ++ names [Account.oro.name],
    described "Customer account." ++ names [Account.diamante.name]]

def condition : Statements :=
  described "A condition as stored in a group: its declared type plus parameters." ++
    record ["type"] [
      ("parameters", standard (.table []) ++ wrapped "ConditionParameters"),
      ("type", text)]

def conditionParameters : Statements :=
  described ("Raw condition parameters as persisted in a rule.\n\nThe operator stays a string until " ++
    "resolution so that an unknown operator is reported as unsupported rather than as a parse " ++
    "failure.") ++
    record [] [
      ("operator", ofTypes ["string", "null"]),
      ("property", ofTypes ["string", "null"]),
      ("value", partOrNull "Value")]

def group : Statements :=
  described ("A node of a rule's boolean tree.\n\nThe connector is kept as persisted and only checked " ++
    "at compile time, so a stored rule with a bad connector still loads and fails on evaluation. " ++
    "When `children` is non-empty the group's own `conditions` are ignored.") ++
    record ["connector"] [
      ("children", listOf (part "Group")),
      ("conditions", listOf (part "ConditionDefinition")),
      ("connector", text)]

def value : Statements :=
  described "A condition parameter or a column value read back from storage." ++ anyOf [
    ofType "null", ofType "boolean", integer64, ofType "number" ++ [("format", .text "double")], text,
    listOf (part "Value")]

def file (title : String) (content : Statements) (definitions : List (String × Statements)) : Document :=
  .table ([("$schema", .text "http://json-schema.org/draft-07/schema#"), ("title", .text title)] ++
    content ++ [("definitions", .table (definitions.map fun d => (d.1, .table d.2)))])

def ruleFile : Document :=
  file "Rule"
    (described "A named automation rule: a target type plus its root group." ++
      record ["grouping", "name", "target"] [
        ("grouping", part "Group"),
        ("name", text),
        ("target", described "Target type name, e.g. `ticket`." ++ text)])
    [("ConditionDefinition", condition), ("ConditionParameters", conditionParameters),
      ("Group", group), ("Value", value)]

def configFile : Document :=
  file "AutomationConfig"
    (described "Root configuration structure." ++
      record [] [
        ("priority", standard PriorityTable.standard.toDocument ++ wrapped "PriorityWeights"),
        ("strategies", described "Strategy overrides. Absent means the helpdesk registry." ++
          ofTypes ["array", "null"] ++ items (part "StrategyEntry")),
        ("targets", standard (.table []) ++ mapTo (part "EntityConfiguration"))])
    [("Association", association), ("EntityConfiguration", entity), ("FieldMetadata", fieldMetadata),
      ("FieldType", fieldType), ("Operator", operator), ("PriorityWeights", priorities),
      ("StrategyEntry", strategyEntry), ("UserKind", account)]

end Helpdesk.Cli.FileSchema
