import Helpdesk.Config
import Helpdesk.Query.Statement
import Helpdesk.Rule

/-! Compilation of rules into queries. A group becomes the conjunction or disjunction of its children, or
of its conditions when it has no children; one failing part fails the whole. -/

namespace Helpdesk

structure Compiler where
  config : Config
  metadata : MetadataResolver
  priorities : PriorityTable
  conditions : ConditionRegistry
  strategies : StrategyRegistry
  /-- The moment from which ages are counted. -/
  now : Time.Instant

namespace Compiler

def ofConfig (config : Config) (now : Time.Instant) : Compiler where
  config := config
  metadata := config
  priorities := config.priorities
  conditions := .standard
  strategies := config.registry
  now := now

def millisPerHour : Double := Double.ofInt 3600000

/-- The moment that lies a number of hours before now, to the nearest millisecond. -/
def hoursAgo (now : Time.Instant) (property : String) (value : Value) : Outcome Value :=
  match value.hours? with
  | none => .error (.notHours property value)
  | some hours =>
    let millis := (hours * millisPerHour).roundHalfAway.toInt64Saturating
    match now.minusMillis? millis.toNat with
    | none => .error (.notHours property value)
    | some t => .ok (.moment t)

/-- Conditions on moments are given as ages: their order is mirrored and their value counted back. -/
def comparison (c : Compiler) (target : Target) (condition : Condition) : Outcome (Operator × Value) :=
  if c.config.isDatetime target.name condition.property then
    match condition.operator.timeMirror? with
    | none => .error (.unsupportedOperator condition.property condition.operator.name)
    | some op => do
      let value ← hoursAgo c.now condition.property condition.value
      .ok (op, value)
  else .ok (condition.operator, condition.value)

def compileCondition (c : Compiler) (target : Target) (condition : Condition) (b : Builder) :
    Outcome (Predicate × Builder) := do
  let (op, value) ← c.comparison target condition
  let m ← target.metadata condition.property
  match c.strategies.resolve? m.field op with
  | none => .ok (b.compare m.field op value)
  | some strategy =>
    match strategy.compile b m.field op value c.priorities with
    | (.ok p, b) => .ok (p, b)
    | (.error e, _) => .error e

def compileConditions (c : Compiler) (target : Target) :
    List ConditionDefinition → Builder → Outcome (List Predicate × Builder)
  | [], b => .ok ([], b)
  | definition :: definitions, b => do
    let condition ← Condition.resolve c.conditions definition target
    let (p, b) ← c.compileCondition target condition b
    let (ps, b) ← compileConditions c target definitions b
    .ok (p :: ps, b)

mutual
def compileGroup (c : Compiler) (target : Target) : Group → Builder → Outcome (Predicate × Builder)
  | ⟨connector, conditions, children⟩, b => do
    let connector ← Connector.ofName connector
    let (terms, b) ← match children with
      | [] => c.compileConditions target conditions b
      | g :: gs => do
        let (p, b) ← compileGroup c target g b
        let (ps, b) ← compileGroups c target gs b
        .ok (p :: ps, b)
    .ok (connector.combine terms, b)

def compileGroups (c : Compiler) (target : Target) :
    List Group → Builder → Outcome (List Predicate × Builder)
  | [], b => .ok ([], b)
  | g :: gs, b => do
    let (p, b) ← compileGroup c target g b
    let (ps, b) ← compileGroups c target gs b
    .ok (p :: ps, b)
end

def targetQuery (c : Compiler) (group : Group) (target : String) : Outcome Query := do
  let entity ← c.config.entity target
  let (p, b) ← c.compileGroup ⟨target, c.metadata.metadata? entity.className⟩ group
    (.selectFrom entity.table)
  .ok (b.toQuery p)

def classQuery (c : Compiler) (group : Group) (className : String) : Outcome Query := do
  let target ← c.config.targetByClass className
  c.targetQuery group target

def ruleQuery (c : Compiler) (rule : Rule) : Outcome Query := c.targetQuery rule.grouping rule.target

end Compiler
end Helpdesk
