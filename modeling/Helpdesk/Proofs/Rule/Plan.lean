import Helpdesk.Compiler

/-! What a rule asks of a row, before its query gives names to parameters and joined tables. A plan
has the shape of the rule that it is for. Compiling a rule is the same as making its plan, which can
fail and needs no builder, and writing the plan down with a builder, which cannot fail
(`compileGroup_eq`). -/

namespace Helpdesk

/-- Where a value is looked for: in a column of the table itself, or in rows that it refers to. -/
inductive Site
  | own (field : String)
  | joined (field : String) (a : Association)
deriving Repr, DecidableEq

def Site.field : Site → String
  | .own field => field
  | .joined field _ => field

inductive Test
  | never
  | nullCheck (field : String) (negated : Bool)
  | compare (site : Site) (op : Operator) (value : Value)
deriving Repr

inductive Plan
  | test (t : Test)
  | group (connector : Connector) (terms : List Plan)
deriving Repr

namespace Test

def plain (field : String) (op : Operator) (value : Value) : Test :=
  match op with
  | .isNull => .nullCheck field false
  | .isNotNull => .nullCheck field true
  | op => .compare (.own field) op value

end Test

/-- What a strategy makes of a condition. -/
def Strategy.test (s : Strategy) (field : String) (op : Operator) (value : Value)
    (priorities : PriorityTable) : Outcome Test :=
  if !op.takesValue then .ok (.plain field op value)
  else match s with
    | .associationContains join =>
      (searchValue field op value).map fun value => .compare (.joined field join) op value
    | .identityLookup account =>
      (userNumbers field account value).map fun value => .plain field op value
    | .weightedRange =>
      match keep? op with
      | none => .ok (.plain field op value)
      | some keep =>
        (pastThreshold field priorities keep value).map fun
          | [] => .never
          | matching => .plain field .oneOf (.ofTexts matching)

def Test.oneOfTexts (field : String) : List String → Test
  | [] => .never
  | texts => .plain field .oneOf (.ofTexts texts)

theorem Strategy.test_weightedRange {op : Operator} {keep : Int64 → Int64 → Bool}
    (ordering : keep? op = some keep) (field : String) (value : Value) (priorities : PriorityTable) :
    weightedRange.test field op value priorities =
      (pastThreshold field priorities keep value).map (Test.oneOfTexts field) := by
  have valued : op.takesValue = true := by
    cases op <;> first | rfl | cases ordering
  simp only [test, valued, ordering, Bool.not_true, Bool.false_eq_true, if_false]
  cases pastThreshold field priorities keep value with
  | error e => rfl
  | ok texts => cases texts <;> rfl

theorem Strategy.test_eq_ok {s : Strategy} {field : String} {op : Operator} {value : Value}
    {priorities : PriorityTable} {t : Test} (h : s.test field op value priorities = .ok t) :
    t = .plain field op value ∨
    (∃ join sought, s = .associationContains join ∧ op.takesValue = true ∧
      searchValue field op value = .ok sought ∧ t = .compare (.joined field join) op sought) ∨
    (∃ account numbers, s = .identityLookup account ∧ op.takesValue = true ∧
      userNumbers field account value = .ok numbers ∧ t = .plain field op numbers) ∨
    ∃ keep texts, s = .weightedRange ∧ keep? op = some keep ∧
      pastThreshold field priorities keep value = .ok texts ∧ t = .oneOfTexts field texts := by
  unfold test at h
  by_cases valued : op.takesValue = true
  · simp only [valued, Bool.not_true, Bool.false_eq_true, if_false] at h
    cases s with
    | associationContains join =>
      obtain ⟨sought, found, rfl⟩ := map_eq_ok.1 h
      exact .inr (.inl ⟨join, sought, rfl, valued, found, rfl⟩)
    | identityLookup account =>
      obtain ⟨numbers, found, rfl⟩ := map_eq_ok.1 h
      exact .inr (.inr (.inl ⟨account, numbers, rfl, valued, found, rfl⟩))
    | weightedRange =>
      cases ordering : keep? op with
      | none =>
        rw [ordering] at h
        exact .inl (Except.ok.inj h).symm
      | some keep =>
        rw [ordering] at h
        obtain ⟨texts, past, rfl⟩ := map_eq_ok.1 h
        exact .inr (.inr (.inr ⟨keep, texts, rfl, rfl, past, by cases texts <;> rfl⟩))
  · rw [if_pos (by simpa using valued)] at h
    exact .inl (Except.ok.inj h).symm

namespace Compiler

def test (c : Compiler) (target : Target) (condition : Condition) : Outcome Test := do
  let (op, value) ← c.comparison target condition
  let m ← target.metadata condition.property
  match c.strategies.resolve? m.field op with
  | none => .ok (.plain m.field op value)
  | some strategy => strategy.test m.field op value c.priorities

def term (c : Compiler) (target : Target) (definition : ConditionDefinition) : Outcome Plan := do
  let condition ← Condition.resolve c.conditions definition target
  let t ← c.test target condition
  .ok (.test t)

mutual
/-- The plan of a group; one failing part fails the whole. -/
def plan (c : Compiler) (target : Target) : Group → Outcome Plan
  | ⟨connector, conditions, []⟩ => do
    let connector ← Connector.ofName connector
    let terms ← conditions.mapM (c.term target)
    .ok (.group connector terms)
  | ⟨connector, _, g :: gs⟩ => do
    let connector ← Connector.ofName connector
    let p ← plan c target g
    let ps ← plans c target gs
    .ok (.group connector (p :: ps))

def plans (c : Compiler) (target : Target) : List Group → Outcome (List Plan)
  | [] => .ok []
  | g :: gs => do
    let p ← plan c target g
    let ps ← plans c target gs
    .ok (p :: ps)
end

theorem plans_eq_mapM (c : Compiler) (target : Target) (gs : List Group) :
    c.plans target gs = gs.mapM (c.plan target) := by
  induction gs with
  | nil => rfl
  | cons g gs ih => rw [plans, ih, List.mapM_cons]; rfl

end Compiler

def Builder.locate (b : Builder) : Site → Column × Builder
  | .own field => (column field, b)
  | .joined field a =>
    let (name, b) := b.leftJoin field a
    (⟨name, a.display⟩, b)

def Test.emit (t : Test) (b : Builder) : Predicate × Builder :=
  match t with
  | .never => (.never, b)
  | .nullCheck field negated => (.nullCheck (Builder.column field) negated, b)
  | .compare site op value =>
    let (column, b) := b.locate site
    let (parameter, b) := b.bind site.field value
    (.compare column op parameter, b)

namespace Plan

mutual
def tests : Plan → List Test
  | .test t => [t]
  | .group _ terms => testsOf terms

def testsOf : List Plan → List Test
  | [] => []
  | p :: ps => tests p ++ testsOf ps
end

mutual
def emit : Plan → Builder → Predicate × Builder
  | .test t, b => t.emit b
  | .group connector terms, b =>
    let (ps, b) := emits terms b
    (connector.combine ps, b)

def emits : List Plan → Builder → List Predicate × Builder
  | [], b => ([], b)
  | p :: ps, b =>
    let (x, b) := emit p b
    let (xs, b) := emits ps b
    (x :: xs, b)
end

end Plan

namespace Compiler

theorem exists_term_of_mem_testsOf {c : Compiler} {target : Target}
    (definitions : List ConditionDefinition) {ps : List Plan}
    (h : definitions.mapM (c.term target) = .ok ps) {t : Test} (ht : t ∈ Plan.testsOf ps) :
    ∃ d, c.term target d = .ok (.test t) := by
  induction definitions generalizing ps with
  | nil =>
    cases h
    exact absurd ht List.not_mem_nil
  | cons d definitions ih =>
    rw [List.mapM_cons] at h
    obtain ⟨p, first, h⟩ := bind_eq_ok.1 h
    obtain ⟨rest, others, h⟩ := bind_eq_ok.1 h
    cases h
    rcases List.mem_append.1 ht with ht | ht
    · refine ⟨d, ?_⟩
      obtain ⟨_, -, made⟩ := bind_eq_ok.1 first
      obtain ⟨u, -, made⟩ := bind_eq_ok.1 made
      cases made
      exact List.mem_singleton.1 ht ▸ first
    · exact ih others ht

mutual
theorem exists_term_of_mem_tests {c : Compiler} {target : Target} : (g : Group) → {p : Plan} →
    c.plan target g = .ok p → {t : Test} → t ∈ p.tests → ∃ d, c.term target d = .ok (.test t)
  | ⟨connector, conditions, []⟩, p, h, t, ht => by
    obtain ⟨connector, _, h⟩ := bind_eq_ok.1 h
    obtain ⟨ps, terms, h⟩ := bind_eq_ok.1 h
    cases h
    exact exists_term_of_mem_testsOf conditions terms ht
  | ⟨connector, conditions, g :: gs⟩, p, h, t, ht => by
    obtain ⟨connector, _, h⟩ := bind_eq_ok.1 h
    obtain ⟨first, planned, h⟩ := bind_eq_ok.1 h
    obtain ⟨rest, others, h⟩ := bind_eq_ok.1 h
    cases h
    rcases List.mem_append.1 ht with ht | ht
    · exact exists_term_of_mem_tests g planned ht
    · exact exists_term_of_mem_plans gs others ht

theorem exists_term_of_mem_plans {c : Compiler} {target : Target} : (gs : List Group) →
    {ps : List Plan} → c.plans target gs = .ok ps → {t : Test} → t ∈ Plan.testsOf ps →
    ∃ d, c.term target d = .ok (.test t)
  | [], ps, h, t, ht => by
    cases h
    exact absurd ht List.not_mem_nil
  | g :: gs, ps, h, t, ht => by
    obtain ⟨first, planned, h⟩ := bind_eq_ok.1 h
    obtain ⟨rest, others, h⟩ := bind_eq_ok.1 h
    cases h
    rcases List.mem_append.1 ht with ht | ht
    · exact exists_term_of_mem_tests g planned ht
    · exact exists_term_of_mem_plans gs others ht
end

end Compiler

def Plan.query (p : Plan) (table : String) : Query :=
  let (x, b) := p.emit (.selectFrom table)
  b.toQuery x

theorem Test.emit_plain (field : String) (op : Operator) (value : Value) (b : Builder) :
    (Test.plain field op value).emit b = b.compare field op value := by
  cases op <;> rfl

theorem Strategy.compile_eq (s : Strategy) (b : Builder) (field : String) (op : Operator)
    (value : Value) (priorities : PriorityTable) :
    (match s.compile b field op value priorities with
      | (.ok p, b) => .ok (p, b)
      | (.error e, _) => .error e) =
      (s.test field op value priorities).map fun t => t.emit b := by
  unfold Strategy.compile Strategy.test
  by_cases unary : (!op.takesValue) = true
  · simp [unary, Except.map, Test.emit_plain]
  · simp only [unary, Bool.false_eq_true, if_false]
    cases s with
    | associationContains join =>
      dsimp only
      cases searchValue field op value with
      | error e => rfl
      | ok value => rfl
    | identityLookup account =>
      dsimp only
      cases userNumbers field account value with
      | error e => rfl
      | ok value => simp [Except.map, Test.emit_plain]
    | weightedRange =>
      dsimp only
      cases keep? op with
      | none => simp [Except.map, Test.emit_plain]
      | some keep =>
        dsimp only
        cases pastThreshold field priorities keep value with
        | error e => rfl
        | ok matching =>
          cases matching with
          | nil => rfl
          | cons s matching => simp [Except.map, Test.emit_plain]

namespace Compiler

theorem compileCondition_eq (c : Compiler) (target : Target) (condition : Condition) (b : Builder) :
    c.compileCondition target condition b = (c.test target condition).map fun t => t.emit b := by
  unfold compileCondition test
  cases c.comparison target condition with
  | error e => rfl
  | ok comparison =>
    obtain ⟨op, value⟩ := comparison
    cases target.metadata condition.property with
    | error e => rfl
    | ok m =>
      simp only [bind, Except.bind]
      cases c.strategies.resolve? m.field op with
      | none => simp [Except.map, Test.emit_plain]
      | some strategy => exact strategy.compile_eq b m.field op value c.priorities

theorem compileConditions_eq (c : Compiler) (target : Target)
    (definitions : List ConditionDefinition) :
    ∀ b, c.compileConditions target definitions b =
      (definitions.mapM (c.term target)).map fun ps => Plan.emits ps b := by
  induction definitions with
  | nil => intro b; rfl
  | cons definition definitions ih =>
    intro b
    rw [compileConditions, List.mapM_cons, term]
    cases Condition.resolve c.conditions definition target with
    | error e => rfl
    | ok condition =>
      simp only [bind, Except.bind, compileCondition_eq]
      cases c.test target condition with
      | error e => rfl
      | ok t =>
        simp only [Except.map, ih]
        cases definitions.mapM (c.term target) with
        | error e => rfl
        | ok ps => rfl

mutual
/-- Compiling a group is making its plan and writing it down. -/
theorem compileGroup_eq (c : Compiler) (target : Target) : (g : Group) → (b : Builder) →
    c.compileGroup target g b = (c.plan target g).map fun p => p.emit b
  | ⟨connector, conditions, []⟩, b => by
    rw [compileGroup, plan]
    cases Connector.ofName connector with
    | error e => rfl
    | ok connector =>
      simp only [bind, Except.bind, compileConditions_eq]
      cases conditions.mapM (c.term target) with
      | error e => rfl
      | ok ps => rfl
  | ⟨connector, conditions, g :: gs⟩, b => by
    rw [compileGroup, plan]
    cases Connector.ofName connector with
    | error e => rfl
    | ok connector =>
      simp only [bind, Except.bind, compileGroup_eq c target g]
      cases c.plan target g with
      | error e => rfl
      | ok p =>
        simp only [Except.map, compileGroups_eq c target gs]
        cases c.plans target gs with
        | error e => rfl
        | ok ps => rfl

theorem compileGroups_eq (c : Compiler) (target : Target) : (gs : List Group) → (b : Builder) →
    c.compileGroups target gs b = (c.plans target gs).map fun ps => Plan.emits ps b
  | [], b => rfl
  | g :: gs, b => by
    rw [compileGroups, plans]
    simp only [bind, Except.bind, compileGroup_eq c target g]
    cases c.plan target g with
    | error e => rfl
    | ok p =>
      simp only [Except.map, compileGroups_eq c target gs]
      cases c.plans target gs with
      | error e => rfl
      | ok ps => rfl
end

def target (c : Compiler) (name : String) (e : Entity) : Target :=
  ⟨name, c.metadata.metadata? e.className⟩

theorem targetQuery_eq (c : Compiler) (g : Group) (name : String) :
    c.targetQuery g name = (do
      let e ← c.config.entity name
      let p ← c.plan (c.target name e) g
      .ok (p.query e.table)) := by
  rw [targetQuery]
  cases c.config.entity name with
  | error f => rfl
  | ok e =>
    simp only [bind, Except.bind, compileGroup_eq, target]
    cases c.plan ⟨name, c.metadata.metadata? e.className⟩ g with
    | error f => rfl
    | ok p => rfl

theorem targetQuery_eq_ok {c : Compiler} {g : Group} {name : String} {e : Entity} {q : Query}
    (entity : c.config.entity name = .ok e) :
    c.targetQuery g name = .ok q ↔
      ∃ p, c.plan (c.target name e) g = .ok p ∧ p.query e.table = q := by
  rw [targetQuery_eq, entity]
  change (c.plan (c.target name e) g >>= fun p => .ok (p.query e.table)) = .ok q ↔ _
  simp only [bind_eq_ok, Except.ok.injEq]

end Compiler
end Helpdesk
