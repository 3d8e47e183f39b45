import Helpdesk.Proofs.Rule.Locality
import Helpdesk.Proofs.Rule.Statement

/-! What the text of a statement does not depend on. Erasing a value leaves its shape: whether it is a
list, and of how many items. Two rules that are the same when their values are erased, and whose
thresholds select equally many priorities, have plans that are the same when their values are erased
(`erased_plan`), and so have their queries; the text of a statement is that of the erased query
(`statement_erased`). -/

namespace Helpdesk

/-- The shape of a value: a list of as many nulls, or one null. -/
def Value.erased : Value → Value
  | .list items => .list (items.map fun _ => .null)
  | _ => .null

namespace Value

theorem erased_of_isList {v : Value} (h : v.isList = false) : v.erased = .null := by
  cases v <;> first | rfl | cases h

theorem erased_list_eq_iff {vs ws : List Value} :
    (Value.list vs).erased = (Value.list ws).erased ↔ vs.length = ws.length := by
  rw [erased, erased, list.injEq]
  constructor
  · intro h
    simpa using congrArg List.length h
  · intro h
    rw [List.map_const', List.map_const', h]

theorem erased_ofTexts_eq_iff {vs ws : List String} :
    (ofTexts vs).erased = (ofTexts ws).erased ↔ vs.length = ws.length := by
  rw [ofTexts, ofTexts, erased_list_eq_iff, List.length_map, List.length_map]

theorem eq_of_isList {v : Value} (h : v.isList = true) : ∃ items, v = .list items := by
  cases v with
  | list items => exact ⟨items, rfl⟩
  | _ => cases h

end Value

/-! Erased values in rules. A value that is left out counts as null. -/

def ConditionDefinition.erased (d : ConditionDefinition) : ConditionDefinition :=
  { d with parameters :=
      { d.parameters with value := some (d.parameters.value.getD .null).erased } }

def Part.condition? : Part → Option ConditionDefinition
  | .condition d => some d
  | .connector _ => none

namespace Group

mutual
def erased : Group → Group
  | ⟨connector, conditions, children⟩ =>
    ⟨connector, conditions.map ConditionDefinition.erased, erasedAll children⟩

def erasedAll : List Group → List Group
  | [] => []
  | g :: gs => erased g :: erasedAll gs
end

def effective (g : Group) : List ConditionDefinition := g.parts.filterMap Part.condition?

def effectiveOf (gs : List Group) : List ConditionDefinition :=
  (partsOf gs).filterMap Part.condition?

theorem effective_leaf (connector : String) (conditions : List ConditionDefinition) :
    effective ⟨connector, conditions, []⟩ = conditions := by
  have ofConditions : Part.condition? ∘ Part.condition = some := rfl
  rw [effective, parts, List.filterMap_cons, Part.condition?, List.filterMap_map, ofConditions,
    List.filterMap_some]

theorem effective_node (connector : String) (conditions : List ConditionDefinition) (g : Group)
    (gs : List Group) :
    effective ⟨connector, conditions, g :: gs⟩ = effective g ++ effectiveOf gs := by
  rw [effective, parts, List.filterMap_cons, Part.condition?, List.filterMap_append, effective,
    effectiveOf]

theorem effectiveOf_cons (g : Group) (gs : List Group) :
    effectiveOf (g :: gs) = effective g ++ effectiveOf gs := by
  rw [effectiveOf, partsOf, List.filterMap_append, effective, effectiveOf]

mutual
theorem effective_erased : (g : Group) →
    g.erased.effective = g.effective.map ConditionDefinition.erased
  | ⟨connector, conditions, []⟩ => by
    rw [erased, erasedAll, effective_leaf, effective_leaf]
  | ⟨connector, conditions, g :: gs⟩ => by
    rw [erased, erasedAll, effective_node, effective_node, effective_erased g,
      effectiveOf_erasedAll gs, List.map_append]

theorem effectiveOf_erasedAll : (gs : List Group) →
    effectiveOf (erasedAll gs) = (effectiveOf gs).map ConditionDefinition.erased
  | [] => rfl
  | g :: gs => by
    rw [erasedAll, effectiveOf_cons, effectiveOf_cons, effective_erased g, effectiveOf_erasedAll gs,
      List.map_append]
end

theorem length_effective {g g' : Group} (same : g.erased = g'.erased) :
    g.effective.length = g'.effective.length := by
  have conditions := congrArg List.length (congrArg effective same)
  rwa [effective_erased, effective_erased, List.length_map, List.length_map] at conditions

end Group

namespace Condition

def erased (c : Condition) : Condition := { c with value := c.value.erased }

theorem resolve_eq_ok {registry : ConditionRegistry} {target : Target} {d : ConditionDefinition}
    {c : Condition} (h : resolve registry d target = .ok c) : ∃ kind fieldType,
      registry.kinds.get? d.conditionType = some kind ∧
      resolveProperty d.conditionType d.parameters kind = .ok c.property ∧
      resolveOperator d.conditionType c.property d.parameters target = .ok (c.operator, fieldType) ∧
      resolveValue c.property c.operator fieldType d.parameters.value = .ok c.value := by
  rw [resolve] at h
  split at h
  · cases h
  next kind known =>
    obtain ⟨property, named, h⟩ := bind_eq_ok.1 h
    obtain ⟨⟨op, fieldType⟩, allowed, h⟩ := bind_eq_ok.1 h
    obtain ⟨value, shaped, h⟩ := bind_eq_ok.1 h
    cases h
    exact ⟨kind, fieldType, known, named, allowed, shaped⟩

theorem resolveValue_eq_ok {property : String} {op : Operator} {fieldType : FieldType}
    {given : Option Value} {value : Value} (h : resolveValue property op fieldType given = .ok value) :
    value = if op.takesValue then given.getD .null else .null := by
  unfold resolveValue at h
  split at h
  next valued =>
    rw [if_pos valued]
    split at h
    · cases h
    · cases h
    next v _ =>
      obtain ⟨_, _, h⟩ := bind_eq_ok.1 h
      cases h
      rfl
  next unary =>
    rw [if_neg unary]
    cases h
    rfl

theorem erased_resolve {registry : ConditionRegistry} {target : Target}
    {d d' : ConditionDefinition} {c c' : Condition} (same : d.erased = d'.erased)
    (h : resolve registry d target = .ok c) (h' : resolve registry d' target = .ok c') :
    c.erased = c'.erased := by
  obtain ⟨kind, fieldType, known, named, allowed, shaped⟩ := resolve_eq_ok h
  obtain ⟨kind', fieldType', known', named', allowed', shaped'⟩ := resolve_eq_ok h'
  obtain ⟨conditionType, property, operator, value⟩ := d
  obtain ⟨conditionType', property', operator', value'⟩ := d'
  simp only [ConditionDefinition.erased, ConditionDefinition.mk.injEq,
    ConditionParameters.mk.injEq, Option.some.injEq] at same
  obtain ⟨rfl, rfl, rfl, values⟩ := same
  obtain ⟨p, op, v⟩ := c
  obtain ⟨p', op', v'⟩ := c'
  dsimp only at *
  obtain rfl : kind = kind' := Option.some.inj (known.symm.trans known')
  -- Neither the property nor the operator looks at the value.
  obtain rfl : p = p' := by
    cases kind with
    | named =>
      simp only [resolveProperty] at named named'
      split at named
      next property _ => cases named; cases named'; rfl
      next => cases named
    | bound property => cases named; cases named'; rfl
  have operators : (op, fieldType) = (op', fieldType') :=
    Except.ok.inj (allowed.symm.trans allowed')
  cases operators
  rw [erased, erased, resolveValue_eq_ok shaped, resolveValue_eq_ok shaped']
  simp only [mk.injEq, true_and]
  split
  next => exact values
  next => rfl

end Condition

def Test.erased : Test → Test
  | .compare site op value => .compare site op value.erased
  | t => t

theorem Test.erased_plain (field : String) (op : Operator) (value : Value) :
    (Test.plain field op value).erased = .plain field op value.erased := by
  cases op <;> rfl

namespace Plan

mutual
def erased : Plan → Plan
  | .test t => .test t.erased
  | .group connector terms => .group connector (erasedAll terms)

def erasedAll : List Plan → List Plan
  | [] => []
  | p :: ps => erased p :: erasedAll ps
end

end Plan

namespace Strategy

theorem erased_of_searchText {field : String} {op : Operator} {value sought : Value}
    (search : op = .like ∨ op = .notLike) (h : searchValue field op value = .ok sought) :
    sought.erased = .null := by
  rcases search with rfl | rfl
  all_goals
    obtain ⟨term, -, rfl⟩ := map_eq_ok.1 h
    rfl

theorem erased_searchValue {field : String} {op : Operator} {v v' w w' : Value}
    (same : v.erased = v'.erased) (h : searchValue field op v = .ok w)
    (h' : searchValue field op v' = .ok w') : w.erased = w'.erased := by
  by_cases search : op = .like ∨ op = .notLike
  · rw [erased_of_searchText search h, erased_of_searchText search h']
  · have given {v w : Value} (h : searchValue field op v = .ok w) : v = w := by
      unfold searchValue at h
      split at h
      next => exact absurd (.inl rfl) search
      next => exact absurd (.inr rfl) search
      next => exact Except.ok.inj h
    rw [← given h, ← given h', same]

theorem erased_userNumbers {field : String} {account : Option Account} {v w : Value}
    (h : userNumbers field account v = .ok w) : w.erased = v.erased := by
  by_cases list : v.isList = true
  · obtain ⟨items, rfl⟩ := Value.eq_of_isList list
    obtain ⟨numbers, looked, rfl⟩ := map_eq_ok.1 h
    exact Value.erased_list_eq_iff.2 (mapM_eq_ok_iff.1 looked).length_eq.symm
  · have single : v.isList = false := Bool.not_eq_true _ ▸ list
    rw [Value.erased_of_isList single,
      Value.erased_of_isList ((isList_of_userNumbers h).trans single)]

def thresholdSize? (s : Strategy) (op : Operator) (value : Value) (priorities : PriorityTable) :
    Option Nat :=
  match s with
  | .weightedRange => do
    let keep ← keep? op
    let threshold ← value.text?
    let matching ← priorities.select? threshold keep
    some matching.length
  | _ => none

theorem thresholdSize?_of_pastThreshold {field : String} {op : Operator} {value : Value}
    {priorities : PriorityTable} {keep : Int64 → Int64 → Bool} {matching : List String}
    (ordering : keep? op = some keep) (h : pastThreshold field priorities keep value = .ok matching) :
    weightedRange.thresholdSize? op value priorities = some matching.length := by
  rw [pastThreshold] at h
  split at h
  · cases h
  next threshold named =>
    split at h
    · cases h
    next selected => cases h; simp [thresholdSize?, ordering, named, selected]

/-- Values of one shape give tests of one shape, as long as thresholds select equally many
priorities. -/
theorem erased_test {s : Strategy} {field : String} {op : Operator} {v v' : Value}
    {priorities : PriorityTable} {t t' : Test} (same : v.erased = v'.erased)
    (sizes : s.thresholdSize? op v priorities = s.thresholdSize? op v' priorities)
    (h : s.test field op v priorities = .ok t) (h' : s.test field op v' priorities = .ok t') :
    t.erased = t'.erased := by
  unfold Strategy.test at h h'
  by_cases unary : (!op.takesValue) = true
  · rw [if_pos unary] at h h'
    cases h
    cases h'
    rw [Test.erased_plain, Test.erased_plain, same]
  · rw [if_neg unary] at h h'
    cases s with
    | associationContains join =>
      obtain ⟨sought, found, rfl⟩ := map_eq_ok.1 h
      obtain ⟨sought', found', rfl⟩ := map_eq_ok.1 h'
      rw [Test.erased, Test.erased, erased_searchValue same found found']
    | identityLookup account =>
      obtain ⟨numbers, found, rfl⟩ := map_eq_ok.1 h
      obtain ⟨numbers', found', rfl⟩ := map_eq_ok.1 h'
      rw [Test.erased_plain, Test.erased_plain, erased_userNumbers found, erased_userNumbers found',
        same]
    | weightedRange =>
      dsimp only at h h'
      split at h
      next noOrder =>
        rw [noOrder] at h'
        cases h
        cases h'
        rw [Test.erased_plain, Test.erased_plain, same]
      next keep ordering =>
        rw [ordering] at h'
        obtain ⟨matching, past, rfl⟩ := map_eq_ok.1 h
        obtain ⟨matching', past', rfl⟩ := map_eq_ok.1 h'
        rw [thresholdSize?_of_pastThreshold ordering past,
          thresholdSize?_of_pastThreshold ordering past', Option.some.injEq] at sizes
        cases matching with
        | nil =>
          obtain rfl := List.length_eq_zero_iff.1 sizes.symm
          rfl
        | cons a matching =>
          obtain ⟨b, others, rfl⟩ := List.exists_cons_of_length_eq_add_one sizes.symm
          dsimp only
          rw [Test.erased_plain, Test.erased_plain, Value.erased_ofTexts_eq_iff.2 sizes]

end Strategy

namespace Compiler
variable {c : Compiler} {target : Target}

def thresholdSize? (c : Compiler) (target : Target) (d : ConditionDefinition) : Option Nat := do
  let condition ← (Condition.resolve c.conditions d target).toOption
  let (op, value) ← (c.comparison target condition).toOption
  let m ← target.metadata? condition.property
  let strategy ← c.strategies.resolve? m.field op
  strategy.thresholdSize? op value c.priorities

theorem erased_comparison {condition condition' : Condition} {op op' : Operator} {v v' : Value}
    (same : condition.erased = condition'.erased)
    (h : c.comparison target condition = .ok (op, v))
    (h' : c.comparison target condition' = .ok (op', v')) : op = op' ∧ v.erased = v'.erased := by
  obtain ⟨property, operator, value⟩ := condition
  obtain ⟨property', operator', value'⟩ := condition'
  simp only [Condition.erased, Condition.mk.injEq] at same
  obtain ⟨rfl, rfl, values⟩ := same
  rw [comparison] at h h'
  split at h
  next moments =>
    rw [if_pos moments] at h'
    dsimp only at h h'
    split at h
    · cases h
    next mirror =>
      rw [mirror] at h'
      obtain ⟨moment, ago, h⟩ := bind_eq_ok.1 h
      obtain ⟨moment', ago', h'⟩ := bind_eq_ok.1 h'
      cases h
      cases h'
      rw [Value.erased_of_isList (isList_of_hoursAgo ago),
        Value.erased_of_isList (isList_of_hoursAgo ago')]
      exact ⟨rfl, rfl⟩
  next others =>
    rw [if_neg others] at h'
    cases h
    cases h'
    exact ⟨rfl, values⟩

theorem metadata?_of_ok {property : String} {m : FieldMetadata}
    (h : target.metadata property = .ok m) : target.metadata? property = some m := by
  rw [Target.metadata] at h
  split at h
  next found => cases h; exact found
  next => cases h

theorem erased_term {d d' : ConditionDefinition} {p p' : Plan} (same : d.erased = d'.erased)
    (sizes : c.thresholdSize? target d = c.thresholdSize? target d')
    (h : c.term target d = .ok p) (h' : c.term target d' = .ok p') : p.erased = p'.erased := by
  obtain ⟨condition, resolved, h⟩ := bind_eq_ok.1 h
  obtain ⟨condition', resolved', h'⟩ := bind_eq_ok.1 h'
  obtain ⟨t, tested, h⟩ := bind_eq_ok.1 h
  obtain ⟨t', tested', h'⟩ := bind_eq_ok.1 h'
  cases h
  cases h'
  have conditions := Condition.erased_resolve same resolved resolved'
  obtain ⟨⟨op, v⟩, compared, tested⟩ := bind_eq_ok.1 tested
  obtain ⟨⟨op', v'⟩, compared', tested'⟩ := bind_eq_ok.1 tested'
  obtain ⟨rfl, values⟩ := erased_comparison conditions compared compared'
  obtain ⟨m, found, tested⟩ := bind_eq_ok.1 tested
  obtain ⟨m', found', tested'⟩ := bind_eq_ok.1 tested'
  have property : condition.erased.property = condition'.erased.property :=
    congrArg Condition.property conditions
  change condition.property = condition'.property at property
  obtain rfl : m = m' := Except.ok.inj (found.symm.trans (property ▸ found'))
  simp only [thresholdSize?, resolved, resolved', compared, compared', Except.toOption,
    Option.bind_eq_bind, Option.bind_some, metadata?_of_ok found, metadata?_of_ok found'] at sizes
  rw [Plan.erased, Plan.erased]
  cases strategy : c.strategies.resolve? m.field op with
  | none =>
    rw [strategy] at tested tested'
    cases tested
    cases tested'
    rw [Test.erased_plain, Test.erased_plain, values]
  | some s =>
    rw [strategy] at tested tested' sizes
    rw [Strategy.erased_test values sizes tested tested']

theorem erased_terms {ds ds' : List ConditionDefinition} {ps ps' : List Plan}
    (same : ds.map ConditionDefinition.erased = ds'.map ConditionDefinition.erased)
    (sizes : ds.map (c.thresholdSize? target) = ds'.map (c.thresholdSize? target))
    (h : ds.mapM (c.term target) = .ok ps) (h' : ds'.mapM (c.term target) = .ok ps') :
    Plan.erasedAll ps = Plan.erasedAll ps' := by
  induction ds generalizing ds' ps ps' with
  | nil =>
    obtain rfl := List.map_eq_nil_iff.1 same.symm
    cases h
    cases h'
    rfl
  | cons d ds ih =>
    cases ds' with
    | nil => cases same
    | cons d' ds' =>
      rw [List.map_cons, List.map_cons, List.cons.injEq] at same sizes
      rw [List.mapM_cons] at h h'
      obtain ⟨p, first, h⟩ := bind_eq_ok.1 h
      obtain ⟨rest, others, h⟩ := bind_eq_ok.1 h
      obtain ⟨p', first', h'⟩ := bind_eq_ok.1 h'
      obtain ⟨rest', others', h'⟩ := bind_eq_ok.1 h'
      cases h
      cases h'
      rw [Plan.erasedAll, Plan.erasedAll, erased_term same.1 sizes.1 first first',
        ih same.2 sizes.2 others others']

def thresholdSizes (c : Compiler) (target : Target) (g : Group) : List (Option Nat) :=
  g.effective.map (c.thresholdSize? target)

end Compiler

namespace Compiler
variable {c : Compiler} {target : Target}

mutual
theorem erased_plan : (g : Group) → {g' : Group} → {p p' : Plan} → g.erased = g'.erased →
    c.thresholdSizes target g = c.thresholdSizes target g' →
    c.plan target g = .ok p → c.plan target g' = .ok p' → p.erased = p'.erased
  | ⟨name, ds, []⟩, ⟨name', ds', []⟩, p, p', same, sizes, h, h' => by
    simp only [Group.erased, Group.erasedAll, Group.mk.injEq, and_true] at same
    obtain ⟨rfl, conditions⟩ := same
    rw [thresholdSizes, thresholdSizes, Group.effective_leaf, Group.effective_leaf] at sizes
    obtain ⟨connector, known, h⟩ := bind_eq_ok.1 h
    obtain ⟨connector', known', h'⟩ := bind_eq_ok.1 h'
    obtain ⟨ps, terms, h⟩ := bind_eq_ok.1 h
    obtain ⟨ps', terms', h'⟩ := bind_eq_ok.1 h'
    cases h
    cases h'
    obtain rfl : connector = connector' := Except.ok.inj (known.symm.trans known')
    rw [Plan.erased, Plan.erased, erased_terms conditions sizes terms terms']
  | ⟨name, ds, g :: gs⟩, ⟨name', ds', g' :: gs'⟩, p, p', same, sizes, h, h' => by
    simp only [Group.erased, Group.erasedAll, Group.mk.injEq, List.cons.injEq] at same
    obtain ⟨rfl, -, head, tail⟩ := same
    rw [thresholdSizes, thresholdSizes, Group.effective_node, Group.effective_node, List.map_append,
      List.map_append] at sizes
    have lengths : (g.effective.map (c.thresholdSize? target)).length =
        (g'.effective.map (c.thresholdSize? target)).length := by
      rw [List.length_map, List.length_map, Group.length_effective head]
    obtain ⟨headSizes, tailSizes⟩ := List.append_inj sizes lengths
    obtain ⟨connector, known, h⟩ := bind_eq_ok.1 h
    obtain ⟨connector', known', h'⟩ := bind_eq_ok.1 h'
    obtain ⟨first, planned, h⟩ := bind_eq_ok.1 h
    obtain ⟨first', planned', h'⟩ := bind_eq_ok.1 h'
    obtain ⟨rest, others, h⟩ := bind_eq_ok.1 h
    obtain ⟨rest', others', h'⟩ := bind_eq_ok.1 h'
    cases h
    cases h'
    obtain rfl : connector = connector' := Except.ok.inj (known.symm.trans known')
    rw [Plan.erased, Plan.erased, Plan.erasedAll, Plan.erasedAll,
      erased_plan g head headSizes planned planned', erased_plans gs tail tailSizes others others']
  | ⟨_, _, []⟩, ⟨_, _, _ :: _⟩, _, _, same, _, _, _ => by
    simp [Group.erased, Group.erasedAll] at same
  | ⟨_, _, _ :: _⟩, ⟨_, _, []⟩, _, _, same, _, _, _ => by
    simp [Group.erased, Group.erasedAll] at same

theorem erased_plans : (gs : List Group) → {gs' : List Group} → {ps ps' : List Plan} →
    Group.erasedAll gs = Group.erasedAll gs' →
    (Group.effectiveOf gs).map (c.thresholdSize? target) =
      (Group.effectiveOf gs').map (c.thresholdSize? target) →
    c.plans target gs = .ok ps → c.plans target gs' = .ok ps' →
    Plan.erasedAll ps = Plan.erasedAll ps'
  | [], [], ps, ps', _, _, h, h' => by
    cases h
    cases h'
    rfl
  | g :: gs, g' :: gs', ps, ps', same, sizes, h, h' => by
    rw [Group.erasedAll, Group.erasedAll, List.cons.injEq] at same
    rw [Group.effectiveOf_cons, Group.effectiveOf_cons, List.map_append, List.map_append] at sizes
    have lengths : (g.effective.map (c.thresholdSize? target)).length =
        (g'.effective.map (c.thresholdSize? target)).length := by
      rw [List.length_map, List.length_map, Group.length_effective same.1]
    obtain ⟨headSizes, tailSizes⟩ := List.append_inj sizes lengths
    obtain ⟨first, planned, h⟩ := bind_eq_ok.1 h
    obtain ⟨first', planned', h'⟩ := bind_eq_ok.1 h'
    obtain ⟨rest, others, h⟩ := bind_eq_ok.1 h
    obtain ⟨rest', others', h'⟩ := bind_eq_ok.1 h'
    cases h
    cases h'
    rw [Plan.erasedAll, Plan.erasedAll, erased_plan g same.1 headSizes planned planned',
      erased_plans gs same.2 tailSizes others others']
  | [], _ :: _, _, _, same, _, _, _ => by simp [Group.erasedAll] at same
  | _ :: _, [], _, _, same, _, _, _ => by simp [Group.erasedAll] at same
end

end Compiler

/-! Erased values in queries. -/

def Parameter.erased (p : Parameter) : Parameter := { p with value := p.value.erased }

def Builder.erased (b : Builder) : Builder :=
  { b with parameters := b.parameters.map Parameter.erased }

def Query.erased (q : Query) : Query := { q with parameters := q.parameters.map Parameter.erased }

namespace Builder

theorem bind_erased (b : Builder) (field : String) (value : Value) :
    b.erased.bind field value.erased = ((b.bind field value).1, (b.bind field value).2.erased) := by
  simp [bind, erased, Parameter.erased]

theorem leftJoin_erased (b : Builder) (field : String) (a : Association) :
    b.erased.leftJoin field a = ((b.leftJoin field a).1, (b.leftJoin field a).2.erased) := by
  simp only [leftJoin, erased]
  split <;> rfl

theorem locate_erased (b : Builder) (site : Site) :
    b.erased.locate site = ((b.locate site).1, (b.locate site).2.erased) := by
  cases site with
  | own field => rfl
  | joined field a => simp only [locate, leftJoin_erased]

end Builder

theorem Test.emit_erased (t : Test) (b : Builder) :
    t.erased.emit b.erased = ((t.emit b).1, (t.emit b).2.erased) := by
  cases t with
  | never => rfl
  | nullCheck field negated => rfl
  | compare site op value =>
    simp only [erased, emit, Builder.locate_erased, Builder.bind_erased]

namespace Plan

mutual
theorem emit_erased : (p : Plan) → (b : Builder) →
    p.erased.emit b.erased = ((p.emit b).1, (p.emit b).2.erased)
  | .test t, b => t.emit_erased b
  | .group connector terms, b => by simp only [erased, emit, emits_erasedAll terms b]

theorem emits_erasedAll : (ps : List Plan) → (b : Builder) →
    emits (erasedAll ps) b.erased = ((emits ps b).1, (emits ps b).2.erased)
  | [], b => rfl
  | p :: ps, b => by simp only [erasedAll, emits, emit_erased p b, emits_erasedAll ps (p.emit b).2]
end

theorem query_erased (p : Plan) (table : String) : p.erased.query table = (p.query table).erased := by
  have start : (Builder.selectFrom table).erased = Builder.selectFrom table := rfl
  have written := p.emit_erased (.selectFrom table)
  rw [start] at written
  rw [query, written]
  rfl

end Plan

namespace Query

theorem parameter?_erased (q : Query) (name : String) :
    q.erased.parameter? name = (q.parameter? name).map Value.erased := by
  have same : (fun p : Parameter => p.name == name) ∘ Parameter.erased = fun p => p.name == name := rfl
  rw [parameter?, erased, List.find?_map, same, parameter?, Option.map_map, Option.map_map]
  rfl

theorem leafClause_erased {bound : Nat} {column : Column} {op : Operator} {name : String}
    {value : Value} {c : Clause} {values : List Value}
    (h : leafClause bound column op name value = .ok (c, values)) :
    leafClause bound column op name value.erased = .ok (c, values.map fun _ => .null) := by
  by_cases list : value.isList = true
  · obtain ⟨items, rfl⟩ := Value.eq_of_isList list
    simp only [leafClause, Value.erased] at h ⊢
    split at h
    next lists =>
      rw [if_pos lists]
      cases items with
      | nil => cases h; rfl
      | cons v vs => cases h; simp
    next => cases h
  · have single : value.isList = false := Bool.not_eq_true _ ▸ list
    rw [leafClause_of_not_list bound column op name single] at h
    split at h <;> cases h
    next notList =>
      rw [Value.erased_of_isList single, leafClause_of_not_list bound column op name rfl,
        if_neg notList]
      rfl

mutual
theorem clause_erased (q : Query) : (x : Predicate) → {bound : Nat} → {c : Clause} →
    {values : List Value} → q.clause bound x = .ok (c, values) →
    q.erased.clause bound x = .ok (c, values.map fun _ => .null)
  | .all terms, bound, c, values, h => by
    obtain ⟨⟨cs, vs⟩, hcs, h⟩ := bind_eq_ok.1 h
    cases h
    rw [clause, clauses_erased q terms hcs]
    rfl
  | .any terms, bound, c, values, h => by
    obtain ⟨⟨cs, vs⟩, hcs, h⟩ := bind_eq_ok.1 h
    cases h
    rw [clause, clauses_erased q terms hcs]
    rfl
  | .nullCheck column negated, bound, c, values, h => by
    cases h
    rfl
  | .compare column op name, bound, c, values, h => by
    rw [clause] at h
    split at h
    · cases h
    next value found =>
      rw [clause, parameter?_erased, found]
      exact leafClause_erased h

theorem clauses_erased (q : Query) : (xs : List Predicate) → {bound : Nat} → {cs : List Clause} →
    {values : List Value} → q.clauses bound xs = .ok (cs, values) →
    q.erased.clauses bound xs = .ok (cs, values.map fun _ => .null)
  | [], bound, cs, values, h => by
    cases h
    rfl
  | x :: xs, bound, cs, values, h => by
    obtain ⟨⟨c, vs⟩, hc, h⟩ := bind_eq_ok.1 h
    obtain ⟨⟨ds, ws⟩, hds, h⟩ := bind_eq_ok.1 h
    cases h
    rw [clauses, clause_erased q x hc]
    have rest := clauses_erased q xs hds
    simp only [bind, Except.bind, List.length_map, rest, List.map_append]
end

theorem statement_erased {q : Query} {st : Statement} (h : q.statement = .ok st) :
    q.erased.statement = .ok { st with parameters := st.parameters.map fun _ => .null } := by
  obtain ⟨⟨c, values⟩, hc, h⟩ := bind_eq_ok.1 h
  cases h
  have clauses : q.erased.clause 0 q.predicate = _ := clause_erased q q.predicate hc
  exact bind_eq_ok.2 ⟨_, clauses, rfl⟩

theorem statement_of_erased_eq {q q' : Query} {st st' : Statement} (same : q.erased = q'.erased)
    (h : q.statement = .ok st) (h' : q'.statement = .ok st') :
    st' = { st with parameters := st'.parameters } := by
  have erased := statement_erased h
  rw [same, statement_erased h'] at erased
  simp only [Except.ok.injEq, Statement.mk.injEq] at erased
  obtain ⟨table, joins, clause, -⟩ := erased
  obtain ⟨table', joins', clause', values⟩ := st'
  simp only [Statement.mk.injEq, and_true]
  exact ⟨table, joins, clause⟩

end Query
end Helpdesk
