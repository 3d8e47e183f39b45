import Helpdesk.Proofs.Rule.Plan

/-! Groups that no compilation tells apart. The conditions of a group with children do not count: whatever
stands there, sound or not, nothing of it reaches the query, and no fault comes from it
(`alike_prune`). -/

namespace Helpdesk

/-- Two groups with the same outcome in every compilation: the same predicate, parameters and joins, or
the same fault. -/
structure Group.Alike (g g' : Group) : Prop where
  group : ∀ (c : Compiler) (target : Target) (b : Builder),
    c.compileGroup target g b = c.compileGroup target g' b
  query : ∀ (c : Compiler) (target : String), c.targetQuery g target = c.targetQuery g' target
  byClass : ∀ (c : Compiler) (className : String), c.classQuery g className = c.classQuery g' className
  rule : ∀ (c : Compiler) (name target : String),
    c.ruleQuery ⟨name, target, g⟩ = c.ruleQuery ⟨name, target, g'⟩

namespace Group

theorem alike_of_plan {g g' : Group}
    (plans : ∀ (c : Compiler) (target : Target), c.plan target g = c.plan target g') :
    g.Alike g' := by
  have query (c : Compiler) (target : String) : c.targetQuery g target = c.targetQuery g' target := by
    simp only [Compiler.targetQuery_eq, plans]
  refine ⟨fun c target b => ?_, query, fun c className => ?_, fun c name target => query c target⟩
  · rw [Compiler.compileGroup_eq, Compiler.compileGroup_eq, plans]
  · simp only [Compiler.classQuery, query]

mutual
def mapConditions (f : ConditionDefinition → ConditionDefinition) : Group → Group
  | ⟨connector, conditions, children⟩ =>
    ⟨connector, conditions.map f, mapAllConditions f children⟩

def mapAllConditions (f : ConditionDefinition → ConditionDefinition) : List Group → List Group
  | [] => []
  | g :: gs => mapConditions f g :: mapAllConditions f gs
end

mutual
def prune : Group → Group
  | ⟨connector, conditions, []⟩ => ⟨connector, conditions, []⟩
  | ⟨connector, _, g :: gs⟩ => ⟨connector, [], prune g :: pruneAll gs⟩

def pruneAll : List Group → List Group
  | [] => []
  | g :: gs => prune g :: pruneAll gs
end

end Group

namespace Compiler

section Terms
variable {c : Compiler} {target : Target} {f : ConditionDefinition → ConditionDefinition}

mutual
theorem plan_mapConditions (same : ∀ d, c.term target (f d) = c.term target d) : (g : Group) →
    c.plan target (g.mapConditions f) = c.plan target g
  | ⟨connector, conditions, []⟩ => by
    have terms : (conditions.map f).mapM (c.term target) = conditions.mapM (c.term target) := by
      rw [List.mapM_map]
      exact congrArg (conditions.mapM ·) (funext same)
    rw [Group.mapConditions, Group.mapAllConditions, plan, plan, terms]
  | ⟨connector, conditions, g :: gs⟩ => by
    rw [Group.mapConditions, Group.mapAllConditions, plan, plan, plan_mapConditions same g,
      plans_mapAllConditions same gs]

theorem plans_mapAllConditions (same : ∀ d, c.term target (f d) = c.term target d) :
    (gs : List Group) → c.plans target (Group.mapAllConditions f gs) = c.plans target gs
  | [] => rfl
  | g :: gs => by
    rw [Group.mapAllConditions, plans, plans, plan_mapConditions same g,
      plans_mapAllConditions same gs]
end

end Terms

mutual
theorem plan_prune (c : Compiler) (target : Target) : (g : Group) →
    c.plan target g.prune = c.plan target g
  | ⟨connector, conditions, []⟩ => rfl
  | ⟨connector, conditions, g :: gs⟩ => by
    rw [Group.prune, plan, plan, plan_prune c target g, plans_pruneAll c target gs]

theorem plans_pruneAll (c : Compiler) (target : Target) : (gs : List Group) →
    c.plans target (Group.pruneAll gs) = c.plans target gs
  | [] => rfl
  | g :: gs => by
    rw [Group.pruneAll, plans, plans, plan_prune c target g, plans_pruneAll c target gs]
end

end Compiler

namespace Group

/-- A group compiles as it does without the conditions beside children. So groups that are the same
without them compile alike, whatever conditions they have there. -/
theorem alike_prune (g : Group) :
    g.prune.Alike g ∧ ∀ g' : Group, g'.prune = g.prune → g'.Alike g := by
  refine ⟨alike_of_plan fun c target => c.plan_prune target g, fun g' same => ?_⟩
  refine alike_of_plan fun c target => ?_
  calc c.plan target g'
    _ = c.plan target g'.prune := (c.plan_prune target g').symm
    _ = c.plan target g.prune := by rw [same]
    _ = c.plan target g := c.plan_prune target g

end Group

namespace Covered

def isOpen : ConditionDefinition := ⟨"status", .binary "eq" (.text "open")⟩

def bogus : ConditionDefinition := ⟨"mood", .unary "is_great"⟩

def group (beside : List ConditionDefinition) : Group :=
  ⟨"and", beside, [⟨"or", beside, [⟨"and", [isOpen], []⟩]⟩, ⟨"or", [isOpen], []⟩]⟩

def compiler : Compiler := .ofConfig .helpdesk .epoch

/-- The conditions beside children would be refused, were they looked at. -/
theorem alike_bogus : (group [bogus]).Alike (group []) ∧
    compiler.targetQuery ⟨"and", [bogus], []⟩ "ticket" = .error (.unknownCondition "mood") ∧
    ∃ q, compiler.targetQuery (group [bogus]) "ticket" = .ok q := by
  have alike : (group [bogus]).Alike (group []) := (Group.alike_prune (group [])).2 _ rfl
  refine ⟨alike, rfl, ?_⟩
  rw [alike.query]
  exact ⟨_, rfl⟩

end Covered
end Helpdesk
