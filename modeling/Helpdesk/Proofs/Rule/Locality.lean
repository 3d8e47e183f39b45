import Helpdesk.Proofs.Outcome
import Helpdesk.Proofs.Rule.Plan

/-! Compilation, part by part. What can fail in a tree of groups are its connectors and the conditions
that count, each for itself: nothing that a condition binds or joins makes another one fail. So a group
compiles when all its parts do, it fails with the first part that fails (`fault?_compileGroup`), and its
predicate has the shape of the tree (`mirrors_of_compileGroup`). -/

namespace Helpdesk

/-- What fails or succeeds by itself in a tree of groups. -/
inductive Part
  | connector (name : String)
  | condition (definition : ConditionDefinition)

namespace Group

mutual
/-- The parts of a group: its connector, then those of its children or, where there are none, its own
conditions. Conditions beside children are no parts. -/
def parts : Group → List Part
  | ⟨connector, conditions, []⟩ => .connector connector :: conditions.map .condition
  | ⟨connector, _, g :: gs⟩ => .connector connector :: (parts g ++ partsOf gs)

def partsOf : List Group → List Part
  | [] => []
  | g :: gs => parts g ++ partsOf gs
end

end Group

theorem Connector.fault?_ofName (name : String) :
    fault? (ofName name) = if name = "and" ∨ name = "or" then none else some (.unknownConnector name) := by
  rw [ofName]
  split
  next h => simp [h]
  next notAnd =>
    split
    next h => simp [h]
    next notOr => simp [notAnd, notOr]

namespace Compiler

def alone (c : Compiler) (target : Target) (table : String) (d : ConditionDefinition) :
    Outcome Predicate := do
  let condition ← Condition.resolve c.conditions d target
  let (x, _) ← c.compileCondition target condition (.selectFrom table)
  .ok x

def partFault? (c : Compiler) (target : Target) (table : String) : Part → Option Fault
  | .connector name => if name = "and" ∨ name = "or" then none else some (.unknownConnector name)
  | .condition d => fault? (c.alone target table d)

theorem alone_eq (c : Compiler) (target : Target) (table : String) (d : ConditionDefinition) :
    c.alone target table d = (c.term target d).map fun p => (p.emit (.selectFrom table)).1 := by
  rw [alone, term]
  cases Condition.resolve c.conditions d target with
  | error e => rfl
  | ok condition =>
    simp only [bind, Except.bind, compileCondition_eq]
    cases c.test target condition <;> rfl

theorem fault?_term (c : Compiler) (target : Target) (table : String) (d : ConditionDefinition) :
    fault? (c.term target d) = c.partFault? target table (.condition d) := by
  rw [partFault?, alone_eq, fault?_map]

mutual
theorem fault?_plan (c : Compiler) (target : Target) (table : String) : (g : Group) →
    fault? (c.plan target g) = g.parts.findSome? (c.partFault? target table)
  | ⟨connector, conditions, []⟩ => by
    rw [plan, Group.parts, List.findSome?_cons,
      fault?_bind (Connector.ofName connector) fun k => fault?_bind_ok _ (Plan.group k),
      Connector.fault?_ofName, fault?_mapM, List.findSome?_map]
    simp only [fault?_term c target table, partFault?]
    split <;> rfl
  | ⟨connector, conditions, g :: gs⟩ => by
    rw [plan, Group.parts, List.findSome?_cons, List.findSome?_append, ← fault?_plan c target table g,
      ← fault?_plans c target table gs,
      fault?_bind (Connector.ofName connector) fun k =>
        fault?_bind (c.plan target g) fun p => fault?_bind_ok (c.plans target gs) fun ps =>
          Plan.group k (p :: ps),
      Connector.fault?_ofName]
    simp only [partFault?]
    split <;> rfl

theorem fault?_plans (c : Compiler) (target : Target) (table : String) : (gs : List Group) →
    fault? (c.plans target gs) = (Group.partsOf gs).findSome? (c.partFault? target table)
  | [] => rfl
  | g :: gs => by
    rw [plans, Group.partsOf, List.findSome?_append, ← fault?_plan c target table g,
      ← fault?_plans c target table gs,
      fault?_bind (c.plan target g) fun p => fault?_bind_ok (c.plans target gs) (p :: ·)]
end

theorem fault?_compileGroup (c : Compiler) (target : Target) (table : String) (g : Group)
    (b : Builder) :
    fault? (c.compileGroup target g b) = g.parts.findSome? (c.partFault? target table) := by
  rw [compileGroup_eq, fault?_map, fault?_plan c target table]

end Compiler

namespace Predicate

/-- Two leaves that say the same of their values: the same comparison of a column of the same name, or
the same check for null. The empty disjunction takes the place of a leaf that can never hold. -/
def SameLeaf : Predicate → Predicate → Prop
  | .compare column op _, .compare column' op' _ => column.field = column'.field ∧ op = op'
  | .nullCheck column negated, .nullCheck column' negated' => column = column' ∧ negated = negated'
  | .any [], .any [] => True
  | _, _ => False

def IsNode (connector : String) (terms : List Predicate) (x : Predicate) : Prop :=
  connector = "and" ∧ x = .all terms ∨ connector = "or" ∧ x = .any terms

end Predicate

namespace Group

mutual
/-- A predicate mirrors a group: one node for every group, with a term for every child or, where there
are no children, a leaf for every condition, all in their order. -/
def Mirrors (leaf : ConditionDefinition → Predicate → Prop) : Group → Predicate → Prop
  | ⟨connector, conditions, []⟩, x =>
    ∃ terms, x.IsNode connector terms ∧ List.Forall₂ leaf conditions terms
  | ⟨connector, _, g :: gs⟩, x =>
    ∃ y ys, x.IsNode connector (y :: ys) ∧ Mirrors leaf g y ∧ MirrorAll leaf gs ys

def MirrorAll (leaf : ConditionDefinition → Predicate → Prop) : List Group → List Predicate → Prop
  | [], xs => xs = []
  | g :: gs, xs => ∃ y ys, xs = y :: ys ∧ Mirrors leaf g y ∧ MirrorAll leaf gs ys
end

end Group

theorem Connector.isNode_combine {name : String} {connector : Connector}
    (h : ofName name = .ok connector) (terms : List Predicate) :
    (connector.combine terms).IsNode name terms := by
  rw [ofName] at h
  split at h
  next isAnd => cases h; exact .inl ⟨isAnd, rfl⟩
  next =>
    split at h
    next isOr => cases h; exact .inr ⟨isOr, rfl⟩
    next => cases h

theorem Test.sameLeaf_emit (t : Test) (b b' : Builder) : (t.emit b).1.SameLeaf (t.emit b').1 := by
  have field (site : Site) : (b.locate site).1.field = (b'.locate site).1.field := by
    cases site <;> rfl
  cases t with
  | never => trivial
  | nullCheck column negated => exact ⟨rfl, rfl⟩
  | compare site op value => exact ⟨field site, rfl⟩

namespace Compiler

def IsLeafOf (c : Compiler) (target : Target) (table : String) (d : ConditionDefinition)
    (x : Predicate) : Prop :=
  ∃ y, c.alone target table d = .ok y ∧ x.SameLeaf y

theorem isLeafOf_emit {c : Compiler} {target : Target} {d : ConditionDefinition} {p : Plan}
    (table : String) (h : c.term target d = .ok p) (b : Builder) :
    c.IsLeafOf target table d (p.emit b).1 := by
  refine ⟨(p.emit (.selectFrom table)).1, by rw [alone_eq, h]; rfl, ?_⟩
  obtain ⟨condition, -, h⟩ := bind_eq_ok.1 h
  obtain ⟨t, -, h⟩ := bind_eq_ok.1 h
  cases h
  exact t.sameLeaf_emit b (.selectFrom table)

theorem areLeavesOf_emits {c : Compiler} {target : Target} (table : String)
    {ds : List ConditionDefinition} {ps : List Plan} (h : ds.mapM (c.term target) = .ok ps)
    (b : Builder) : List.Forall₂ (c.IsLeafOf target table) ds (Plan.emits ps b).1 := by
  induction ds generalizing ps b with
  | nil =>
    cases h
    exact .nil
  | cons d ds ih =>
    rw [List.mapM_cons] at h
    obtain ⟨p, first, h⟩ := bind_eq_ok.1 h
    obtain ⟨rest, others, h⟩ := bind_eq_ok.1 h
    cases h
    exact .cons (isLeafOf_emit table first b) (ih others (p.emit b).2)

mutual
theorem mirrors_emit {c : Compiler} {target : Target} (table : String) : (g : Group) → {p : Plan} →
    c.plan target g = .ok p → (b : Builder) → g.Mirrors (c.IsLeafOf target table) (p.emit b).1
  | ⟨name, conditions, []⟩, p, h, b => by
    obtain ⟨connector, known, h⟩ := bind_eq_ok.1 h
    obtain ⟨ps, terms, h⟩ := bind_eq_ok.1 h
    cases h
    exact ⟨_, Connector.isNode_combine known _, areLeavesOf_emits table terms b⟩
  | ⟨name, conditions, g :: gs⟩, p, h, b => by
    obtain ⟨connector, known, h⟩ := bind_eq_ok.1 h
    obtain ⟨first, planned, h⟩ := bind_eq_ok.1 h
    obtain ⟨rest, others, h⟩ := bind_eq_ok.1 h
    cases h
    exact ⟨_, _, Connector.isNode_combine known _, mirrors_emit table g planned b,
      mirrorAll_emits table gs others (first.emit b).2⟩

theorem mirrorAll_emits {c : Compiler} {target : Target} (table : String) : (gs : List Group) →
    {ps : List Plan} → c.plans target gs = .ok ps → (b : Builder) →
    Group.MirrorAll (c.IsLeafOf target table) gs (Plan.emits ps b).1
  | [], ps, h, b => by
    cases h
    rfl
  | g :: gs, ps, h, b => by
    obtain ⟨first, planned, h⟩ := bind_eq_ok.1 h
    obtain ⟨rest, others, h⟩ := bind_eq_ok.1 h
    cases h
    exact ⟨_, _, rfl, mirrors_emit table g planned b, mirrorAll_emits table gs others (first.emit b).2⟩
end

theorem mirrors_of_compileGroup {c : Compiler} {target : Target} {g : Group} {b b' : Builder}
    {x : Predicate} (table : String) (h : c.compileGroup target g b = .ok (x, b')) :
    g.Mirrors (c.IsLeafOf target table) x := by
  rw [compileGroup_eq] at h
  obtain ⟨p, planned, written⟩ := map_eq_ok.1 h
  have mirrored := mirrors_emit table g planned b
  rw [written] at mirrored
  exact mirrored

/-- A group compiles just when each of its parts does alone: every connector is `and` or `or`, and every
condition that counts compiles with a fresh builder. Its predicate then mirrors the tree; and when it
fails, it does so with the first part that fails alone. -/
theorem compileGroup_by_parts (c : Compiler) (target : Target) (g : Group) (b : Builder)
    (table : String) :
    ((∃ x b', c.compileGroup target g b = .ok (x, b')) ↔
      (∀ name, .connector name ∈ g.parts → name = "and" ∨ name = "or") ∧
        ∀ d, .condition d ∈ g.parts → ∃ x, c.alone target table d = .ok x) ∧
    (∀ x b', c.compileGroup target g b = .ok (x, b') → g.Mirrors (c.IsLeafOf target table) x) ∧
    ∀ e, c.compileGroup target g b = .error e ↔
      g.parts.findSome? (c.partFault? target table) = some e := by
  have faults := fault?_compileGroup c target table g b
  refine ⟨?_, fun x b' h => mirrors_of_compileGroup table h, fun e => ?_⟩
  · have succeeds : (∃ x b', c.compileGroup target g b = .ok (x, b')) ↔
        ∀ part ∈ g.parts, c.partFault? target table part = none := by
      rw [← List.findSome?_eq_none_iff, ← faults, fault?_eq_none_iff, Prod.exists]
    rw [succeeds]
    constructor
    · intro sound
      refine ⟨fun name hn => ?_, fun d hd => fault?_eq_none_iff.1 (sound _ hd)⟩
      have known := sound _ hn
      rw [partFault?] at known
      split at known
      next isKnown => exact isKnown
      next => cases known
    · rintro ⟨connectors, conditions⟩ part hp
      cases part with
      | connector name => rw [partFault?, if_pos (connectors name hp)]
      | condition d => exact fault?_eq_none_iff.2 (conditions d hp)
  · rw [← faults, fault?_eq_some_iff]

end Compiler
end Helpdesk
