import Helpdesk.Proofs.Rule.Selection
import Helpdesk.Proofs.Store.Filled

/-! Rules of one condition. A group of a single condition finds the rows on which its test is true, under
either connector (`targetRows_of_only`); on the ticket table these are the tickets that the test keeps
(`selects_of_only`). -/

namespace Helpdesk
open Store

structure Group.IsOnly (g : Group) (d : ConditionDefinition) : Prop where
  connector : g.connector = "or" ∨ g.connector = "and"
  conditions : g.conditions = [d]
  children : g.children = []

/-- A group that asks for a property and nothing else, in one of the ways that rules have. -/
structure Group.Asks (g : Group) (property : String) (op : Operator) (v : Value) : Prop where
  connector : g.connector = "or" ∨ g.connector = "and"
  conditions : g.conditions = [⟨property, .binary op.name v⟩] ∨
    g.conditions = [⟨"field", (ConditionParameters.binary op.name v).withProperty property⟩]
  children : g.children = []

namespace Compiler
variable {c : Compiler} {target : Target}

theorem plan_of_only (target : Target) {g : Group} {d : ConditionDefinition} (only : g.IsOnly d) :
    ∃ connector, c.plan target g = (c.term target d).map fun p => .group connector [p] := by
  obtain ⟨name, conditions, children⟩ := g
  obtain rfl := only.conditions
  obtain rfl := only.children
  have known : ∃ connector, Connector.ofName name = .ok connector := by
    rcases only.connector with rfl | rfl <;> exact ⟨_, rfl⟩
  obtain ⟨connector, known⟩ := known
  refine ⟨connector, ?_⟩
  rw [plan_of_conditions, known, List.mapM_cons]
  cases c.term target d <;> rfl

theorem resolve_of_asks {property : String} {op : Operator} {v : Value} {m : FieldMetadata}
    (kind : ConditionRegistry.standard.kinds.get? property = some (.bound property))
    (metadata : target.metadata property = .ok m) (allowed : m.fieldType.allows op)
    (shaped : Condition.resolveValue property op m.fieldType (some v) = .ok v) {g : Group}
    (asks : g.Asks property op v) : ∃ d, g.IsOnly d ∧
      Condition.resolve .standard d target = .ok ⟨property, op, v⟩ := by
  have operator {p : ConditionParameters} (named : p.operator = some op.name)
      (conditionType : String) : Condition.resolveOperator conditionType property p target =
        .ok (op, m.fieldType) := by
    simp [Condition.resolveOperator, named, Operator.ofName?_name, metadata, bind, Except.bind,
      allowed]
  rcases asks.conditions with own | field
  · refine ⟨_, ⟨asks.connector, own, asks.children⟩, ?_⟩
    rw [Condition.resolve, kind]
    refine bind_eq_ok.2 ⟨_, rfl, bind_eq_ok.2 ⟨_, operator rfl _, ?_⟩⟩
    exact bind_eq_ok.2 ⟨_, shaped, rfl⟩
  · refine ⟨_, ⟨asks.connector, field, asks.children⟩, ?_⟩
    refine bind_eq_ok.2 ⟨property, rfl, bind_eq_ok.2 ⟨_, operator rfl _, ?_⟩⟩
    exact bind_eq_ok.2 ⟨_, shaped, rfl⟩

end Compiler

section Only
variable {s : Store} {c : Compiler} {target : String} {e : Entity} {t : Table} {leaf : Test}

theorem Plan.runs_only_iff {connector : Connector} :
    (Plan.group connector [.test leaf]).Runs s t ↔ (Plan.test leaf).Runs s t := by
  refine ⟨runs_of_singleton, fun runs => runs_group fun p hp => ?_⟩
  rwa [List.mem_singleton.1 hp]

theorem Plan.runs_test (admitted : leaf.Admitted s t) (there : ∀ site ∈ leaf.sites, site.IsThere s t) :
    (Plan.test leaf).Runs s t where
  tests l hl := by rwa [List.mem_singleton.1 hl]
  looked := there

theorem Plan.joinsAtMostOne_own {field : String} {op : Operator} {value : Value} :
    (Plan.test (.compare (.own field) op value)).JoinsAtMostOne s t := by
  intro field' a op' value' h
  cases List.mem_singleton.1 h

theorem Plan.runs_own {field : String} {op : Operator} {value : Value}
    (word : Statement.isReserved field = false) (there : (t.schema.place? field).isSome)
    (flat : ∀ item ∈ value.items, item.isList = false) :
    (Plan.test (.compare (.own field) op value)).Runs s t := by
  have sites : ∀ site ∈ (Test.compare (.own field) op value).sites, site = .own field := by
    intro site hs
    cases value with
    | list items =>
      cases items with
      | nil => exact absurd hs List.not_mem_nil
      | cons v vs => exact List.mem_singleton.1 hs
    | _ => exact List.mem_singleton.1 hs
  refine runs_test ⟨?_, nofun, ?_⟩ fun site hs => sites site hs ▸ there
  · exact fun site hs => sites site hs ▸ word
  · exact fun v hv => Option.some.inj hv ▸ flat

theorem targetRows_of_only (entity : c.config.entity target = .ok e)
    (table : s.table? e.table = some t) {g : Group} {d : ConditionDefinition} (only : g.IsOnly d)
    (made : c.term (c.target target e) d = .ok (.test leaf))
    (once : (Plan.test leaf).JoinsAtMostOne s t) {found : Table × List Row} :
    s.targetRows c g target = .ok found ↔
      Statement.isReserved e.table = false ∧ (Plan.test leaf).Runs s t ∧
        found = (t, inOrder t (t.rows.filter fun row => leaf.truth s t row == some true)) := by
  obtain ⟨connector, planned⟩ := Compiler.plan_of_only (c.target target e) only
  rw [made] at planned
  have singles : (Plan.group connector [.test leaf]).JoinsAtMostOne s t := once
  have iff := targetRows_iff entity table (g := g)
  have rows {found : Table × List Row} (h : s.targetRows c g target = .ok found) :
      found = (t, inOrder t (t.rows.filter fun row => leaf.truth s t row == some true)) := by
    rw [targetRows_eq entity table planned singles h]
    refine congrArg (fun kept => (t, inOrder t kept)) (List.filter_congr fun row _ => ?_)
    rw [Plan.truth_singleton, Plan.truth]
  constructor
  · intro h
    obtain ⟨word, p, planned', runs⟩ := iff.1 ⟨found, h⟩
    cases planned.symm.trans planned'
    exact ⟨word, Plan.runs_only_iff.1 runs, rows h⟩
  · rintro ⟨word, runs, rfl⟩
    obtain ⟨found, h⟩ := iff.2 ⟨word, _, planned, Plan.runs_only_iff.2 runs⟩
    rw [h, rows h]

end Only

namespace Compiler

abbrev helpdesk (now : Time.Instant) : Compiler := .ofConfig .helpdesk now

abbrev tickets (now : Time.Instant) : Target := (helpdesk now).target "ticket" Config.ticketEntity

end Compiler

/-- A group finds the stored tickets that are kept, each once and in the order they came. -/
def Store.Selects (s : Store) (now : Time.Instant) (stored : List (Int64 × Ticket)) (g : Group)
    (keep : Ticket → Bool) : Prop :=
  ∃ t, s.targetRows (.helpdesk now) g "ticket" =
    .ok (t, (stored.filter fun p => keep p.2).map ticketRow) ∧
    ∀ name, s.ruleTargets (.helpdesk now) ⟨name, "ticket", g⟩ =
      .ok ((stored.filter fun p => keep p.2).map fun p =>
        toRecord (.empty Schema.tickets) (ticketRow p))

section Selects
variable {s : Store} {t : Table} {stored : List (Int64 × Ticket)} {now : Time.Instant} {g : Group}

theorem selects_of_only {d : ConditionDefinition} {leaf : Test} {keep : Ticket → Bool}
    (sound : s.Sound) (keeps : s.Keeps t stored) (only : g.IsOnly d)
    (made : (Compiler.helpdesk now).term (Compiler.tickets now) d = .ok (.test leaf))
    (runs : (Plan.test leaf).Runs s t) (once : (Plan.test leaf).JoinsAtMostOne s t)
    (same : ∀ p ∈ stored, (leaf.truth s t (ticketRow p) == some true) = keep p.2) :
    s.Selects now stored g keep := by
  have entity : (Compiler.helpdesk now).config.entity "ticket" = .ok Config.ticketEntity := rfl
  have run : s.targetRows (.helpdesk now) g "ticket" =
      .ok (t, (stored.filter fun p => keep p.2).map ticketRow) := by
    have place : t.schema.orderPlace = .rowid := by
      rw [keeps.schema]
      rfl
    refine (targetRows_of_only entity keeps.table only made once).2 ⟨rfl, runs, ?_⟩
    rw [((sound.ordered keeps.table).filter _).inOrder_eq_self place, keeps.rows, List.filter_map]
    exact congrArg (fun kept => (t, kept.map ticketRow))
      (List.filter_congr fun p hp => (same p hp).symm)
  refine ⟨t, run, fun name => ?_⟩
  have plain : (Compiler.helpdesk now).IsPlain := .ofConfig Config.isAccepted_helpdesk now
  rw [ruleTargets_eq, textRows_eq plain, run]
  simp only [Except.map, List.map_map, Function.comp_def, toRecord, keeps.schema]
  rfl

theorem Store.Selects.finds_iff {keep : Ticket → Bool}
    (h : s.Selects now stored g keep) (row : Row) :
    s.Finds (.helpdesk now) "ticket" row g ↔ ∃ p ∈ stored, keep p.2 ∧ ticketRow p = row := by
  obtain ⟨t, run, -⟩ := h
  constructor
  · rintro ⟨u, rows, found, member⟩
    cases run.symm.trans found
    obtain ⟨p, hp, rfl⟩ := List.mem_map.1 member
    obtain ⟨stored_, kept⟩ := List.mem_filter.1 hp
    exact ⟨p, stored_, kept, rfl⟩
  · rintro ⟨p, hp, kept, rfl⟩
    exact ⟨t, _, run, List.mem_map_of_mem (List.mem_filter.2 ⟨hp, kept⟩)⟩

end Selects
end Helpdesk
