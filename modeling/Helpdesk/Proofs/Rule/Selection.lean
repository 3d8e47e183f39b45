import Helpdesk.Proofs.Rule.Plain
import Helpdesk.Targets

/-! What a rule selects. Where all names are identifiers, the text of a rule finds what its statement finds
(`textRows_eq`): the rows for which its plan is true (`targetRows_eq`). -/

namespace Helpdesk
open Store

namespace Store

/-- The rows that the statement of a group finds on a named target, with their table. -/
def targetRows (s : Store) (c : Compiler) (g : Group) (target : String) :
    Outcome (Table × List Row) := do
  let q ← c.targetQuery g target
  let st ← q.statement
  outcome (s.selectRows st)

/-- The rows that the text of a group finds. -/
def textRows (s : Store) (c : Compiler) (g : Group) (target : String) :
    Outcome (Table × List Row) := do
  let q ← c.targetQuery g target
  s.queryRows q

/-- No row of the table has more than one row of a join beside it. -/
def JoinsAtMostOne (s : Store) (t : Table) (j : Join) : Prop :=
  ∀ u, s.table? j.table = some u → ∀ row ∈ t.rows,
    (u.rows.filter (belongs [⟨targetAlias, t, some row⟩] j u)).length ≤ 1

theorem textRows_eq {s : Store} {c : Compiler} (plain : c.IsPlain) (g : Group) (target : String) :
    s.textRows c g target = s.targetRows c g target := by
  rw [textRows, targetRows]
  cases compiled : c.targetQuery g target with
  | error e => simp only [bind, Except.bind]
  | ok q =>
    have text := queryRows_of_isPlain (s := s) (plain.isPlain_targetQuery compiled)
    exact text

theorem ruleTargets_eq (s : Store) (c : Compiler) (rule : Rule) :
    s.ruleTargets c rule =
      (s.textRows c rule.grouping rule.target).map fun (t, rows) => rows.map (toRecord t) := by
  rw [ruleTargets, textRows, Compiler.ruleQuery]
  cases c.targetQuery rule.grouping rule.target with
  | error e => simp only [bind, Except.bind, Except.map]
  | ok q =>
    simp only [bind, Except.bind, execute]
    cases s.queryRows q with
    | error e => rfl
    | ok found => rfl

end Store

def Plan.JoinsAtMostOne (s : Store) (t : Table) (p : Plan) : Prop :=
  ∀ field a op value, Test.compare (.joined field a) op value ∈ p.tests →
    ∀ u, s.table? a.table = some u → ∀ row ∈ t.rows, (partners t u field a.key row).length ≤ 1

namespace Plan.Writes
variable {p : Plan} {q : Query} {s : Store} {t : Table} {st : Statement}

theorem joinsTarget (h : p.Writes q) {j : Join} (hj : j ∈ q.joins) : JoinsTarget j := by
  obtain ⟨field, a, op, value, -, serves⟩ := h.joins j hj
  rw [JoinsTarget, (Builder.Join.serves_iff.1 serves).1]
  rfl

theorem filter_belongs (h : p.Writes q) {j : Join} (hj : j ∈ q.joins) (u : Table) (row : Row) :
    u.rows.filter (belongs [⟨targetAlias, t, some row⟩] j u) =
      partners t u j.source.field j.key row :=
  Store.filter_belongs (h.joinsTarget hj) (by simp [Scope.range?, sameName_refl]) u

theorem joinsAtMostOne_iff (h : p.Writes q) :
    (∀ j ∈ q.joins, s.JoinsAtMostOne t j) ↔ p.JoinsAtMostOne s t := by
  constructor
  · intro once field a op value hl u table row hr
    obtain ⟨x, column, name, -, located, -⟩ := p.spells_of_mem_tests h.spells hl
    obtain ⟨j, found, -⟩ := Option.map_eq_some_iff.1 located
    have serves := List.find?_some found
    obtain ⟨source, named, key⟩ := Builder.Join.serves_iff.1 serves
    have member := List.mem_of_find?_eq_some found
    rw [← named] at table
    have short := once j member u table row hr
    rw [h.filter_belongs member, source, key] at short
    exact short
  · intro once j hj u table row hr
    obtain ⟨field, a, op, value, hl, serves⟩ := h.joins j hj
    obtain ⟨source, named, key⟩ := Builder.Join.serves_iff.1 serves
    rw [named] at table
    rw [h.filter_belongs hj, source, key]
    exact once field a op value hl u table row hr

theorem selectRows_eq (h : p.Writes q) (fits : p.Fits) (hs : q.statement = .ok st)
    (table : s.table? q.table = some t) (once : p.JoinsAtMostOne s t) {found : Table × List Row}
    (run : s.selectRows st = .ok found) :
    found = (t, inOrder t (t.rows.filter fun row => p.truth s t row == some true)) := by
  obtain ⟨sameTable, sameJoins, -, -⟩ := h.shapes_statement fits hs
  obtain ⟨t', pairs, -, found', tables, -, singles, rfl⟩ := selectRows_eq_ok.1 run
  rw [sameTable, table] at found'
  cases found'
  rw [sameJoins] at tables
  have single : ∀ row ∈ t.rows, JoinsOnce t pairs row := by
    intro row hr pair hp
    have member : pair.1 ∈ q.joins := tables.1 ▸ List.mem_map_of_mem hp
    refine ⟨h.joinsTarget member, ?_⟩
    rw [← h.filter_belongs member]
    exact h.joinsAtMostOne_iff.2 once pair.1 member pair.2 (tables.2 pair hp) row hr
  rw [rowsOf_eq_filter _ _ single]
  refine congrArg (fun kept => (t, inOrder t kept)) (List.filter_congr fun row _ => ?_)
  have agrees := agreesOn_rowScope h.numbered tables t row
  rw [Clause.truth_fold, Clause.truth_eq_evaluate _ singles, Query.evaluate_statement _ hs,
    p.evaluate_of_spells agrees h.spells]

end Plan.Writes

theorem Plan.selectRows_query {s : Store} {t : Table} {p : Plan} {name : String} (fits : p.Fits)
    (table : s.table? name = some t) (word : Statement.isReserved name = false) (runs : p.Runs s t)
    (once : p.JoinsAtMostOne s t) : ∃ st, (p.query name).statement = .ok st ∧
      s.selectRows st =
        .ok (t, inOrder t (t.rows.filter fun row => p.truth s t row == some true)) := by
  have writes := p.writes_query name
  have own : (p.query name).table = name := p.table_query name
  have there : s.table? (p.query name).table = some t := by rw [own, table]
  obtain ⟨clause, hs⟩ := writes.exists_statement fits
  obtain ⟨found, run⟩ := (writes.selectRows_iff fits hs there).2 ⟨by rw [own, word], runs⟩
  refine ⟨_, hs, ?_⟩
  rw [run, writes.selectRows_eq fits hs there once run]

section Targets
variable {s : Store} {c : Compiler} {target : String} {e : Entity} {t : Table}

theorem targetRows_iff (entity : c.config.entity target = .ok e) (table : s.table? e.table = some t)
    {g : Group} : (∃ found, s.targetRows c g target = .ok found) ↔
      Statement.isReserved e.table = false ∧
        ∃ p, c.plan (c.target target e) g = .ok p ∧ p.Runs s t := by
  have run (p : Plan) (planned : c.plan (c.target target e) g = .ok p) {st : Statement}
      (hs : (p.query e.table).statement = .ok st) := by
    have iff := (p.writes_query e.table).selectRows_iff (Compiler.plan_fits g planned) hs
      ((p.table_query e.table).symm ▸ table)
    rw [p.table_query] at iff
    exact iff
  constructor
  · rintro ⟨found, h⟩
    obtain ⟨q, hq, h⟩ := bind_eq_ok.1 h
    obtain ⟨p, planned, rfl⟩ := (Compiler.targetQuery_eq_ok entity).1 hq
    obtain ⟨st, hs, h⟩ := bind_eq_ok.1 h
    obtain ⟨word, runs⟩ := (run p planned hs).1 ⟨found, outcome_eq_ok.1 h⟩
    exact ⟨word, p, planned, runs⟩
  · rintro ⟨word, p, planned, runs⟩
    obtain ⟨clause, hs⟩ :=
      (p.writes_query e.table).exists_statement (Compiler.plan_fits g planned)
    obtain ⟨found, selected⟩ := (run p planned hs).2 ⟨word, runs⟩
    exact ⟨found, bind_eq_ok.2 ⟨_, (Compiler.targetQuery_eq_ok entity).2 ⟨p, planned, rfl⟩,
      bind_eq_ok.2 ⟨_, hs, outcome_eq_ok.2 selected⟩⟩⟩

theorem targetRows_eq (entity : c.config.entity target = .ok e) (table : s.table? e.table = some t)
    {g : Group} {p : Plan} (planned : c.plan (c.target target e) g = .ok p)
    (once : p.JoinsAtMostOne s t)
    {found : Table × List Row} (h : s.targetRows c g target = .ok found) :
    found = (t, inOrder t (t.rows.filter fun row => p.truth s t row == some true)) := by
  obtain ⟨q, hq, h⟩ := bind_eq_ok.1 h
  obtain ⟨p', planned', rfl⟩ := (Compiler.targetQuery_eq_ok entity).1 hq
  obtain rfl : p = p' := Except.ok.inj (planned.symm.trans planned')
  obtain ⟨st, hs, h⟩ := bind_eq_ok.1 h
  have table' : s.table? (p.query e.table).table = some t := by rw [p.table_query, table]
  exact (p.writes_query e.table).selectRows_eq (Compiler.plan_fits g planned) hs table' once
    (outcome_eq_ok.1 h)

end Targets

def Store.Finds (s : Store) (c : Compiler) (target : String) (row : Row) (g : Group) : Prop :=
  ∃ t rows, s.targetRows c g target = .ok (t, rows) ∧ row ∈ rows

theorem Compiler.plan_of_conditions {c : Compiler} {target : Target} {connector : String}
    {conditions : List ConditionDefinition} :
    c.plan target ⟨connector, conditions, []⟩ = (do
      let connector ← Connector.ofName connector
      let terms ← conditions.mapM (c.term target)
      .ok (.group connector terms)) := rfl

end Helpdesk
