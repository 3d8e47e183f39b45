import Helpdesk.Proofs.Rule.Emission
import Helpdesk.Proofs.Rule.Fit

/-! Every compiled rule has a statement (`statement_of_compiled`): its comparisons fit their values,
and the values are bound in the order in which the rule was compiled. -/

namespace Helpdesk

def Value.items : Value → List Value
  | .list items => items
  | value => [value]

namespace Query

theorem leafClause_ok (bound : Nat) (column : Column) {op : Operator}
    (name : String) {value : Value}
    (h : op.takesList = value.isList) :
    ∃ c, leafClause bound column op name value = .ok (c, value.items) := by
  by_cases list : value.isList = true
  · cases value with
    | list items =>
      rw [list] at h
      cases items with
      | nil => exact ⟨_, by simp [leafClause, h, Value.items]; rfl⟩
      | cons v vs => exact ⟨_, by simp [leafClause, h, Value.items]; rfl⟩
    | _ => cases list
  · have notList : value.isList = false := Bool.not_eq_true _ ▸ list
    rw [notList] at h
    refine ⟨.compare column op (bound + 1), ?_⟩
    rw [leafClause_of_not_list bound column op name notList, h]
    cases value with
    | list items => cases notList
    | _ => rfl

end Query

theorem Test.clause_of_spells {q : Query} {t : Test} {x : Predicate} (fits : t.Fits)
    (h : t.Spells q x)
    (bound : Nat) : ∃ c, q.clause bound x = .ok (c, t.value?.toList.flatMap Value.items) := by
  cases t with
  | never => subst h; exact ⟨_, rfl⟩
  | nullCheck field negated => subst h; exact ⟨_, rfl⟩
  | compare site op value =>
    obtain ⟨column, name, rfl, -, found⟩ := h
    obtain ⟨c, hc⟩ := Query.leafClause_ok bound column name fits.2
    refine ⟨c, ?_⟩
    rw [Query.clause, found]
    simpa [value?] using hc

namespace Plan

mutual
theorem clause_of_spells {q : Query} : (p : Plan) → {x : Predicate} → p.Fits → p.Spells q x →
    (bound : Nat) → ∃ c, q.clause bound x = .ok (c, p.values.flatMap Value.items)
  | .test t, x, fits, h, bound => by
    obtain ⟨c, hc⟩ := t.clause_of_spells (fits t (List.mem_singleton.2 rfl)) h bound
    refine ⟨c, ?_⟩
    rw [hc, values, tests]
    cases t <;> rfl
  | .group connector terms, x, fits, h, bound => by
    obtain ⟨xs, rfl, h⟩ := h
    obtain ⟨cs, hcs⟩ := clauses_of_spell terms fits h bound
    cases connector <;> exact ⟨_, by rw [Connector.combine, Query.clause, hcs]; rfl⟩

theorem clauses_of_spell {q : Query} : (ps : List Plan) → {xs : List Predicate} →
    (∀ t ∈ testsOf ps, t.Fits) → Spell q ps xs → (bound : Nat) →
    ∃ cs, q.clauses bound xs = .ok (cs, ((testsOf ps).filterMap Test.value?).flatMap Value.items)
  | [], xs, _, h, _ => by
    subst h
    exact ⟨[], rfl⟩
  | p :: ps, xs, fits, h, bound => by
    obtain ⟨y, ys, rfl, first, rest⟩ := h
    obtain ⟨c, hc⟩ := clause_of_spells p
      (fun t ht => fits t (List.mem_append_left _ ht)) first bound
    obtain ⟨cs, hcs⟩ := clauses_of_spell ps (fun t ht => fits t (List.mem_append_right _ ht)) rest
      (bound + (p.values.flatMap Value.items).length)
    refine ⟨c :: cs, ?_⟩
    rw [testsOf, List.filterMap_append, List.flatMap_append, Query.clauses, hc]
    simp only [bind, Except.bind, hcs]
    rfl
end

theorem Writes.exists_statement {p : Plan} {q : Query} (h : p.Writes q) (fits : p.Fits) :
    ∃ clause, q.statement = .ok ⟨q.table, q.joins, clause, p.values.flatMap Value.items⟩ := by
  obtain ⟨clause, hc⟩ := p.clause_of_spells fits h.spells 0
  refine ⟨clause, ?_⟩
  rw [Query.statement, hc]
  rfl

theorem Test.column_of_spells {q : Query} {t : Test} {x : Predicate} (h : t.Spells q x) :
    ∀ column ∈ x.columns, ∃ site : Site, site.column? q.joins = some column := by
  intro column hc
  cases t with
  | never => subst h; cases hc
  | nullCheck field negated =>
    subst h
    exact ⟨.own field, congrArg some (List.mem_singleton.1 hc).symm⟩
  | compare site op value =>
    obtain ⟨own, name, rfl, located, -⟩ := h
    exact ⟨site, List.mem_singleton.1 hc ▸ located⟩

mutual
theorem column_of_spells {q : Query} : (p : Plan) → {x : Predicate} → p.Spells q x →
    ∀ column ∈ x.columns, ∃ site : Site, site.column? q.joins = some column
  | .test t, x, h => Test.column_of_spells h
  | .group connector terms, x, h => by
    obtain ⟨xs, rfl, h⟩ := h
    rw [Predicate.columns, Predicate.leaves_combine]
    exact columns_of_spell terms h

theorem columns_of_spell {q : Query} : (ps : List Plan) → {xs : List Predicate} → Spell q ps xs →
    ∀ column ∈ (Predicate.leavesOf xs).filterMap Predicate.column?,
      ∃ site : Site, site.column? q.joins = some column
  | [], xs, h => by
    subst h
    exact fun column hc => absurd hc List.not_mem_nil
  | p :: ps, xs, h => by
    obtain ⟨y, ys, rfl, first, rest⟩ := h
    intro column hc
    rw [Predicate.leavesOf, List.filterMap_append] at hc
    rcases List.mem_append.1 hc with hc | hc
    · exact column_of_spells p first column hc
    · exact columns_of_spell ps rest column hc
end

end Plan

theorem Site.qualifier_of_column? {joins : List Join}
    (nodup : (joins.map Join.name).Nodup) {site : Site}
    {column : Column} (h : site.column? joins = some column) :
    column.qualifier = targetAlias ∨ joins.countP (fun j => j.name == column.qualifier) = 1 := by
  cases site with
  | own field =>
    cases h
    exact .inl rfl
  | joined field a =>
    obtain ⟨j, found, rfl⟩ := Option.map_eq_some_iff.1 h
    right
    have member : j.name ∈ joins.map Join.name :=
      List.mem_map_of_mem (List.mem_of_find?_eq_some found)
    have once := List.count_eq_one_of_mem nodup member
    rwa [List.count, List.countP_map] at once

namespace Compiler
variable {c : Compiler} {q : Query}

theorem plan_of_targetQuery {g : Group} {target : String} (h : c.targetQuery g target = .ok q) :
    ∃ p : Plan, p.Fits ∧ p.Writes q := by
  rw [targetQuery_eq] at h
  obtain ⟨e, -, h⟩ := bind_eq_ok.1 h
  obtain ⟨p, planned, h⟩ := bind_eq_ok.1 h
  cases h
  exact ⟨p, plan_fits g planned, p.writes_query e.table⟩

/-- A compiled rule always has a statement. Its values are those of the query's parameters in the
order in which they were bound; every parameter has one reference, and every column one table. -/
theorem statement_of_compiled
    (h : (∃ g className, c.classQuery g className = .ok q) ∨ ∃ rule, c.ruleQuery rule = .ok q) :
    (∃ st, q.statement = .ok st ∧
      st.parameters = q.parameters.flatMap fun parameter => parameter.value.items) ∧
    ((q.parameters.map Parameter.name).Nodup ∧
      ∀ parameter ∈ q.parameters, q.predicate.references.count parameter.name = 1) ∧
    ∀ column ∈ q.predicate.columns, column.qualifier = targetAlias ∨
      q.joins.countP (fun j => j.name == column.qualifier) = 1 := by
  have compiled : ∃ g target, c.targetQuery g target = .ok q := by
    rcases h with ⟨g, className, h⟩ | ⟨rule, h⟩
    · obtain ⟨target, -, h⟩ := bind_eq_ok.1 h
      exact ⟨g, target, h⟩
    · exact ⟨rule.grouping, rule.target, h⟩
  obtain ⟨g, target, compiled⟩ := compiled
  obtain ⟨p, fits, writes⟩ := plan_of_targetQuery compiled
  have names := writes.numbered.nodup_parameters
  refine ⟨?_, ⟨names, fun parameter hp => ?_⟩, fun column hc => ?_⟩
  · obtain ⟨clause, hc⟩ := p.clause_of_spells fits writes.spells 0
    refine ⟨⟨q.table, q.joins, clause, p.values.flatMap Value.items⟩, ?_, ?_⟩
    · rw [Query.statement, hc]
      rfl
    · rw [← writes.values, List.flatMap_map]
  · rw [writes.references]
    exact List.count_eq_one_of_mem names (List.mem_map_of_mem hp)
  · obtain ⟨site, located⟩ := p.column_of_spells writes.spells column hc
    exact Site.qualifier_of_column? writes.numbered.nodup_joins located

def anyOfThree : Group where
  connector := "or"
  conditions := [⟨"status", .binary "in" (.ofTexts ["new", "open"])⟩,
    ⟨"branch", .binary "like" (.text "North")⟩, ⟨"assignee", .unary "is_null"⟩]
  children := []

theorem statement_of_anyOfThree :
    ∃ q, (Compiler.ofConfig .helpdesk .epoch).classQuery anyOfThree "Ticket" = .ok q ∧
    (∃ st, q.statement = .ok st ∧
      st.parameters = q.parameters.flatMap fun parameter => parameter.value.items) ∧
    ((q.parameters.map Parameter.name).Nodup ∧
      ∀ parameter ∈ q.parameters, q.predicate.references.count parameter.name = 1) ∧
    ∀ column ∈ q.predicate.columns, column.qualifier = targetAlias ∨
      q.joins.countP (fun j => j.name == column.qualifier) = 1 := by
  have compiled : ∃ q,
      (Compiler.ofConfig .helpdesk .epoch).classQuery anyOfThree "Ticket" = .ok q :=
    ⟨_, rfl⟩
  obtain ⟨q, h⟩ := compiled
  exact ⟨q, h, statement_of_compiled (.inl ⟨anyOfThree, "Ticket", h⟩)⟩

end Compiler
end Helpdesk
