import Helpdesk.Proofs.Rule.Statement
import Helpdesk.Store.Select

/-! The columns in the clause of a plan. The database looks for the columns of a clause after it has
folded it, so a missing column is no fault where its conjunction has a plainly false term. Which
sites are looked at can be told from the plan (`shapes_of_spells`). -/

namespace Helpdesk

/-- The sites whose columns a clause mentions; comparisons with no value at all mention none. -/
def Test.sites : Test → List Site
  | .never => []
  | .nullCheck field _ => [.own field]
  | .compare _ _ (.list []) => []
  | .compare site _ _ => [site]

def Test.isFalse : Test → Bool
  | .never => true
  | .compare _ op (.list []) => op == .oneOf
  | _ => false

namespace Connector

def isFalse : Connector → List Bool → Bool
  | .inclusive, falses => falses.any id
  | .exclusive, [] => true
  | .exclusive, [b] => b
  | .exclusive, _ => false

/-- What is looked at of terms: nothing of a conjunction that is plainly false. -/
def looked {α : Type} (connector : Connector) (falses : List Bool) (columns : List α) : List α :=
  match connector with
  | .inclusive => if falses.any id then [] else columns
  | .exclusive => columns

theorem map_looked {α β : Type} (connector : Connector) (falses : List Bool) (columns : List α)
    (f : α → β) :
    (connector.looked falses columns).map f = connector.looked falses (columns.map f) := by
  cases connector with
  | inclusive =>
    simp only [looked]
    split <;> rfl
  | exclusive => rfl

theorem mem_of_mem_looked {α : Type} {connector : Connector} {falses : List Bool} {columns : List α}
    {a : α} (h : a ∈ connector.looked falses columns) : a ∈ columns := by
  cases connector with
  | inclusive =>
    simp only [looked] at h
    split at h
    · exact absurd h List.not_mem_nil
    · exact h
  | exclusive => exact h

def clause : Connector → List Clause → Clause
  | .inclusive => Clause.ofTerms (.fixed true) .all
  | .exclusive => Clause.ofTerms (.fixed false) .any

end Connector

namespace Clause

theorem columns_clause (connector : Connector) (cs : List Clause) :
    (connector.clause cs).columns = columnsOf cs := by
  cases connector <;> rcases cs with _ | ⟨c, _ | ⟨d, cs⟩⟩ <;>
    simp [Connector.clause, ofTerms, columns, columnsOf]

theorem isFalse_fold_clause (connector : Connector) (cs : List Clause) :
    (connector.clause cs).fold.isFalse = connector.isFalse ((folds cs).map isFalse) := by
  cases connector with
  | inclusive =>
    rcases cs with _ | ⟨c, _ | ⟨d, cs⟩⟩
    · rfl
    · simp [Connector.clause, ofTerms, Connector.isFalse, folds]
    · simp only [Connector.clause, ofTerms, fold, Connector.isFalse, List.any_map, Function.id_comp]
      by_cases some_ : (folds (c :: d :: cs)).any isFalse = true
      · rw [if_pos some_, some_, isFalse]
      · rw [if_neg some_, eq_false_of_ne_true some_]
        rfl
  | exclusive =>
    rcases cs with _ | ⟨c, _ | ⟨d, cs⟩⟩
    · rfl
    · rfl
    · rfl

theorem columns_of_isFalse {c : Clause} (h : c.isFalse) : c.columns = [] := by
  cases c with
  | fixed holds => rfl
  | _ => cases h

theorem columns_fold_clause (connector : Connector) (cs : List Clause) :
    (connector.clause cs).fold.columns =
      connector.looked ((folds cs).map isFalse) (columnsOf (folds cs)) := by
  cases connector with
  | inclusive =>
    rcases cs with _ | ⟨c, _ | ⟨d, cs⟩⟩
    · rfl
    · simp only [Connector.clause, ofTerms, Connector.looked, folds, List.map_cons, List.map_nil,
        List.any_cons, List.any_nil, Bool.or_false, id, columnsOf, List.append_nil]
      split
      next false_ => exact columns_of_isFalse false_
      next => rfl
    · simp only [Connector.clause, ofTerms, fold, Connector.looked, List.any_map, Function.id_comp]
      by_cases some_ : (folds (c :: d :: cs)).any isFalse = true
      · rw [if_pos some_, if_pos some_, columns]
      · rw [if_neg some_, if_neg some_, columns]
  | exclusive =>
    rcases cs with _ | ⟨c, _ | ⟨d, cs⟩⟩
    · rfl
    · simp [Connector.clause, ofTerms, Connector.looked, folds, columnsOf]
    · rfl

end Clause

namespace Plan

mutual
def isFalse : Plan → Bool
  | .test leaf => leaf.isFalse
  | .group connector terms => connector.isFalse (falses terms)

def falses : List Plan → List Bool
  | [] => []
  | p :: ps => isFalse p :: falses ps
end

mutual
def looked : Plan → List Site
  | .test leaf => leaf.sites
  | .group connector terms => connector.looked (falses terms) (lookedOf terms)

def lookedOf : List Plan → List Site
  | [] => []
  | p :: ps => looked p ++ lookedOf ps
end

end Plan

structure Plan.Shapes (joins : List Join) (p : Plan) (c : Clause) : Prop where
  columns : c.columns.map some = (p.tests.flatMap Test.sites).map (Site.column? joins)
  isFalse : c.fold.isFalse = p.isFalse
  looked : c.fold.columns.map some = p.looked.map (Site.column? joins)

structure Plan.ShapeAll (joins : List Join) (ps : List Plan) (cs : List Clause) : Prop where
  columns : (Clause.columnsOf cs).map some =
    ((Plan.testsOf ps).flatMap Test.sites).map (Site.column? joins)
  isFalse : (Clause.folds cs).map Clause.isFalse = Plan.falses ps
  looked : (Clause.columnsOf (Clause.folds cs)).map some =
    (Plan.lookedOf ps).map (Site.column? joins)

namespace Plan
variable {joins : List Join}

theorem shapes_group {ps : List Plan} {cs : List Clause} (connector : Connector)
    (h : ShapeAll joins ps cs) : Shapes joins (.group connector ps) (connector.clause cs) where
  columns := by rw [Clause.columns_clause, h.columns, tests]
  isFalse := by rw [Clause.isFalse_fold_clause, h.isFalse, Plan.isFalse]
  looked := by
    rw [Clause.columns_fold_clause, Connector.map_looked, h.looked, h.isFalse, Plan.looked,
      Connector.map_looked]

theorem shapeAll_nil : ShapeAll joins [] [] := ⟨rfl, rfl, rfl⟩

theorem shapeAll_cons {p : Plan} {ps : List Plan} {c : Clause} {cs : List Clause}
    (first : Shapes joins p c) (rest : ShapeAll joins ps cs) :
    ShapeAll joins (p :: ps) (c :: cs) where
  columns := by
    rw [Clause.columnsOf, List.map_append, first.columns, rest.columns, testsOf,
      List.flatMap_append, List.map_append]
  isFalse := by rw [Clause.folds, List.map_cons, first.isFalse, rest.isFalse, falses]
  looked := by
    rw [Clause.folds, Clause.columnsOf, List.map_append, first.looked, rest.looked, lookedOf,
      List.map_append]

end Plan

theorem Plan.shapes_leaf {joins : List Join} {leaf : Test} {site : Site}
    {column : Column} {c : Clause}
    (columns : c.columns = [column]) (notFolded : c.fold = c) (notFalse : c.isFalse = false)
    (located : site.column? joins = some column) (sites : leaf.sites = [site])
    (notFalse' : leaf.isFalse = false) : Plan.Shapes joins (.test leaf) c where
  columns := by simp [columns, Plan.tests, sites, located]
  isFalse := by rw [notFolded, notFalse, Plan.isFalse, notFalse']
  looked := by simp [notFolded, columns, Plan.looked, sites, located]

theorem Query.shapes_leafClause {joins : List Join} {site : Site} {column : Column} {op : Operator}
    {value : Value} {name : String} {bound : Nat} {c : Clause} {values : List Value}
    (located : site.column? joins = some column)
    (h : leafClause bound column op name value = .ok (c, values)) :
    Plan.Shapes joins (.test (.compare site op value)) c := by
  by_cases single : value.isList = false
  · rw [leafClause_of_not_list bound column op name single] at h
    split at h <;> cases h
    cases value with
    | list items => cases single
    | _ => exact Plan.shapes_leaf rfl rfl rfl located rfl rfl
  · cases value with
    | list items =>
      simp only [leafClause] at h
      split at h
      next lists =>
        cases items with
        | nil =>
          cases h
          cases op <;> exact ⟨rfl, rfl, rfl⟩
        | cons v vs =>
          cases h
          exact Plan.shapes_leaf rfl rfl rfl located rfl rfl
      next => cases h
    | _ => exact absurd rfl single

theorem Test.shapes_of_spells {q : Query} {leaf : Test} {x : Predicate} {bound : Nat} {c : Clause}
    {values : List Value} (h : leaf.Spells q x)
    (hc : q.clause bound x = .ok (c, values)) : Plan.Shapes q.joins (.test leaf) c := by
  cases leaf with
  | never => subst h; cases hc; exact ⟨rfl, rfl, rfl⟩
  | nullCheck field negated =>
    subst h
    cases hc
    have located : (Site.own field).column? q.joins = some (Builder.column field) := rfl
    exact Plan.shapes_leaf rfl rfl rfl located rfl rfl
  | compare site op value =>
    obtain ⟨column, name, rfl, located, found⟩ := h
    rw [Query.clause, found] at hc
    exact Query.shapes_leafClause located hc

namespace Plan

mutual
theorem shapes_of_spells {q : Query} : (p : Plan) → {x : Predicate} → {bound : Nat} → {c : Clause} →
    {values : List Value} → p.Spells q x → q.clause bound x = .ok (c, values) →
    Shapes q.joins p c
  | .test leaf, x, bound, c, values, h, hc => Test.shapes_of_spells h hc
  | .group connector terms, x, bound, c, values, h, hc => by
    obtain ⟨xs, rfl, h⟩ := h
    cases connector with
    | inclusive =>
      obtain ⟨⟨cs, vs⟩, hcs, hc⟩ := bind_eq_ok.1 hc
      cases hc
      exact shapes_group .inclusive (shapeAll_of_spell terms h hcs)
    | exclusive =>
      obtain ⟨⟨cs, vs⟩, hcs, hc⟩ := bind_eq_ok.1 hc
      cases hc
      exact shapes_group .exclusive (shapeAll_of_spell terms h hcs)

theorem shapeAll_of_spell {q : Query} : (ps : List Plan) → {xs : List Predicate} → {bound : Nat} →
    {cs : List Clause} → {values : List Value} → Spell q ps xs →
    q.clauses bound xs = .ok (cs, values) → ShapeAll q.joins ps cs
  | [], xs, bound, cs, values, h, hcs => by
    subst h
    cases hcs
    exact shapeAll_nil
  | p :: ps, xs, bound, cs, values, h, hcs => by
    obtain ⟨y, ys, rfl, first, rest⟩ := h
    obtain ⟨⟨c, vs⟩, hc, hcs⟩ := bind_eq_ok.1 hcs
    obtain ⟨⟨ds, ws⟩, hds, hcs⟩ := bind_eq_ok.1 hcs
    cases hcs
    exact shapeAll_cons (shapes_of_spells p first hc) (shapeAll_of_spell ps rest hds)
end

end Plan
end Helpdesk
