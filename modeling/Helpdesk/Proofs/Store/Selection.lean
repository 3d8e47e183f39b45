import Helpdesk.Proofs.Store.Order
import Helpdesk.Proofs.Store.Truth
import Mathlib.Data.List.Basic

/-! Selections in which no join adds rows. When every join finds at most one row for each row of the
table, the rows that a statement finds are those of the table for which its condition is true, in order
(`rowsOf_eq_filter`). What a statement needs to run at all is said in `selectRows_eq_ok`. -/

namespace Helpdesk.Store

theorem outcome_eq_ok {α : Type} {r : Result α} {a : α} : outcome r = .ok a ↔ r = .ok a := by
  cases r <;> simp [outcome]

theorem sameName_refl (a : String) : sameName a a = true := by
  simp [sameName]

def Table.cellIn (t : Table) (row : Option Row) (field : String) : Affinity × Cell :=
  match t.schema.place? field with
  | some p => (p.affinity, match row with | some row => row.get p | none => .null)
  | none => (.none, .null)

/-- The rows of another table that belong to a row, through a field of it and a key of theirs. -/
def partners (t u : Table) (field key : String) (row : Row) : List Row :=
  u.rows.filter fun r =>
    Cell.compareTruth .eq (u.cellIn (some r) key).1 (t.cellIn (some row) field).1
      (u.cellIn (some r) key).2 (t.cellIn (some row) field).2 == some true

namespace Scope

theorem cell_eq {scope : Scope} {name : String} {r : Range} (h : scope.range? name = some r)
    (field : String) : scope.cell ⟨name, field⟩ = r.table.cellIn r.row field := by
  simp only [cell, place?, h, Option.bind_eq_bind, Option.bind_some, Table.cellIn]
  cases r.table.schema.place? field <;> rfl

theorem isSome_place? {scope : Scope} {name : String} {r : Range} (h : scope.range? name = some r)
    (field : String) :
    (scope.place? ⟨name, field⟩).isSome = (r.table.schema.place? field).isSome := by
  simp only [place?, h, Option.bind_eq_bind, Option.bind_some]
  cases r.table.schema.place? field <;> rfl

def Distinct (scope : Scope) : Prop := scope.Pairwise fun r o => sameName r.name o.name = false

theorem range?_of_mem {scope : Scope} (distinct : scope.Distinct) {r : Range} (h : r ∈ scope) :
    scope.range? r.name = some r := by
  rw [range?]
  induction scope with
  | nil => exact absurd h List.not_mem_nil
  | cons o rest ih =>
    obtain ⟨first, others⟩ := List.pairwise_cons.1 distinct
    rcases List.mem_cons.1 h with rfl | later
    · exact List.find?_cons_of_pos (sameName_refl r.name)
    · rw [List.find?_cons_of_neg (by rw [first r later]; decide)]
      exact ih others later

end Scope

def JoinsTarget (j : Join) : Prop := j.source.qualifier = targetAlias

theorem filter_belongs {j : Join} (target : JoinsTarget j) {scope : Scope} {t : Table} {row : Row}
    (first : scope.range? targetAlias = some ⟨targetAlias, t, some row⟩) (u : Table) :
    u.rows.filter (belongs scope j u) = partners t u j.source.field j.key row := by
  refine List.filter_congr fun r _ => ?_
  have own : Scope.range? [⟨j.name, u, some r⟩] j.name = some ⟨j.name, u, some r⟩ := by
    simp [Scope.range?, sameName_refl]
  have source : scope.cell j.source = t.cellIn (some row) j.source.field := by
    rw [← Scope.cell_eq first, ← target]
  rw [belongs, keyColumn, Scope.cell_eq own, source]

def joinedRange (t : Table) (row : Row) (p : Join × Table) : Range :=
  ⟨p.1.name, p.2, (partners t p.2 p.1.source.field p.1.key row).head?⟩

def rowScope (t : Table) (joins : List (Join × Table)) (row : Row) : Scope :=
  ⟨targetAlias, t, some row⟩ :: joins.map (joinedRange t row)

def JoinsOnce (t : Table) (joins : List (Join × Table)) (row : Row) : Prop :=
  ∀ p ∈ joins, JoinsTarget p.1 ∧ (partners t p.2 p.1.source.field p.1.key row).length ≤ 1

theorem joined_eq {t : Table} {row : Row} (joins : List (Join × Table))
    (once : JoinsOnce t joins row) :
    ∀ scope : Scope, scope.range? targetAlias = some ⟨targetAlias, t, some row⟩ →
      joined [scope] joins = [scope ++ joins.map (joinedRange t row)] := by
  induction joins with
  | nil => intro scope _; simp [joined]
  | cons p joins ih =>
    intro scope first
    obtain ⟨target, short⟩ := once p List.mem_cons_self
    have step : extend scope p.1 p.2 = [scope ++ [joinedRange t row p]] := by
      rw [extend, filter_belongs target first, joinedRange]
      cases found : partners t p.2 p.1.source.field p.1.key row with
      | nil => rfl
      | cons r rs =>
        rw [found, List.length_cons] at short
        obtain rfl : rs = [] := List.eq_nil_of_length_eq_zero (by omega)
        rfl
    have first' : Scope.range? (scope ++ [joinedRange t row p]) targetAlias =
        some ⟨targetAlias, t, some row⟩ := by
      rw [Scope.range?, List.find?_append]
      rw [Scope.range?] at first
      rw [first]
      rfl
    have rest := ih (fun o ho => once o (List.mem_cons_of_mem _ ho)) _ first'
    rw [joined, List.flatMap_cons, List.flatMap_nil, List.append_nil, step, rest, List.map_cons,
      List.append_assoc]
    rfl

/-- Where joins add no rows, a condition selects from the rows of the table. -/
theorem rowsOf_eq_filter {t : Table} {joins : List (Join × Table)} (clause : Clause)
    (cells : List Cell)
    (once : ∀ row ∈ t.rows, JoinsOnce t joins row) :
    rowsOf t joins clause cells = inOrder t
      (t.rows.filter fun row => clause.truth (rowScope t joins row).cell cells == some true) := by
  have one (row : Row) (h : JoinsOnce t joins row) :
      joined [[⟨targetAlias, t, some row⟩]] joins = [rowScope t joins row] :=
    joined_eq joins h _ (by simp [Scope.range?, sameName_refl])
  rw [rowsOf]
  congr 1
  generalize t.rows = rows at once
  induction rows with
  | nil => rfl
  | cons row rows ih =>
    rw [List.flatMap_cons, one row (once row List.mem_cons_self),
      ih fun r hr => once r (List.mem_cons_of_mem _ hr)]
    by_cases holds : (clause.truth (rowScope t joins row).cell cells == some true) = true
    · simp [holds]
    · simp [holds]

def joinedRanges (joins : List (Join × Table)) : List Range :=
  joins.map fun p => ⟨p.1.name, p.2, none⟩

def JoinTables (s : Store) (joins : List Join) (pairs : List (Join × Table)) : Prop :=
  pairs.map Prod.fst = joins ∧ ∀ p ∈ pairs, s.table? p.1.table = some p.2

theorem mapM_ranges_eq_ok {s : Store} {joins : List Join} {ranges : List Range} :
    (joins.mapM fun j => do
      let t ← s.table j.table
      .ok (Range.mk j.name t none)) = (.ok ranges : Result (List Range)) ↔
      ∃ pairs, s.JoinTables joins pairs ∧ ranges = joinedRanges pairs := by
  induction joins generalizing ranges with
  | nil =>
    constructor
    · rintro ⟨⟩
      exact ⟨[], ⟨rfl, fun p hp => absurd hp List.not_mem_nil⟩, rfl⟩
    · rintro ⟨pairs, ⟨none_, -⟩, rfl⟩
      rw [List.map_eq_nil_iff.1 none_]
      rfl
  | cons j joins ih =>
    rw [List.mapM_cons]
    constructor
    · intro h
      obtain ⟨r, first, h⟩ := bind_eq_ok.1 h
      obtain ⟨rs, others, h⟩ := bind_eq_ok.1 h
      obtain ⟨t, found, first⟩ := bind_eq_ok.1 first
      obtain ⟨pairs, ⟨names, tables⟩, rfl⟩ := ih.1 others
      cases first
      cases h
      refine ⟨(j, t) :: pairs, ⟨by rw [List.map_cons, names], ?_⟩, rfl⟩
      exact List.forall_mem_cons.2 ⟨table_eq_ok.1 found, tables⟩
    · rintro ⟨pairs, ⟨names, tables⟩, rfl⟩
      obtain ⟨⟨o, t⟩, pairs, rfl, rfl, others⟩ := List.map_eq_cons_iff.1 names
      obtain ⟨found, tables⟩ := List.forall_mem_cons.1 tables
      have rest := ih.2 ⟨pairs, ⟨others, tables⟩, rfl⟩
      rw [table_eq_ok.2 found, rest]
      rfl

theorem ranges_eq_ok {s : Store} {table : String} {joins : List Join} {scope : Scope} :
    s.ranges table joins = .ok scope ↔ ∃ t pairs, s.table? table = some t ∧
      s.JoinTables joins pairs ∧
      scope = ⟨targetAlias, t, none⟩ :: joinedRanges pairs := by
  constructor
  · intro h
    obtain ⟨t, found, h⟩ := bind_eq_ok.1 h
    obtain ⟨rest, others, h⟩ := bind_eq_ok.1 h
    obtain ⟨pairs, tables, rfl⟩ := mapM_ranges_eq_ok.1 others
    cases h
    exact ⟨t, pairs, table_eq_ok.1 found, tables, rfl⟩
  · rintro ⟨t, pairs, found, tables, rfl⟩
    exact bind_eq_ok.2 ⟨t, table_eq_ok.2 found,
      bind_eq_ok.2 ⟨joinedRanges pairs, mapM_ranges_eq_ok.2 ⟨pairs, tables, rfl⟩, rfl⟩⟩

theorem checkColumns_eq_ok {scope : Scope} {columns : List Column} :
    checkColumns scope columns = .ok () ↔ ∀ column ∈ columns, (scope.place? column).isSome := by
  rw [checkColumns]
  cases found : columns.find? fun c => (scope.place? c).isNone with
  | none => simpa [Option.isSome_iff_ne_none] using found
  | some column =>
    have member := List.mem_of_find?_eq_some found
    have missing := List.find?_some found
    simp only [reduceCtorEq, false_iff]
    intro there
    have some_ := there column member
    simp [Option.isNone_iff_eq_none.1 missing] at some_

/-- What a statement needs: names that can stand in it, tables and columns that are there, and
values that are no lists. -/
theorem selectRows_eq_ok {s : Store} {st : Statement} {found : Table × List Row} :
    s.selectRows st = .ok found ↔ ∃ t pairs, st.badWord? = none ∧ s.table? st.table = some t ∧
      s.JoinTables st.joins pairs ∧
      (∀ column ∈ st.clause.fold.columns ++ st.joins.flatMap fun j => [keyColumn j, j.source],
        (Scope.place? (⟨targetAlias, t, none⟩ :: joinedRanges pairs) column).isSome) ∧
      (∀ v ∈ st.parameters, v.isList = false) ∧
      found = (t, rowsOf t pairs st.clause.fold (st.parameters.map Cell.ofValue)) := by
  have zip {pairs : List (Join × Table)} (tables : s.JoinTables st.joins pairs) :
      st.joins.zip ((joinedRanges pairs).map Range.table) = pairs := by
    rw [← tables.1, joinedRanges, List.map_map]
    exact (List.zip_of_prod rfl rfl).symm
  constructor
  · intro h
    rw [selectRows] at h
    split at h
    · cases h
    next words =>
      obtain ⟨scope, ranges, h⟩ := bind_eq_ok.1 h
      obtain ⟨t, pairs, found, tables, rfl⟩ := ranges_eq_ok.1 ranges
      obtain ⟨⟨⟩, columns, h⟩ := bind_eq_ok.1 h
      obtain ⟨cells, bound, h⟩ := bind_eq_ok.1 h
      obtain ⟨singles, rfl⟩ := bindAll_eq_ok.1 bound
      obtain ⟨u, again, h⟩ := bind_eq_ok.1 h
      obtain rfl : t = u := Option.some.inj (found.symm.trans (table_eq_ok.1 again))
      cases h
      refine ⟨t, pairs, words, found, tables, checkColumns_eq_ok.1 columns, singles, ?_⟩
      rw [List.tail_cons, zip tables]
  · rintro ⟨t, pairs, words, found, tables, columns, singles, rfl⟩
    rw [selectRows, words]
    refine bind_eq_ok.2 ⟨_, ranges_eq_ok.2 ⟨t, pairs, found, tables, rfl⟩, ?_⟩
    refine bind_eq_ok.2 ⟨(), checkColumns_eq_ok.2 columns, ?_⟩
    refine bind_eq_ok.2 ⟨_, bindAll_eq_ok.2 ⟨singles, rfl⟩, ?_⟩
    refine bind_eq_ok.2 ⟨t, table_eq_ok.2 found, ?_⟩
    rw [List.tail_cons, zip tables]

end Helpdesk.Store
