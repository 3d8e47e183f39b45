import Helpdesk.Proofs.Rule.Shape
import Helpdesk.Proofs.Rule.Truth

/-! Which plans run. A database runs the query of a plan just when the names in it can stand in a
statement, the tables and columns that it leads to are there, and its values can be bound
(`selectRows_iff`). These are demands on each test of the plan, but for the columns that fold away,
and a group asks for nothing that its parts do not ask for (`runs_group`). -/

namespace Helpdesk
open Store

def Site.word : Site → String
  | .own field => field
  | .joined _ a => a.display

def Site.IsThere (s : Store) (t : Table) : Site → Prop
  | .own field => (t.schema.place? field).isSome
  | .joined _ a => ∃ u, s.table? a.table = some u ∧ (u.schema.place? a.display).isSome

structure CanJoin (s : Store) (t : Table) (field : String) (a : Association) : Prop where
  words : ∀ word ∈ [a.table, a.key, field], Statement.isReserved word = false
  source : (t.schema.place? field).isSome
  key : ∃ u, s.table? a.table = some u ∧ (u.schema.place? a.key).isSome

structure Test.Admitted (s : Store) (t : Table) (leaf : Test) : Prop where
  words : ∀ site ∈ leaf.sites, Statement.isReserved site.word = false
  joins : ∀ field a op value, leaf = .compare (.joined field a) op value → CanJoin s t field a
  values : ∀ value ∈ leaf.value?, ∀ v ∈ value.items, v.isList = false

/-- What a plan asks of a database. -/
structure Plan.Runs (s : Store) (t : Table) (p : Plan) : Prop where
  tests : ∀ leaf ∈ p.tests, leaf.Admitted s t
  looked : ∀ site ∈ p.looked, site.IsThere s t

namespace Plan
variable {s : Store} {t : Table}

theorem mem_testsOf {leaf : Test} {ps : List Plan} :
    leaf ∈ testsOf ps ↔ ∃ p ∈ ps, leaf ∈ p.tests := by
  induction ps with
  | nil => simp [testsOf]
  | cons p ps ih => simp [testsOf, ih]

theorem mem_lookedOf {site : Site} {ps : List Plan} :
    site ∈ lookedOf ps ↔ ∃ p ∈ ps, site ∈ p.looked := by
  induction ps with
  | nil => simp [lookedOf]
  | cons p ps ih => simp [lookedOf, ih]

theorem runs_group {connector : Connector} {ps : List Plan} (h : ∀ p ∈ ps, p.Runs s t) :
    (group connector ps).Runs s t where
  tests leaf hl := by
    obtain ⟨p, hp, hl⟩ := mem_testsOf.1 hl
    exact (h p hp).tests leaf hl
  looked site hs := by
    rw [looked] at hs
    obtain ⟨p, hp, hs⟩ := mem_lookedOf.1 (Connector.mem_of_mem_looked hs)
    exact (h p hp).looked site hs

end Plan

/-- A plainly false test has no column that could be missing. -/
theorem Test.sites_of_isFalse {leaf : Test} (h : leaf.isFalse) : leaf.sites = [] := by
  cases leaf with
  | never => rfl
  | nullCheck field negated => cases h
  | compare site op value =>
    cases value with
    | list items =>
      cases items with
      | nil => rfl
      | cons v vs => cases h
    | _ => cases h

theorem Plan.runs_of_singleton {s : Store} {t : Table} {connector : Connector} {leaf : Test}
    (h : (group connector [.test leaf]).Runs s t) : (Plan.test leaf).Runs s t := by
  refine ⟨fun l hl => h.tests l (mem_testsOf.2 ⟨_, List.mem_singleton.2 rfl, hl⟩),
    fun site hs => ?_⟩
  refine h.looked site ?_
  cases connector with
  | inclusive =>
    by_cases false_ : leaf.isFalse
    · rw [looked, Test.sites_of_isFalse false_] at hs
      exact absurd hs List.not_mem_nil
    · simpa [looked, lookedOf, falses, isFalse, Connector.looked, false_] using hs
  | exclusive => simpa [looked, lookedOf, Connector.looked] using hs

namespace Statement

theorem isReserved_numberedName (n : Nat) : isReserved (Builder.numberedName "j" n) = false := by
  have plain : ∀ word ∈ reservedWords, word.toList.all fun c => !Text.Decimal.isDigit c := by decide
  rw [← Bool.not_eq_true, isReserved, Builder.toLower_numberedName, String.ofList_toList,
    List.contains_iff_mem]
  intro reserved
  -- Reserved words have no digits, and the name of a join has at least one.
  obtain ⟨c, hc⟩ := List.exists_mem_of_ne_nil _ (Text.Decimal.ofNat_ne_nil n)
  have member : c ∈ (Builder.numberedName "j" n).toList := by
    rw [Builder.toList_numberedName]
    exact List.mem_append_right _ hc
  have notDigit := List.all_eq_true.1 (plain _ reserved) c member
  rw [Text.Decimal.isDigit_of_mem_ofNat hc] at notDigit
  cases notDigit

end Statement

namespace Plan.Writes
variable {p : Plan} {q : Query}

theorem name_of_mem_joins (h : p.Writes q) {j : Join} (hj : j ∈ q.joins) :
    ∃ n, j.name = Builder.numberedName "j" n := by
  obtain ⟨i, hi, rfl⟩ := List.getElem_of_mem hj
  exact ⟨i + 1, h.numbered.joins i hi⟩

/-- Of the column of a site only the last name can be reserved. -/
theorem isReserved_column (h : p.Writes q) {site : Site} {column : Column}
    (located : site.column? q.joins = some column) :
    Statement.isReserved column.qualifier = false ∧ column.field = site.word := by
  cases site with
  | own field =>
    cases located
    have word : Statement.isReserved targetAlias = false := by decide
    exact ⟨word, rfl⟩
  | joined field a =>
    obtain ⟨j, found, rfl⟩ := Option.map_eq_some_iff.1 located
    obtain ⟨n, name⟩ := h.name_of_mem_joins (List.mem_of_find?_eq_some found)
    exact ⟨by rw [name]; exact Statement.isReserved_numberedName n, rfl⟩

end Plan.Writes

namespace Plan

mutual
theorem spells_of_mem_tests {q : Query} {leaf : Test} : (p : Plan) → {x : Predicate} →
    p.Spells q x → leaf ∈ p.tests → ∃ y, leaf.Spells q y
  | .test own, x, h, hl => ⟨x, List.mem_singleton.1 hl ▸ h⟩
  | .group connector terms, x, h, hl => by
    obtain ⟨xs, rfl, h⟩ := h
    exact spells_of_mem_testsOf terms h hl

theorem spells_of_mem_testsOf {q : Query} {leaf : Test} : (ps : List Plan) → {xs : List Predicate} →
    Spell q ps xs → leaf ∈ testsOf ps → ∃ y, leaf.Spells q y
  | [], xs, _, hl => absurd hl List.not_mem_nil
  | p :: ps, xs, h, hl => by
    obtain ⟨y, ys, rfl, first, rest⟩ := h
    rcases List.mem_append.1 hl with hl | hl
    · exact spells_of_mem_tests p first hl
    · exact spells_of_mem_testsOf ps rest hl
end

end Plan

namespace Statement

theorem badWord?_eq_none_iff {st : Statement} :
    st.badWord? = none ↔ isReserved st.table = false ∧
      (∀ j ∈ st.joins, ∀ word ∈ [j.table, j.key, j.source.qualifier, j.source.field],
        isReserved word = false) ∧
      ∀ column ∈ st.clause.columns, isReserved column.qualifier = false ∧
        isReserved column.field = false := by
  rw [badWord?, List.find?_eq_none, List.cons_append, List.forall_mem_cons, List.forall_mem_append,
    List.forall_mem_flatMap, List.forall_mem_flatMap]
  simp [columnWords]

end Statement

section Ranges
variable {p : Plan} {q : Query} {s : Store} {t : Table} {pairs : List (Join × Table)}

theorem Plan.Writes.distinct_ranges (h : p.Writes q) (tables : s.JoinTables q.joins pairs) :
    Scope.Distinct (⟨targetAlias, t, none⟩ :: joinedRanges pairs) := by
  refine h.numbered.distinct_scope ?_
  rw [← tables.1, List.map_cons, joinedRanges, List.map_map, List.map_map]
  rfl

theorem Plan.Writes.isSome_place?_own (h : p.Writes q) (tables : s.JoinTables q.joins pairs)
    (field : String) :
    (Scope.place? (⟨targetAlias, t, none⟩ :: joinedRanges pairs) (Builder.column field)).isSome =
      (t.schema.place? field).isSome :=
  Scope.isSome_place? (Scope.range?_of_mem (h.distinct_ranges tables) List.mem_cons_self) field

theorem Plan.Writes.isSome_place?_joined (h : p.Writes q)
    (tables : s.JoinTables q.joins pairs) {j : Join}
    {u : Table} (pair : (j, u) ∈ pairs) (field : String) :
    (Scope.place? (⟨targetAlias, t, none⟩ :: joinedRanges pairs) ⟨j.name, field⟩).isSome =
      (u.schema.place? field).isSome := by
  have member : ⟨j.name, u, none⟩ ∈ joinedRanges pairs := List.mem_map.2 ⟨_, pair, rfl⟩
  have found := Scope.range?_of_mem (h.distinct_ranges (t := t) tables)
    (List.mem_cons_of_mem _ member)
  exact Scope.isSome_place? found field

theorem Plan.Writes.isSome_place?_iff (h : p.Writes q)
    (tables : s.JoinTables q.joins pairs) {site : Site}
    {column : Column} (located : site.column? q.joins = some column) :
    (Scope.place? (⟨targetAlias, t, none⟩ :: joinedRanges pairs) column).isSome ↔
        site.IsThere s t := by
  cases site with
  | own field =>
    cases located
    rw [h.isSome_place?_own tables field]
    rfl
  | joined field a =>
    obtain ⟨j, u, pair, table, -, rfl⟩ := Site.exists_pair tables located
    rw [h.isSome_place?_joined tables pair a.display]
    simp [Site.IsThere, table]

end Ranges

theorem Store.exists_joinTables {s : Store} {joins : List Join}
    (h : ∀ j ∈ joins, ∃ u, s.table? j.table = some u) : ∃ pairs, s.JoinTables joins pairs := by
  induction joins with
  | nil => exact ⟨[], rfl, fun p hp => absurd hp List.not_mem_nil⟩
  | cons j joins ih =>
    obtain ⟨⟨u, found⟩, others⟩ := List.forall_mem_cons.1 h
    obtain ⟨pairs, names, tables⟩ := ih others
    exact ⟨(j, u) :: pairs, by rw [List.map_cons, names], List.forall_mem_cons.2 ⟨found, tables⟩⟩

theorem Site.forall_columns_iff {joins : List Join} {columns : List Column} {sites : List Site}
    (h : columns.map some = sites.map (Site.column? joins)) {good : Column → Prop}
    {good' : Site → Prop}
    (same : ∀ (site : Site) (column : Column), site.column? joins = some column →
      (good column ↔ good' site)) :
    (∀ column ∈ columns, good column) ↔ ∀ site ∈ sites, good' site := by
  constructor
  · intro good site hs
    have member : site.column? joins ∈ columns.map some := h ▸ List.mem_map_of_mem hs
    obtain ⟨column, hc, located⟩ := List.mem_map.1 member
    exact (same site column located.symm).1 (good column hc)
  · intro good column hc
    have member : some column ∈ sites.map (Site.column? joins) := h ▸ List.mem_map_of_mem hc
    obtain ⟨site, hs, located⟩ := List.mem_map.1 member
    exact (same site column located).2 (good site hs)

namespace Plan.Writes
variable {p : Plan} {q : Query} {s : Store} {t : Table} {st : Statement}

theorem shapes_statement (h : p.Writes q) (fits : p.Fits) (hs : q.statement = .ok st) :
    st.table = q.table ∧ st.joins = q.joins ∧ p.Shapes q.joins st.clause ∧
      st.parameters = p.values.flatMap Value.items := by
  obtain ⟨⟨c, values⟩, hc, hs⟩ := bind_eq_ok.1 hs
  cases hs
  obtain ⟨d, hd⟩ := p.clause_of_spells fits h.spells 0
  have same : c = d ∧ values = p.values.flatMap Value.items := by
    rw [hc] at hd
    cases hd
    exact ⟨rfl, rfl⟩
  exact ⟨rfl, rfl, p.shapes_of_spells h.spells hc, same.2⟩

theorem canJoin_of_mem_tests (h : p.Writes q) {pairs : List (Join × Table)}
    (tables : s.JoinTables q.joins pairs)
    (words : ∀ j ∈ q.joins, ∀ word ∈ [j.table, j.key, j.source.qualifier, j.source.field],
      Statement.isReserved word = false)
    (columns : ∀ j ∈ q.joins, ∀ column ∈ [keyColumn j, j.source],
      (Scope.place? (⟨targetAlias, t, none⟩ :: joinedRanges pairs) column).isSome)
    {field : String} {a : Association} {op : Operator} {value : Value}
    (hl : Test.compare (.joined field a) op value ∈ p.tests) : CanJoin s t field a := by
  obtain ⟨x, column, name, -, located, -⟩ := p.spells_of_mem_tests h.spells hl
  obtain ⟨j, u, pair, table, serves, -⟩ := Site.exists_pair tables located
  obtain ⟨source, named, key⟩ := Builder.Join.serves_iff.1 serves
  have member : j ∈ q.joins := tables.1 ▸ List.mem_map_of_mem pair
  have names := words j member
  have there := columns j member
  simp only [List.forall_mem_cons, named, key, source] at names there
  refine ⟨?_, ?_, u, table, ?_⟩
  · simp only [List.forall_mem_cons]
    exact ⟨names.1, names.2.1, names.2.2.2.1, fun word hw => absurd hw List.not_mem_nil⟩
  · rw [← h.isSome_place?_own tables field]
    exact there.2.1
  · rw [← key, ← h.isSome_place?_joined (t := t) tables pair j.key]
    exact there.1

section CanJoin
variable (canJoin : ∀ leaf ∈ p.tests, ∀ field a op value,
  leaf = .compare (.joined field a) op value →
  CanJoin s t field a)
include canJoin

theorem canJoin_of_mem_joins (h : p.Writes q) {j : Join} (hj : j ∈ q.joins) :
    j.source = Builder.column j.source.field ∧ CanJoin s t j.source.field ⟨j.table, j.key, ""⟩ := by
  obtain ⟨field, a, op, value, hl, serves⟩ := h.joins j hj
  obtain ⟨source, table, key⟩ := Builder.Join.serves_iff.1 serves
  obtain ⟨words, there, keyed⟩ := canJoin _ hl field a op value rfl
  rw [source, table, key]
  exact ⟨rfl, words, there, keyed⟩

theorem exists_joinTables (h : p.Writes q) : ∃ pairs, s.JoinTables q.joins pairs := by
  refine Store.exists_joinTables fun j hj => ?_
  obtain ⟨-, -, -, u, table, -⟩ := h.canJoin_of_mem_joins canJoin hj
  exact ⟨u, table⟩

theorem joinWords (h : p.Writes q) {j : Join} (hj : j ∈ q.joins) :
    ∀ word ∈ [j.table, j.key, j.source.qualifier, j.source.field],
        Statement.isReserved word = false := by
  obtain ⟨source, words, -⟩ := h.canJoin_of_mem_joins canJoin hj
  have own : Statement.isReserved targetAlias = false := by decide
  rw [source]
  simp only [List.forall_mem_cons] at words ⊢
  exact ⟨words.1, words.2.1, own, words.2.2.1, fun word hw => absurd hw List.not_mem_nil⟩

theorem joinColumns (h : p.Writes q) {pairs : List (Join × Table)}
    (tables : s.JoinTables q.joins pairs)
    {j : Join} (hj : j ∈ q.joins) : ∀ column ∈ [keyColumn j, j.source],
      (Scope.place? (⟨targetAlias, t, none⟩ :: joinedRanges pairs) column).isSome := by
  obtain ⟨source, -, there, u, table, key⟩ := h.canJoin_of_mem_joins canJoin hj
  rw [← tables.1] at hj
  obtain ⟨⟨j, u'⟩, pair, rfl⟩ := List.mem_map.1 hj
  obtain rfl : u' = u := Option.some.inj ((tables.2 _ pair).symm.trans table)
  simp only [List.forall_mem_cons]
  refine ⟨?_, ?_, fun column hc => absurd hc List.not_mem_nil⟩
  · rw [keyColumn, h.isSome_place?_joined tables pair]
    exact key
  · rw [source, h.isSome_place?_own tables]
    exact there

end CanJoin

theorem badWord?_eq_none_iff (h : p.Writes q) (fits : p.Fits) (hs : q.statement = .ok st) :
    st.badWord? = none ↔ Statement.isReserved q.table = false ∧
      (∀ j ∈ q.joins, ∀ word ∈ [j.table, j.key, j.source.qualifier, j.source.field],
        Statement.isReserved word = false) ∧
      ∀ leaf ∈ p.tests, ∀ site ∈ leaf.sites, Statement.isReserved site.word = false := by
  obtain ⟨sameTable, sameJoins, shapes, -⟩ := h.shapes_statement fits hs
  have plain (site : Site) (column : Column) (located : site.column? q.joins = some column) :
      (Statement.isReserved column.qualifier = false ∧ Statement.isReserved column.field = false) ↔
        Statement.isReserved site.word = false := by
    obtain ⟨plain, field⟩ := h.isReserved_column located
    rw [plain, field]
    simp
  rw [Statement.badWord?_eq_none_iff, sameTable, sameJoins,
    Site.forall_columns_iff shapes.columns plain]
  simp only [List.forall_mem_flatMap]

theorem parameters_iff (h : p.Writes q) (fits : p.Fits) (hs : q.statement = .ok st) :
    (∀ v ∈ st.parameters, v.isList = false) ↔
      ∀ leaf ∈ p.tests, ∀ value ∈ leaf.value?, ∀ v ∈ value.items, v.isList = false := by
  obtain ⟨-, -, -, bound⟩ := h.shapes_statement fits hs
  rw [bound]
  constructor
  · intro singles leaf hl value hv v hi
    exact singles v (List.mem_flatMap.2 ⟨value, List.mem_filterMap.2 ⟨leaf, hl, hv⟩, hi⟩)
  · intro singles v hv
    obtain ⟨value, hvalue, hi⟩ := List.mem_flatMap.1 hv
    obtain ⟨leaf, hl, hvalue⟩ := List.mem_filterMap.1 hvalue
    exact singles leaf hl value hvalue v hi

theorem selectRows_iff (h : p.Writes q) (fits : p.Fits) (hs : q.statement = .ok st)
    (table : s.table? q.table = some t) :
    (∃ found, s.selectRows st = .ok found) ↔ Statement.isReserved q.table = false ∧ p.Runs s t := by
  obtain ⟨sameTable, sameJoins, shapes, -⟩ := h.shapes_statement fits hs
  have words := h.badWord?_eq_none_iff fits hs
  have values := h.parameters_iff fits hs
  have there {pairs : List (Join × Table)} (tables : s.JoinTables q.joins pairs) :=
    Site.forall_columns_iff shapes.looked fun site column => h.isSome_place?_iff (t := t) tables
  constructor
  · rintro ⟨found, run⟩
    obtain ⟨t', pairs, noBadWord, found', tables, columns, singles, -⟩ := selectRows_eq_ok.1 run
    rw [sameTable, table] at found'
    cases found'
    rw [sameJoins] at tables columns
    obtain ⟨tableWord, joinWords, siteWords⟩ := words.1 noBadWord
    obtain ⟨ownColumns, joinColumns⟩ := List.forall_mem_append.1 columns
    refine ⟨tableWord, fun leaf hl => ⟨siteWords leaf hl, ?_, values.1 singles leaf hl⟩,
      (there tables).1 ownColumns⟩
    rintro field a op value rfl
    exact h.canJoin_of_mem_tests tables joinWords (List.forall_mem_flatMap.1 joinColumns) hl
  · rintro ⟨tableWord, runs⟩
    have canJoin := fun leaf hl => (runs.tests leaf hl).joins
    obtain ⟨pairs, tables⟩ := h.exists_joinTables canJoin
    have noBadWord := words.2
      ⟨tableWord, fun j hj => h.joinWords canJoin hj, fun leaf hl => (runs.tests leaf hl).words⟩
    have singles := values.2 fun leaf hl => (runs.tests leaf hl).values
    refine ⟨_, selectRows_eq_ok.2 ⟨t, pairs, noBadWord, ?_, ?_, ?_, singles, rfl⟩⟩
    · rw [sameTable, table]
    · rw [sameJoins]
      exact tables
    · rw [sameJoins]
      refine List.forall_mem_append.2 ⟨(there tables).2 runs.looked, ?_⟩
      exact List.forall_mem_flatMap.2 fun j hj => h.joinColumns canJoin tables hj

end Plan.Writes
end Helpdesk
