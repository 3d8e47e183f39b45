import Helpdesk.Proofs.Store.Integrity

/-! Columns that operations name. A database is current when all of its tables are there with all of
their columns, whatever rows they have (`IsCurrent`); then each operation finds every column that it
names, and every query that can be asked of a new database can be asked of it (`IsCurrent.serves`). -/

namespace Helpdesk.Store

section Columns

def Schema.NamesApart (schema : Schema) : Prop :=
  schema.columns.Pairwise fun a b => sameName a.name b.name = false

def Table.Finds (t : Table) (name : String) : Prop :=
  ∃ i c, t.columnIndex? name = some i ∧ t.schema.place? name = some (.column i c) ∧ c.name = name

def FindsColumn (s : Store) (table column : String) : Prop :=
  ∃ t, s.table? table = some t ∧ t.Finds column

/-- A table under the name of a schema with all of its columns, in any order and with any others. -/
structure Table.Covers (t : Table) (schema : Schema) : Prop where
  name : sameName t.schema.name schema.name
  apart : t.schema.NamesApart
  columns : ∀ c ∈ schema.columns, c.name ∈ t.schema.columns.map ColumnDef.name

def Covers (s : Store) (schemas : List Schema) : Prop :=
  ∀ schema ∈ schemas, ∃ t, s.table? schema.name = some t ∧ t.Covers schema

theorem Table.covers_self {t : Table} (apart : t.schema.NamesApart) : t.Covers t.schema :=
  ⟨sameName_refl _, apart, fun _ => List.mem_map_of_mem⟩

theorem Table.columnIndex?_of_apart {t : Table} (apart : t.schema.NamesApart) {i : Nat}
    (hi : i < t.schema.columns.length) :
    t.columnIndex? t.schema.columns[i].name = some i ∧
      t.schema.place? t.schema.columns[i].name = some (.column i t.schema.columns[i]) := by
  -- What stands before a column has another name, even without regard to case.
  have before (j : Nat) (there : j < t.schema.columns.length) (hj : j < i) :
      sameName t.schema.columns[j].name t.schema.columns[i].name = false :=
    List.pairwise_iff_getElem.1 apart j i there hi hj
  have found : (t.schema.columns.findIdx? fun c =>
      sameName c.name t.schema.columns[i].name) = some i := by
    refine List.findIdx?_eq_some_iff_getElem.2 ⟨hi, sameName_refl _, fun j hj same => ?_⟩
    rw [before j (hj.trans hi) hj] at same
    cases same
  refine ⟨List.findIdx?_eq_some_iff_getElem.2 ⟨hi, beq_self_eq_true _, fun j hj same => ?_⟩, ?_⟩
  · have other := before j (hj.trans hi) hj
    rw [beq_iff_eq.1 same, sameName_refl] at other
    cases other
  · rw [Schema.place?, found]
    exact congrArg (Option.map (Schema.Place.column i)) (List.getElem?_eq_getElem hi)

theorem Table.Covers.finds {t : Table} {schema : Schema} (h : t.Covers schema) {name : String}
    (named : name ∈ schema.columns.map ColumnDef.name) : t.Finds name := by
  obtain ⟨c, hc, rfl⟩ := List.mem_map.1 named
  obtain ⟨d, hd, same⟩ := List.mem_map.1 (h.columns c hc)
  obtain ⟨i, hi, rfl⟩ := List.getElem_of_mem hd
  obtain ⟨index, place⟩ := t.columnIndex?_of_apart h.apart hi
  rw [same] at index place
  exact ⟨i, _, index, place, same⟩

theorem Covers.finds {s : Store} {schemas : List Schema} (h : s.Covers schemas) {schema : Schema}
    (hs : schema ∈ schemas) {name : String} (named : name ∈ schema.columns.map ColumnDef.name) :
    s.FindsColumn schema.name name := by
  obtain ⟨t, found, covers⟩ := h schema hs
  exact ⟨t, found, covers.finds named⟩

theorem Schema.isSome_place? (schema : Schema) (name : String) :
    (schema.place? name).isSome =
      ((schema.columns.any fun c => sameName c.name name) || rowidNames.any (sameName name)) := by
  have columns : (schema.columns.findIdx? fun c => sameName c.name name).isSome =
      schema.columns.any fun c => sameName c.name name := List.findIdx?_isSome
  rw [Schema.place?, ← columns]
  cases found : schema.columns.findIdx? fun c => sameName c.name name with
  | none =>
    dsimp only
    cases rowidNames.any (sameName name) <;> rfl
  | some i =>
    obtain ⟨hi, -⟩ := List.findIdx?_eq_some_iff_getElem.1 found
    dsimp only
    rw [List.getElem?_eq_getElem hi]
    rfl

theorem Table.Covers.isSome_place? {t : Table} {schema : Schema} (h : t.Covers schema) {name : String}
    (found : (schema.place? name).isSome) : (t.schema.place? name).isSome := by
  rw [Schema.isSome_place?, Bool.or_eq_true] at found ⊢
  refine found.imp_left fun column => ?_
  obtain ⟨c, hc, same⟩ := List.any_eq_true.1 column
  obtain ⟨d, hd, equal⟩ := List.mem_map.1 (h.columns c hc)
  exact List.any_eq_true.2 ⟨d, hd, equal ▸ same⟩

end Columns

def IsCurrent (s : Store) : Prop := s.Covers Schema.all

theorem namesApart_all : ∀ schema ∈ Schema.all, schema.NamesApart := by
  unfold Schema.NamesApart
  decide

theorem isCurrent_run (os : List Operation) : (run os).store.IsCurrent := by
  intro schema h
  obtain ⟨t, written⟩ := written_run os h
  have apart : t.schema.NamesApart := written.schema ▸ namesApart_all schema h
  exact ⟨t, written.table, written.schema ▸ t.covers_self apart⟩

section Queries
variable {s : Store}

theorem IsCurrent.table? (h : s.IsCurrent) {name : String} {t : Table}
    (found : fresh.table? name = some t) : ∃ u, s.table? name = some u ∧ u.Covers t.schema := by
  have members : ∀ t ∈ fresh.tables, t.schema ∈ Schema.all := by decide
  obtain ⟨u, there, covers⟩ := h t.schema (members t (List.mem_of_find?_eq_some found))
  exact ⟨u, (table?_congr s (sameName_of_table? found)) ▸ there, covers⟩

theorem IsCurrent.joinTables (h : s.IsCurrent) {joins : List Join} {pairs : List (Join × Table)}
    (tables : fresh.JoinTables joins pairs) : ∃ pairs', s.JoinTables joins pairs' ∧
      List.Forall₂ (fun p q => q.1 = p.1 ∧ q.2.Covers p.2.schema) pairs pairs' := by
  obtain ⟨rfl, tables⟩ := tables
  induction pairs with
  | nil => exact ⟨[], ⟨rfl, List.forall_mem_nil _⟩, .nil⟩
  | cons p pairs ih =>
    obtain ⟨found, tables⟩ := List.forall_mem_cons.1 tables
    obtain ⟨u, there, covers⟩ := h.table? found
    obtain ⟨rest, ⟨names, others⟩, alike⟩ := ih tables
    exact ⟨(p.1, u) :: rest, ⟨congrArg (p.1 :: ·) names, List.forall_mem_cons.2 ⟨there, others⟩⟩,
      .cons ⟨rfl, covers⟩ alike⟩

theorem Scope.isSome_place?_of_covers {scope wider : Scope}
    (h : List.Forall₂ (fun a b : Range => b.name = a.name ∧ b.table.Covers a.table.schema) scope wider)
    {column : Column} (found : (scope.place? column).isSome) : (wider.place? column).isSome := by
  obtain ⟨qualifier, field⟩ := column
  induction h with
  | nil => cases found
  | @cons a b scope wider first rest ih =>
    obtain ⟨same, covers⟩ := first
    by_cases own : sameName a.name qualifier
    · have left : Scope.range? (a :: scope) qualifier = some a := List.find?_cons_of_pos own
      have right : Scope.range? (b :: wider) qualifier = some b :=
        List.find?_cons_of_pos (by rw [same]; exact own)
      rw [isSome_place? left] at found
      rw [isSome_place? right]
      exact covers.isSome_place? found
    · have left : Scope.range? (a :: scope) qualifier = Scope.range? scope qualifier :=
        List.find?_cons_of_neg own
      have right : Scope.range? (b :: wider) qualifier = Scope.range? wider qualifier :=
        List.find?_cons_of_neg (by rw [same]; exact own)
      rw [place?, left] at found
      rw [place?, right]
      exact ih found

theorem IsCurrent.selectRows (h : s.IsCurrent) {st : Statement} {found : Table × List Row}
    (runs : fresh.selectRows st = .ok found) : ∃ found', s.selectRows st = .ok found' := by
  obtain ⟨t, pairs, words, table, joins, columns, singles, -⟩ := selectRows_eq_ok.1 runs
  obtain ⟨u, there, covers⟩ := h.table? table
  obtain ⟨pairs', joins', alike⟩ := h.joinTables joins
  have ranges : List.Forall₂ (fun a b : Range => b.name = a.name ∧ b.table.Covers a.table.schema)
      (⟨targetAlias, t, none⟩ :: joinedRanges pairs) (⟨targetAlias, u, none⟩ :: joinedRanges pairs') := by
    refine .cons ⟨rfl, covers⟩ (List.forall₂_map_left_iff.2 (List.forall₂_map_right_iff.2 ?_))
    exact alike.imp fun p q same => ⟨congrArg Join.name same.1, same.2⟩
  exact ⟨_, selectRows_eq_ok.2 ⟨u, pairs', words, there, joins',
    fun column hc => Scope.isSome_place?_of_covers ranges (columns column hc), singles, rfl⟩⟩

theorem IsCurrent.runText (h : s.IsCurrent) {text : String} {values : List Value}
    {found : Table × List Row} (runs : fresh.runText text values = .ok found) :
    ∃ found', s.runText text values = .ok found' := by
  cases read : Sql.Selection.ofText? text with
  | none =>
    rw [Store.runText, read] at runs
    cases runs
  | some q =>
    simp only [Store.runText, read] at runs ⊢
    exact h.selectRows runs

theorem IsCurrent.execute (h : s.IsCurrent) {q : Query} {records : List Record}
    (runs : fresh.execute q = .ok records) : ∃ records', s.execute q = .ok records' := by
  obtain ⟨found, rows, -⟩ := bind_eq_ok.1 runs
  obtain ⟨st, written, rows⟩ := bind_eq_ok.1 rows
  obtain ⟨found', rows'⟩ := h.runText (outcome_eq_ok.1 rows)
  exact ⟨_, bind_eq_ok.2 ⟨found', bind_eq_ok.2 ⟨st, written, outcome_eq_ok.2 rows'⟩, rfl⟩⟩

end Queries

section Names
variable {s : Store}

/-- What is read by statements of their own. -/
inductive Reading
  | ticket (key : String)
  | attachments (ticketId : Int64)
  | entries (objectClass : String) (objectId : Int64)
  | details (u : User)
  | byEmail (email : String)

namespace Reading

def schema : Reading → Schema
  | ticket _ => .tickets
  | attachments _ => .attachments
  | entries _ _ => .auditLog
  | details _ | byEmail _ => .users

def lookup : Reading → Lookup
  | ticket key => ticketLookup key
  | attachments ticketId => attachmentsLookup ticketId
  | entries objectClass objectId => entriesLookup objectClass objectId
  | details u => detailsLookup u
  | byEmail email => emailLookup email

theorem table_lookup (reading : Reading) : reading.lookup.table = reading.schema.name := by
  cases reading <;> rfl

theorem schema_mem_all (reading : Reading) : reading.schema ∈ Schema.all := by
  cases reading <;> simp [schema, Schema.all]

end Reading

def Lookup.names (q : Lookup) : List String :=
  q.columns ++ q.conditions.map Prod.fst ++ q.order.map Prod.fst

theorem placeOf_eq_ok {t : Table} {column : String} {p : Schema.Place} :
    placeOf t column = .ok p ↔ t.schema.place? column = some p := by
  rw [placeOf]
  cases t.schema.place? column <;> simp

theorem Lookup.exists_prepare {q : Lookup} {t : Table}
    (there : ∀ column ∈ q.names, (t.schema.place? column).isSome) : ∃ p, q.prepare t = .ok p := by
  have place (column : String) (hc : column ∈ q.names) : ∃ p, placeOf t column = .ok p := by
    obtain ⟨p, found⟩ := Option.isSome_iff_exists.1 (there column hc)
    exact ⟨p, placeOf_eq_ok.2 found⟩
  simp only [names, List.mem_append, List.mem_map] at place
  obtain ⟨columns, shown⟩ := exists_mapM_eq_ok_iff.2 fun column hc =>
    place column (.inl (.inl hc))
  obtain ⟨conditions, compared⟩ := exists_mapM_eq_ok_iff.2 fun (c : String × Cell) hc =>
    have ⟨p, found⟩ := place c.1 (.inl (.inr ⟨c, hc, rfl⟩))
    ⟨(p, c.2), map_eq_ok.2 ⟨p, found, rfl⟩⟩
  obtain ⟨keys, sorted⟩ := exists_mapM_eq_ok_iff.2 fun (c : String × Bool) hc =>
    have ⟨p, found⟩ := place c.1 (.inr ⟨c, hc, rfl⟩)
    ⟨SortKey.mk p c.2, map_eq_ok.2 ⟨p, found, rfl⟩⟩
  exact ⟨_, bind_eq_ok.2 ⟨columns, shown, bind_eq_ok.2 ⟨conditions, compared,
    bind_eq_ok.2 ⟨keys, sorted, rfl⟩⟩⟩⟩

/-- A database on which every operation finds the tables and the columns that it names. -/
structure Serves (s : Store) : Prop where
  stores : ∀ o : Operation, ∀ e ∈ o.cells, s.FindsColumn o.schema.name e.1
  reads : ∀ reading : Reading, (∃ found, s.fetch reading.lookup = .ok found) ∧
    ∀ column ∈ reading.lookup.names, s.FindsColumn reading.lookup.table column
  executes : ∀ q records, fresh.execute q = .ok records → ∃ records', s.execute q = .ok records'

theorem Operation.names_subset (o : Operation) :
    o.cells.map Prod.fst ⊆ o.schema.columns.map ColumnDef.name := by
  cases o with
  | user u => exact (by decide : ["kind", "id", "email", "full_name"] ⊆
      Schema.users.columns.map ColumnDef.name)
  | branch name => exact (by decide : ["name"] ⊆ Schema.branches.columns.map ColumnDef.name)
  | ticket t => exact (by decide : ticketColumns.tail ⊆ Schema.tickets.columns.map ColumnDef.name)
  | attachment _ _ _ => exact (by decide : ["ticket_id", "filename", "created_at"] ⊆
      Schema.attachments.columns.map ColumnDef.name)
  | change e =>
    exact (by decide : ["object_class", "object_id", "action", "version", "logged_at", "data"] ⊆
      Schema.auditLog.columns.map ColumnDef.name)

theorem Reading.names_subset (reading : Reading) :
    reading.lookup.names ⊆ reading.schema.columns.map ColumnDef.name := by
  cases reading with
  | ticket key => exact (by decide : ticketColumns ++ ["key"] ⊆
      Schema.tickets.columns.map ColumnDef.name)
  | attachments ticketId =>
    exact (by decide : ["id", "ticket_id", "filename", "created_at", "ticket_id", "id"] ⊆
      Schema.attachments.columns.map ColumnDef.name)
  | entries objectClass objectId =>
    exact (by decide : ["object_class", "object_id", "action", "version", "logged_at", "data",
      "object_class", "object_id", "version", "id"] ⊆ Schema.auditLog.columns.map ColumnDef.name)
  | details u => exact (by decide : ["email", "full_name", "kind", "id"] ⊆
      Schema.users.columns.map ColumnDef.name)
  | byEmail email => exact (by decide : ["kind", "id", "email"] ⊆
      Schema.users.columns.map ColumnDef.name)

theorem IsCurrent.finds (h : s.IsCurrent) (reading : Reading) :
    ∀ column ∈ reading.lookup.names, s.FindsColumn reading.lookup.table column := by
  rw [reading.table_lookup]
  exact fun column hc => Covers.finds h reading.schema_mem_all (reading.names_subset hc)

theorem IsCurrent.fetch (h : s.IsCurrent) (reading : Reading) :
    ∃ found, s.fetch reading.lookup = .ok found := by
  obtain ⟨t, table, covers⟩ := h reading.schema reading.schema_mem_all
  have there (column : String) (hc : column ∈ reading.lookup.names) :
      (t.schema.place? column).isSome := by
    obtain ⟨i, c, -, place, -⟩ := covers.finds (reading.names_subset hc)
    rw [place]
    rfl
  obtain ⟨p, prepared⟩ := Lookup.exists_prepare there
  refine ⟨_, bind_eq_ok.2 ⟨t, ?_, bind_eq_ok.2 ⟨p, prepared, rfl⟩⟩⟩
  rw [reading.table_lookup]
  exact table_eq_ok.2 table

theorem IsCurrent.serves (h : s.IsCurrent) : s.Serves where
  stores o _ he := Covers.finds h o.schema_mem_all (o.names_subset (List.mem_map_of_mem he))
  reads reading := ⟨h.fetch reading, h.finds reading⟩
  executes _ _ := h.execute

end Names

end Helpdesk.Store
