import Helpdesk.Proofs.Store.Columns

/-! Bringing databases up to date. A database that holds nothing but tickets without a source, and one
that has all its tables already, are brought up to date with every row and every cell kept; old tickets
come from the web then, and nothing changes any more however often it is done again
(`upgraded_of_isOld_or_isCurrent`). Behind it every operation finds the columns that it names. -/

namespace Helpdesk.Store

def Schema.old : List Schema := [users, branches, oldTickets, attachments, auditLog]

structure Table.IsOld (t : Table) : Prop where
  covers : t.Covers Schema.oldTickets
  filled : ∀ r ∈ t.rows, r.cells.length = t.schema.columns.length
  sourceless : ∀ c ∈ t.schema.columns, sameName c.name Schema.sourceColumn.name = false

def IsOld (s : Store) : Prop := ∃ t, s.tables = [t] ∧ t.IsOld

section Making

theorem table?_cons (t : Table) (ts : List Table) (name : String) :
    (⟨t :: ts⟩ : Store).table? name =
      if sameName t.schema.name name then some t else (⟨ts⟩ : Store).table? name := by
  rw [table?, table?, List.find?_cons]
  cases sameName t.schema.name name <;> rfl

theorem ensure_eq_self {s : Store} {schema : Schema} {t : Table}
    (h : s.table? schema.name = some t) : s.ensure schema = s := by
  rw [ensure, h]

theorem ensure_cons (t : Table) (ts : List Table) (schema : Schema) :
    (⟨t :: ts⟩ : Store).ensure schema =
      if sameName t.schema.name schema.name then ⟨t :: ts⟩
      else ⟨t :: ((⟨ts⟩ : Store).ensure schema).tables⟩ := by
  rw [ensure, ensure, table?_cons]
  by_cases own : sameName t.schema.name schema.name
  · rw [if_pos own, if_pos own]
  · rw [if_neg own, if_neg own]
    cases (⟨ts⟩ : Store).table? schema.name <;> rfl

/-- A table that is there stands for the schemas of its name; the others are made behind it. -/
theorem foldl_ensure_cons (t : Table) (ts : List Table) (schemas : List Schema) :
    schemas.foldl ensure ⟨t :: ts⟩ =
      ⟨t :: ((schemas.filter fun schema => !sameName t.schema.name schema.name).foldl ensure
        ⟨ts⟩).tables⟩ := by
  -- The tables behind the first one grow with every schema that is not of its name.
  induction schemas generalizing ts with
  | nil => rfl
  | cons schema schemas ih =>
    rw [List.foldl_cons, ensure_cons, List.filter_cons]
    by_cases own : sameName t.schema.name schema.name
    · simp [own, ih]
    · simp [own, ih]

theorem placesOf_eq_ok {t : Table} {columns : List String} :
    (∃ places, columns.mapM (placeOf t) = .ok places) ↔
      ∀ column ∈ columns, (t.schema.place? column).isSome := by
  have one (column : String) :
      fault? (placeOf t column) = none ↔ (t.schema.place? column).isSome := by
    rw [placeOf]
    cases t.schema.place? column <;> simp
  rw [← fault?_eq_none_iff, fault?_mapM, List.findSome?_eq_none_iff]
  exact forall₂_congr fun column _ => one column

theorem checkIndexes_eq_ok {s : Store} {is : List Index} :
    s.checkIndexes is = .ok () ↔ ∀ i ∈ is, ∃ t, s.table? i.table = some t ∧
      ∀ column ∈ i.columns, (t.schema.place? column).isSome := by
  induction is with
  | nil => exact iff_of_true rfl (List.forall_mem_nil _)
  | cons i is ih =>
    rw [List.forall_mem_cons, ← ih]
    constructor
    · intro h
      obtain ⟨t, found, h⟩ := bind_eq_ok.1 h
      obtain ⟨places, columns, rest⟩ := bind_eq_ok.1 h
      exact ⟨⟨t, table_eq_ok.1 found, placesOf_eq_ok.1 ⟨places, columns⟩⟩, rest⟩
    · rintro ⟨⟨t, found, there⟩, rest⟩
      obtain ⟨places, columns⟩ := placesOf_eq_ok.2 there
      exact bind_eq_ok.2 ⟨t, table_eq_ok.2 found, bind_eq_ok.2 ⟨places, columns, rest⟩⟩

end Making

section Current
variable {s : Store}

theorem Covers.checkIndexes (h : s.Covers Schema.old) : s.checkIndexes Schema.indexes = .ok () := by
  have indexed : ∀ i ∈ Schema.indexes, ∃ schema ∈ Schema.old, schema.name = i.table ∧
      i.columns ⊆ schema.columns.map ColumnDef.name := by decide
  refine checkIndexes_eq_ok.2 fun i hi => ?_
  obtain ⟨schema, hs, name, columns⟩ := indexed i hi
  obtain ⟨t, found, covers⟩ := h schema hs
  refine ⟨t, name ▸ found, fun column hc => ?_⟩
  obtain ⟨_, _, -, place, -⟩ := covers.finds (columns hc)
  rw [place]
  rfl

theorem upgrade_eq (h : (Schema.all.foldl ensure s).Covers Schema.old) :
    s.upgrade = .ok s.migrate :=
  bind_eq_ok.2 ⟨(), h.checkIndexes, rfl⟩

theorem IsCurrent.foldl_ensure (h : s.IsCurrent) : Schema.all.foldl ensure s = s := by
  rw [IsCurrent] at h
  generalize Schema.all = schemas at h
  induction schemas with
  | nil => rfl
  | cons schema schemas ih =>
    obtain ⟨⟨t, found, -⟩, rest⟩ := List.forall_mem_cons.1 h
    rw [List.foldl_cons, ensure_eq_self found]
    exact ih rest

theorem IsCurrent.covers_old (h : s.IsCurrent) : s.Covers Schema.old := by
  have newer : ∀ schema ∈ Schema.old, ∃ now ∈ Schema.all, now.name = schema.name ∧
      schema.columns ⊆ now.columns := by decide
  intro schema hs
  obtain ⟨now, hn, name, columns⟩ := newer schema hs
  obtain ⟨t, found, covers⟩ := h now hn
  rw [name] at found
  exact ⟨t, found, sameName_of_table? found, covers.apart, fun c hc => covers.columns c (columns hc)⟩

theorem IsCurrent.addSource (h : s.IsCurrent) : s.addSource = s := by
  obtain ⟨t, found, covers⟩ := h Schema.tickets (by decide)
  obtain ⟨c, hc, same⟩ := List.mem_map.1 (covers.columns Schema.sourceColumn (by decide))
  have source : (t.schema.columns.any fun c => c.name == "source") = true :=
    List.any_eq_true.2 ⟨c, hc, beq_iff_eq.2 same⟩
  have tickets : s.table? "tickets" = some t := found
  rw [Store.addSource, tickets]
  exact if_pos source

theorem IsCurrent.upgrade (h : s.IsCurrent) : s.upgrade = .ok s := by
  have same : s.migrate = s := by
    rw [migrate, h.foldl_ensure, h.addSource]
  rw [upgrade_eq (h.foldl_ensure.symm ▸ h.covers_old), same]

def upgradeTimes (s : Store) : Nat → Result Store
  | 0 => .ok s
  | n + 1 => do
    let s ← s.upgrade
    s.upgradeTimes n

theorem IsCurrent.upgradeTimes (h : s.IsCurrent) (n : Nat) : s.upgradeTimes n = .ok s := by
  induction n with
  | zero => rfl
  | succ n ih => exact bind_eq_ok.2 ⟨s, h.upgrade, ih⟩

end Current

section Old

def otherTables : List Table := [Schema.users, .branches, .attachments, .auditLog].map .empty

theorem covers_otherTables {t : Table} {tickets : Schema} (h : t.Covers tickets)
    (name : tickets.name = "tickets") :
    (⟨t :: otherTables⟩ : Store).Covers [.users, .branches, tickets, .attachments, .auditLog] := by
  have apart : ∀ schema ∈ otherTables.map Table.schema, sameName "tickets" schema.name = false ∧
      (⟨otherTables⟩ : Store).table? schema.name = some (.empty schema) ∧ schema ∈ Schema.all := by
    decide
  have other (schema : Schema) (hs : schema ∈ otherTables.map Table.schema) :
      ∃ u, (⟨t :: otherTables⟩ : Store).table? schema.name = some u ∧ u.Covers schema := by
    obtain ⟨differs, found, member⟩ := apart schema hs
    refine ⟨.empty schema, ?_, Table.covers_self (namesApart_all schema member)⟩
    rw [table?_cons, sameName_congr h.name, name, differs]
    exact found
  have own : (⟨t :: otherTables⟩ : Store).table? tickets.name = some t := by
    rw [table?_cons, h.name]
    rfl
  simp only [Store.Covers, List.forall_mem_cons]
  exact ⟨other _ (by decide), other _ (by decide), ⟨t, own, h⟩, other _ (by decide),
    other _ (by decide), List.forall_mem_nil _⟩

theorem Table.Covers.foldl_ensure {t : Table} {tickets : Schema} (h : t.Covers tickets)
    (name : tickets.name = "tickets") :
    Schema.all.foldl ensure ⟨[t]⟩ = ⟨t :: otherTables⟩ := by
  have own (schema : Schema) : sameName t.schema.name schema.name =
      sameName "tickets" schema.name := by rw [sameName_congr h.name, name]
  have made : (((Schema.all.filter fun schema => !sameName "tickets" schema.name).foldl ensure
      ⟨[]⟩).tables) = otherTables := by decide
  simp only [foldl_ensure_cons, own, made]

theorem withTable_otherTables {t u : Table} (h : sameName t.schema.name "tickets")
    (same : u.schema.name = t.schema.name) :
    (⟨t :: otherTables⟩ : Store).withTable u = ⟨u :: otherTables⟩ := by
  have apart : ∀ o ∈ otherTables, sameName "tickets" o.schema.name = false := by decide
  rw [withTable, List.map_cons, same, if_pos (sameName_refl _)]
  have stay : (otherTables.map fun o => if sameName o.schema.name t.schema.name then u else o) =
      otherTables := by
    refine (List.map_congr_left fun o ho => ?_).trans (List.map_id otherTables)
    rw [sameName_comm, sameName_congr h, apart o ho]
    rfl
  rw [stay]

end Old

section Cells

/-- One table has come from another: every row is there under its number, with every cell in its column,
and the rules for rows are the same. -/
structure Table.Keeps (t t' : Table) : Prop where
  schema : t'.schema = { t.schema with columns := t'.schema.columns }
  columns : t.schema.columns <+: t'.schema.columns
  rows : List.Forall₂ (fun r r' => r'.rowid = r.rowid ∧
    ∀ c ∈ t.schema.columns, t'.cellOf r' c.name = t.cellOf r c.name) t.rows t'.rows

def Preserves (s s' : Store) : Prop :=
  ∃ kept made, s'.tables = kept ++ made ∧ List.Forall₂ Table.Keeps s.tables kept ∧
    ∀ t ∈ made, t.rows = []

theorem Table.keeps_refl (t : Table) : t.Keeps t where
  schema := rfl
  columns := List.prefix_refl _
  rows := List.forall₂_same.2 fun _ _ => ⟨rfl, fun _ _ => rfl⟩

variable {t : Table} {c : ColumnDef}

theorem columnIndex?_addColumn (name : String) :
    (addColumn t c).columnIndex? name = (t.columnIndex? name).or
      (if c.name == name then some t.schema.columns.length else none) := by
  rw [Table.columnIndex?, addColumn, List.findIdx?_append]
  refine congrArg (Option.or _) ?_
  rw [List.findIdx?_singleton]
  split <;> simp

theorem cellOf_addColumn {r : Row} (filled : r.cells.length = t.schema.columns.length) (x : Cell)
    {name : String} (h : name ∈ t.schema.columns.map ColumnDef.name) :
    (addColumn t c).cellOf { r with cells := r.cells ++ [x] } name = t.cellOf r name := by
  obtain ⟨d, hd, rfl⟩ := List.mem_map.1 h
  have there : (t.columnIndex? d.name).isSome :=
    List.findIdx?_isSome.trans (List.any_eq_true.2 ⟨d, hd, beq_self_eq_true _⟩)
  obtain ⟨i, found⟩ := Option.isSome_iff_exists.1 there
  obtain ⟨hi, -⟩ := List.findIdx?_eq_some_iff_getElem.1 found
  rw [Table.cellOf, Table.cellOf, columnIndex?_addColumn, found, Option.some_or]
  dsimp only
  rw [Row.cell, Row.cell, List.getElem?_append_left (filled ▸ hi)]

theorem cellOf_addColumn_self {r : Row} (filled : r.cells.length = t.schema.columns.length)
    (other : c.name ∉ t.schema.columns.map ColumnDef.name) (x : Cell) :
    (addColumn t c).cellOf { r with cells := r.cells ++ [x] } c.name = x := by
  have missing : t.columnIndex? c.name = none := by
    refine List.findIdx?_eq_none_iff.2 fun e he => ?_
    rw [beq_eq_false_iff_ne]
    exact fun same => other (List.mem_map.2 ⟨e, he, same⟩)
  rw [Table.cellOf, columnIndex?_addColumn, missing, Option.none_or, if_pos (beq_self_eq_true _),
    ← filled]
  dsimp only
  rw [Row.cell, List.getElem?_concat_length]
  rfl

theorem keeps_addColumn (filled : ∀ r ∈ t.rows, r.cells.length = t.schema.columns.length) :
    t.Keeps (addColumn t c) where
  schema := rfl
  columns := List.prefix_append _ _
  rows := by
    refine List.forall₂_map_right_iff.2 (List.forall₂_same.2 fun r hr => ⟨rfl, fun d hd => ?_⟩)
    exact cellOf_addColumn (filled r hr) _ (List.mem_map_of_mem hd)

end Cells

section Sources
variable {t : Table}

theorem Table.IsOld.name (h : t.IsOld) : sameName t.schema.name "tickets" := h.covers.name

theorem Table.IsOld.not_mem (h : t.IsOld) :
    Schema.sourceColumn.name ∉ t.schema.columns.map ColumnDef.name := by
  intro member
  obtain ⟨c, hc, same⟩ := List.mem_map.1 member
  have other := h.sourceless c hc
  rw [same, sameName_refl] at other
  cases other

theorem Table.IsOld.addColumn (h : t.IsOld) :
    (addColumn t Schema.sourceColumn).Covers Schema.tickets where
  name := h.name
  apart := by
    refine List.pairwise_append.2 ⟨h.covers.apart, List.pairwise_singleton _ _, fun c hc d hd => ?_⟩
    rw [List.mem_singleton.1 hd]
    exact h.sourceless c hc
  columns := by
    -- The new column is the only one that the old ones lack.
    have split : ∀ c ∈ Schema.tickets.columns,
        c ∈ Schema.oldTickets.columns ∨ c = Schema.sourceColumn := by decide
    intro c hc
    rw [Store.addColumn, List.map_append, List.mem_append]
    rcases split c hc with old | rfl
    · exact .inl (h.covers.columns c old)
    · exact .inr List.mem_cons_self

theorem Table.IsOld.migrate (h : t.IsOld) :
    (⟨[t]⟩ : Store).migrate = ⟨Store.addColumn t Schema.sourceColumn :: otherTables⟩ := by
  have missing : (t.schema.columns.any fun c => c.name == "source") = false := by
    refine List.any_eq_false.2 fun c hc same => h.not_mem ?_
    exact List.mem_map.2 ⟨c, hc, beq_iff_eq.1 same⟩
  have tickets : (⟨t :: otherTables⟩ : Store).table? "tickets" = some t := by
    rw [table?_cons, if_pos h.name]
  rw [Store.migrate, h.covers.foldl_ensure rfl, addSource, tickets]
  dsimp only
  rw [if_neg (by rw [missing]; exact Bool.false_ne_true)]
  exact withTable_otherTables h.name rfl

theorem Table.IsOld.upgrade (h : t.IsOld) :
    (⟨[t]⟩ : Store).upgrade = .ok ⟨Store.addColumn t Schema.sourceColumn :: otherTables⟩ := by
  have made : (Schema.all.foldl ensure ⟨[t]⟩).Covers Schema.old := by
    rw [h.covers.foldl_ensure rfl]
    exact covers_otherTables h.covers rfl
  rw [upgrade_eq made, h.migrate]

theorem Table.IsOld.isCurrent (h : t.IsOld) :
    IsCurrent ⟨Store.addColumn t Schema.sourceColumn :: otherTables⟩ :=
  covers_otherTables h.addColumn rfl

theorem Table.IsOld.source (h : t.IsOld) : ∀ r ∈ (Store.addColumn t Schema.sourceColumn).rows,
    (Store.addColumn t Schema.sourceColumn).cellOf r "source" = .text "web" := by
  intro r hr
  obtain ⟨o, ho, rfl⟩ := List.mem_map.1 hr
  exact cellOf_addColumn_self (h.filled o ho) h.not_mem _

end Sources

structure Upgraded (s s' : Store) : Prop where
  preserves : s.Preserves s'
  web : ∀ t, s.tables = [t] → t.IsOld → ∃ t', s'.table? "tickets" = some t' ∧ t.Keeps t' ∧
    ∀ r ∈ t'.rows, t'.cellOf r "source" = .text "web"
  untouched : s.IsCurrent → s' = s
  again : ∀ n, s'.upgradeTimes n = .ok s'
  serves : s'.Serves

theorem Table.IsOld.upgraded {t : Table} (h : t.IsOld) :
    Upgraded ⟨[t]⟩ ⟨Store.addColumn t Schema.sourceColumn :: otherTables⟩ where
  preserves := ⟨[_], otherTables, rfl, .cons (keeps_addColumn h.filled) .nil, by decide⟩
  web := by
    rintro t ⟨⟩ h
    exact ⟨_, (table?_cons _ _ _).trans (if_pos h.name), keeps_addColumn h.filled, h.source⟩
  untouched current := (Except.ok.inj (current.upgrade.symm.trans h.upgrade)).symm
  again := h.isCurrent.upgradeTimes
  serves := h.isCurrent.serves

theorem IsCurrent.upgraded {s : Store} (h : s.IsCurrent) : s.Upgraded s where
  preserves := ⟨s.tables, [], (List.append_nil _).symm, List.forall₂_same.2 fun t _ => t.keeps_refl,
    List.forall_mem_nil _⟩
  web t only old := by
    obtain ⟨tables⟩ := s
    obtain rfl : tables = [t] := only
    -- Old tickets stand alone, and what is current has five tables.
    have same := Except.ok.inj (h.upgrade.symm.trans old.upgrade)
    have count : 1 = 5 := congrArg (fun s : Store => s.tables.length) same
    cases count
  untouched _ := rfl
  again := h.upgradeTimes
  serves := h.serves

/-- A database of old tickets alone and a current one are brought up to date without loss: every row
and every cell stay, old tickets come from the web, a current database stays as it is, doing it again
changes nothing, and every operation finds its columns. -/
theorem upgraded_of_isOld_or_isCurrent {s : Store} (h : s.IsOld ∨ s.IsCurrent) :
    ∃ s', s.upgrade = .ok s' ∧ s.Upgraded s' := by
  rcases h with ⟨t, tables, old⟩ | current
  · obtain ⟨tables⟩ := s
    subst tables
    exact ⟨_, old.upgrade, old.upgraded⟩
  · exact ⟨s, current.upgrade, current.upgraded⟩

namespace Legacy

/-- Old tickets with their columns in another order and one column more; cells are of any types. -/
def tickets : Table where
  schema := { Schema.oldTickets with
    columns := Schema.textColumn "Room" :: Schema.oldTickets.columns.reverse }
  rows := [⟨3, [.text "2.17", .text "2025-01-01T00:00:00Z", .text "2025-01-01T00:00:00Z", .null,
      .text "oro_1", .null, .text "low", .text "open", .null, .text "Legacy", .text "OLD-1", .int 3]⟩,
    ⟨9, [.null, .int 4, .blob [0], .null, .null, .int 8, .null, .text "", .null, .null, .null, .int 9]⟩]
  lastRowid := 0

theorem isOld : tickets.IsOld where
  covers := ⟨by decide, by unfold Schema.NamesApart; decide, by decide⟩
  filled := by decide
  sourceless := by decide

/-- Such tickets are brought up to date, and so is a database in use. -/
theorem exists_upgraded : (∃ s', (⟨[tickets]⟩ : Store).upgrade = .ok s' ∧ Upgraded ⟨[tickets]⟩ s') ∧
    ∃ s', (run [.branch "North"]).store.upgrade = .ok s' ∧
      (run [.branch "North"]).store.Upgraded s' :=
  ⟨upgraded_of_isOld_or_isCurrent (.inl ⟨tickets, rfl, isOld⟩),
    upgraded_of_isOld_or_isCurrent (.inr (isCurrent_run _))⟩

end Legacy

end Helpdesk.Store
