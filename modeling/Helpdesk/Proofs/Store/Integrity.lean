import Helpdesk.Proofs.Store.History
import Helpdesk.Proofs.Store.Lookup
import Mathlib.Data.List.Nodup

/-! The integrity of the database. However users, branches, tickets, attachments and changes are stored
one after another, the keys stay unique, every reference leads to a row and the numbers of rows go up as
they come; an operation that succeeds adds one row and leaves all others as they are, and one that is
refused leaves everything as it was (`integrity_run`). -/

namespace Helpdesk.Store

def Schema.cell (schema : Schema) (r : Row) (column : String) : Cell :=
  (Table.empty schema).cellOf r column

def rowsIn (s : Store) (schema : Schema) : List Row :=
  match s.table? schema.name with
  | some t => t.rows
  | none => []

def column (s : Store) (schema : Schema) (name : String) : List Cell :=
  (s.rowsIn schema).map fun r => schema.cell r name

theorem rowsIn_eq {s : Store} {schema : Schema} {t : Table} (h : s.table? schema.name = some t) :
    s.rowsIn schema = t.rows := by
  rw [rowsIn, h]

section References

def Anchored (s : Store) : Prop := ∀ t ∈ s.tables, ∀ r ∈ t.rows, s.isAnchored t r

theorem table?_congr (s : Store) {a b : String} (h : sameName a b) : s.table? a = s.table? b := by
  have same (t : Table) : sameName t.schema.name a = sameName t.schema.name b := by
    rw [sameName_comm _ a, sameName_comm _ b, sameName_congr h]
  simp only [table?, same]

theorem Table.admits_append {t : Table} {r : Row} {i : Int64} {x : Cell} (h : t.admits x) :
    Table.admits { t with rows := t.rows ++ [r], lastRowid := i } x := by
  cases x with
  | int k =>
    have there : (t.rows.any fun r => r.rowid == k) = true := h
    change ((t.rows ++ [r]).any fun r => r.rowid == k) = true
    rw [List.any_append, there, Bool.true_or]
  | _ => exact h

theorem Anchored.insert {s s' : Store} (h : s.Anchored) {name : String}
    {assigned : List (String × Cell)} {i : Int64}
    (hi : s.insert name assigned = .ok (i, s')) : s'.Anchored := by
  obtain ⟨t, found, -, -, -, -, -, anchored, rfl⟩ := insert_eq_ok.1 hi
  generalize (⟨i, t.newCells i assigned⟩ : Row) = row at anchored
  have stays (u : Table) (r : Row) (old : s.isAnchored u r) :
      (s.withTable { t with rows := t.rows ++ [row], lastRowid := i }).isAnchored u r := by
    rw [isAnchored, List.all_eq_true] at old ⊢
    intro ref href
    have before := old ref href
    rw [table?_withTable]
    by_cases same : sameName t.schema.name ref.parent
    · have parent : s.table? ref.parent = some t := by
        rw [← table?_congr s same, table?_congr s (sameName_of_table? found), found]
      rw [parent] at before
      rw [if_pos same, parent]
      exact Table.admits_append before
    · rw [if_neg same]
      exact before
  intro u hu r hr
  obtain ⟨v, hv, rfl⟩ := List.mem_map.1 hu
  split at hr
  next same =>
    rw [if_pos same]
    rcases List.mem_append.1 hr with old | new
    · exact stays t r (h t (List.mem_of_find?_eq_some found) r old)
    · rw [List.mem_singleton.1 new]
      exact stays t row anchored
  next other =>
    rw [if_neg other]
    exact stays v r (h v hv r hr)

theorem anchored_fresh : fresh.Anchored := by
  have empty : ∀ t ∈ fresh.tables, t.rows = [] := by decide
  intro t ht r hr
  rw [empty t ht] at hr
  exact absurd hr List.not_mem_nil

theorem anchored_run (os : List Operation) : (run os).store.Anchored :=
  run_induction (P := fun d => d.store.Anchored) anchored_fresh
    (fun _ _ _ _ h inserted => h.insert inserted) os

end References

/-- A table whose rows were all written by operations on it. -/
structure Written (s : Store) (schema : Schema) (t : Table) : Prop where
  table : s.table? schema.name = some t
  rows : ∀ r ∈ t.rows, ∃ o : Operation, o.schema = schema ∧ schema.row r.rowid o.cells = r
  schema : t.schema = schema

theorem written_run (os : List Operation) {schema : Schema} (h : schema ∈ Schema.all) :
    ∃ t, (run os).store.Written schema t := by
  refine run_induction (P := fun d => ∃ t, d.store.Written schema t) ?_ ?_ os
  · have tables : ∀ schema ∈ Schema.all, fresh.table? schema.name = some (.empty schema) := by decide
    exact ⟨_, tables schema h, fun r hr => absurd hr List.not_mem_nil, rfl⟩
  · intro d o i s ⟨t, table, rows, same⟩ inserted
    have lists : d.store.Lists schema t t.rows := ⟨table, same, rfl⟩
    by_cases own : o.schema = schema
    · rw [own] at inserted
      have added := lists.insert inserted
      refine ⟨_, added.table, fun r hr => ?_, added.schema⟩
      rcases List.mem_append.1 hr with old | new
      · exact rows r old
      · exact ⟨o, own, by rw [List.mem_singleton.1 new]; rfl⟩
    · have kept := lists.insert_other (sameName_schemas _ o.schema_mem_all _ h own) inserted
      exact ⟨t, kept.table, rows, kept.schema⟩

section Keys

/-- A text or a whole number: a cell that is the same as itself where cells have to differ. -/
def Cell.IsKey : Cell → Prop
  | .text _ => True
  | .int _ => True
  | _ => False

theorem sameCell_self {x : Cell} (h : x.IsKey) : Table.sameCell x x := by
  cases x with
  | text s => exact (sameCell_text s s).trans (decide_eq_true rfl)
  | int i => exact (compareInts_beq_eq i i).trans (decide_eq_true rfl)
  | _ => exact h.elim

theorem isKey_cell (o : Operation) (i : Int64) : ∀ columns ∈ o.schema.uniques, ∀ c ∈ columns,
    (o.schema.cell (o.schema.row i o.cells) c).IsKey := by
  cases o with
  | user u =>
    simp only [Operation.schema, Schema.users, List.forall_mem_cons]
    exact ⟨⟨trivial, trivial, List.forall_mem_nil _⟩,
      ⟨trivial, List.forall_mem_nil _⟩, List.forall_mem_nil _⟩
  | branch name | ticket t =>
    simp only [Operation.schema, Schema.branches, Schema.tickets, List.forall_mem_cons]
    exact ⟨⟨trivial, List.forall_mem_nil _⟩, List.forall_mem_nil _⟩
  | attachment _ _ _ | change _ => exact List.forall_mem_nil _

theorem Written.nodup {s : Store} {schema : Schema} {t : Table} (written : s.Written schema t)
    (distinct : s.Distinct) {columns : List String} (unique : columns ∈ schema.uniques) :
    ((s.rowsIn schema).map fun r => columns.map (schema.cell r)).Nodup := by
  rw [rowsIn_eq written.table, List.Nodup, List.pairwise_map]
  have apart := distinct t (List.mem_of_find?_eq_some written.table)
  refine List.Pairwise.imp_of_mem (fun {a b} _ hb differ same => ?_) apart
  obtain ⟨o, rfl, row⟩ := written.rows b hb
  have shared : t.sameKey columns b a := by
    refine List.all_eq_true.2 fun c hc => ?_
    have cells : o.schema.cell a c = o.schema.cell b c := List.map_inj_left.1 same c hc
    have key := isKey_cell o b.rowid columns unique c hc
    rw [row] at key
    rw [Table.cellOf_eq written.schema, Table.cellOf_eq written.schema]
    change Table.sameCell (o.schema.cell b c) (o.schema.cell a c)
    rw [cells]
    exact sameCell_self key
  rw [differ columns (written.schema ▸ unique)] at shared
  cases shared

end Keys

section Numbers

def Schema.numbered : List Schema := [branches, tickets, attachments, auditLog]

def numbersOf (schema : Schema) (h : History) : List Int64 :=
  h.filterMap fun (o, n) => if o.schema = schema then n else none

theorem rowid_recordedRows (schema : Schema) (h : History) :
    (recordedRows schema h).map Row.rowid = numbersOf schema h := by
  rw [recordedRows, numbersOf, List.map_filterMap]
  refine List.filterMap_congr fun e _ => ?_
  obtain ⟨o, n⟩ := e
  by_cases own : o.schema = schema
  · cases n <;> simp [own, Schema.row]
  · simp [own]

theorem cell_id {schema : Schema} (h : schema ∈ Schema.numbered) (i : Int64)
    (assigned : List (String × Cell)) : schema.cell (schema.row i assigned) "id" = .int i := by
  revert schema
  simp only [Schema.numbered, List.forall_mem_cons]
  exact ⟨rfl, rfl, rfl, rfl, List.forall_mem_nil _⟩

end Numbers

section Whole
variable {s : Store}

theorem Written.id {schema : Schema} {t : Table} (written : s.Written schema t)
    (numbered : schema ∈ Schema.numbered) :
    s.column schema "id" = (t.rows.map Row.rowid).map .int := by
  rw [column, rowsIn_eq written.table, List.map_map]
  refine List.map_congr_left fun r hr => ?_
  obtain ⟨o, rfl, row⟩ := written.rows r hr
  have id := cell_id numbered r.rowid o.cells
  rwa [row] at id

theorem null_or_mem_of_anchored (anchored : s.Anchored) {child parent : Schema} {t u : Table}
    (children : s.Written child t) (parents : s.Written parent u)
    (numbered : parent ∈ Schema.numbered) {name : String}
    (refers : ⟨name, parent.name⟩ ∈ child.references) :
    ∀ x ∈ s.column child name, x = .null ∨ x ∈ s.column parent "id" := by
  intro x hx
  rw [column, rowsIn_eq children.table] at hx
  obtain ⟨r, hr, rfl⟩ := List.mem_map.1 hx
  have all := anchored t (List.mem_of_find?_eq_some children.table) r hr
  rw [isAnchored, children.schema, List.all_eq_true] at all
  have admitted := all _ refers
  dsimp only at admitted
  rw [parents.table, Table.cellOf_eq children.schema] at admitted
  change u.admits (child.cell r name) at admitted
  rw [parents.id numbered]
  cases cell : child.cell r name with
  | null => exact .inl rfl
  | int k =>
    rw [cell] at admitted
    obtain ⟨p, hp, same⟩ := List.any_eq_true.1 admitted
    exact .inr (List.mem_map_of_mem (List.mem_map.2 ⟨p, hp, beq_iff_eq.1 same⟩))
  | _ =>
    rw [cell] at admitted
    cases admitted

theorem ticketId_ne_null {t : Table} (written : s.Written .attachments t) :
    ∀ x ∈ s.column .attachments "ticket_id", x ≠ .null := by
  intro x hx
  rw [column, rowsIn_eq written.table] at hx
  obtain ⟨r, hr, rfl⟩ := List.mem_map.1 hx
  obtain ⟨o, own, row⟩ := written.rows r hr
  rw [← row]
  cases o with
  | attachment ticketId filename createdAt =>
    have number : Schema.attachments.cell (Schema.attachments.row r.rowid
        (Operation.attachment ticketId filename createdAt).cells) "ticket_id" = .int ticketId := rfl
    rw [number]
    exact Cell.noConfusion
  | _ =>
    simp [Operation.schema, Schema.users, Schema.branches, Schema.tickets, Schema.auditLog,
      Schema.attachments] at own

end Whole

/-- A database that is whole, together with what made it. -/
structure Desk.Integrity (d : Desk) : Prop where
  tables : ∀ schema ∈ Schema.all, ∃ t, d.store.table? schema.name = some t ∧ t.schema = schema
  keys : (d.store.column .tickets "key").Nodup
  names : (d.store.column .branches "name").Nodup
  emails : (d.store.column .users "email").Nodup
  accounts : ((d.store.rowsIn .users).map fun r =>
    (Schema.users.cell r "kind", Schema.users.cell r "id")).Nodup
  branches : ∀ x ∈ d.store.column .tickets "branch", x = .null ∨ x ∈ d.store.column .branches "id"
  attached : ∀ x ∈ d.store.column .attachments "ticket_id", x ∈ d.store.column .tickets "id"
  numbers : ∀ schema ∈ Schema.numbered,
    d.store.column schema "id" = (numbersOf schema d.history).map .int ∧
      (numbersOf schema d.history).Pairwise (· < ·)

section Runs
variable (os : List Operation)

theorem nodup_column {schema : Schema} (h : schema ∈ Schema.all) {name : String}
    (unique : [name] ∈ schema.uniques) : ((run os).store.column schema name).Nodup := by
  obtain ⟨t, written⟩ := written_run os h
  refine List.Nodup.of_map (fun x => [x]) ?_
  rw [column, List.map_map]
  exact written.nodup (distinct_run os) unique

theorem mem_all_of_numbered : ∀ schema ∈ Schema.numbered, schema ∈ Schema.all ∧ schema ≠ .users := by
  decide

theorem null_or_mem_column {child parent : Schema} (h : child ∈ Schema.all)
    (numbered : parent ∈ Schema.numbered) {name : String}
    (refers : ⟨name, parent.name⟩ ∈ child.references) :
    ∀ x ∈ (run os).store.column child name, x = .null ∨ x ∈ (run os).store.column parent "id" := by
  obtain ⟨t, children⟩ := written_run os h
  obtain ⟨u, parents⟩ := written_run os (mem_all_of_numbered parent numbered).1
  exact null_or_mem_of_anchored (anchored_run os) children parents numbered refers

theorem numbers_column {schema : Schema} (numbered : schema ∈ Schema.numbered) :
    (run os).store.column schema "id" = (numbersOf schema (run os).history).map .int ∧
      (numbersOf schema (run os).history).Pairwise (· < ·) := by
  obtain ⟨member, others⟩ := mem_all_of_numbered schema numbered
  obtain ⟨t, written⟩ := written_run os member
  obtain ⟨u, lists⟩ := lists_run os schema member others
  obtain rfl : t = u := Option.some.inj (written.table.symm.trans lists.table)
  have numbers : t.rows.map Row.rowid = numbersOf schema (run os).history := by
    rw [lists.rows, rowid_recordedRows]
  rw [written.id numbered, numbers]
  refine ⟨rfl, ?_⟩
  rw [← numbers, List.pairwise_map]
  exact (sound_run os).ordered written.table

theorem integrity : (run os).Integrity where
  tables schema h := by
    obtain ⟨t, written⟩ := written_run os h
    exact ⟨t, written.table, written.schema⟩
  keys := nodup_column os (by decide) (by decide)
  names := nodup_column os (by decide) (by decide)
  emails := nodup_column os (by decide) (by decide)
  accounts := by
    obtain ⟨t, written⟩ := written_run os (by decide : Schema.users ∈ Schema.all)
    refine List.Nodup.of_map (fun x : Cell × Cell => [x.1, x.2]) ?_
    rw [List.map_map]
    exact written.nodup (distinct_run os) (by decide : ["kind", "id"] ∈ Schema.users.uniques)
  branches := null_or_mem_column os (by decide) (by decide) (by decide)
  attached x hx := by
    obtain ⟨t, written⟩ := written_run os (by decide : Schema.attachments ∈ Schema.all)
    have refers := null_or_mem_column os (by decide)
      (by decide : Schema.tickets ∈ Schema.numbered) (by decide) x hx
    exact refers.resolve_left (ticketId_ne_null written x hx)
  numbers schema numbered := numbers_column os numbered

end Runs

section Step

/-- What an operation that succeeded has done: there is one row more, with what it was given. -/
structure Adds (s s' : Store) (o : Operation) (n : Option Int64) (r : Row) : Prop where
  row : o.schema.row r.rowid o.cells = r
  own : s'.rowsIn o.schema = s.rowsIn o.schema ++ [r]
  others : ∀ name, sameName o.schema.name name = false → s'.table? name = s.table? name
  returned : o.returned r.rowid = n
  number : ∀ i, n = some i → o.schema.cell r "id" = .int i

theorem numbered_of_returned {o : Operation} {i k : Int64} (h : o.returned i = some k) :
    o.schema ∈ Schema.numbered ∧ i = k := by
  cases o with
  | user u => cases h
  | branch _ | ticket _ | attachment _ _ _ | change _ =>
    cases h
    exact ⟨by simp [Operation.schema, Schema.numbered], rfl⟩

theorem adds_of_perform (os : List Operation) {o : Operation} {n : Option Int64} {s : Store}
    (h : (run os).store.perform o = .ok (n, s)) : ∃ r, (run os).store.Adds s o n r := by
  obtain ⟨i, inserted, returned⟩ := perform_eq_ok.1 h
  obtain ⟨t, written⟩ := written_run os o.schema_mem_all
  have before : (run os).store.Lists o.schema t t.rows := ⟨written.table, written.schema, rfl⟩
  refine ⟨o.schema.row i o.cells, rfl, ?_, fun name other => ?_, returned, fun k given => ?_⟩
  · rw [rowsIn_eq (before.insert inserted).table, rowsIn_eq written.table]
  · obtain ⟨u, found, -, -, -, -, -, -, rfl⟩ := insert_eq_ok.1 inserted
    rw [table?_withTable, sameName_congr (sameName_of_table? found), other]
    rfl
  · obtain ⟨numbered, rfl⟩ := numbered_of_returned (returned.trans given)
    exact cell_id numbered i o.cells

end Step

/-- Whatever is stored, the database stays whole. An operation that succeeds adds its row and does
nothing else, and one that is refused does nothing. -/
theorem integrity_run (os : List Operation) : (run os).Integrity ∧
    (∀ o n s, (run os).store.perform o = .ok (n, s) →
      run (os ++ [o]) = ⟨s, (run os).history ++ [(o, n)]⟩ ∧ ∃ r, (run os).store.Adds s o n r) ∧
    ∀ o fault, (run os).store.perform o = .error fault → run (os ++ [o]) = run os := by
  have next (o : Operation) : run (os ++ [o]) = (run os).step o := run_append os [o]
  refine ⟨integrity os, fun o n s performed => ⟨?_, adds_of_perform os performed⟩,
    fun o fault refused => ?_⟩
  · rw [next, Desk.step, performed]
  · rw [next, Desk.step, refused]

/-- A second branch of one name and a file for a ticket that is not there use up no numbers. -/
example : (run [.branch "North", .branch "North", .attachment 1 "log.txt" .epoch,
    .branch "South"]).history.map Prod.snd = [some 1, some 2] := by decide

end Helpdesk.Store
