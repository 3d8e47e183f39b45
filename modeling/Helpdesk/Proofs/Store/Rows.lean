import Helpdesk.Proofs.Store.Sound

/-! The rows of tables. An insertion adds one row to its own table and leaves the others as they are
(`Lists.insert`, `Lists.insert_other`). It is refused where the row shares what must be unique with a
row that is there (`Distinct.insert`), and rows whose numbers are never given again are numbered as they
come (`Numbered.insert`). -/

namespace Helpdesk.Store

theorem sameName_comm (a b : String) : sameName a b = sameName b a := Bool.beq_comm

theorem sameName_congr {a b : String} (h : sameName a b) (c : String) :
    sameName a c = sameName b c := by
  rw [sameName, beq_iff_eq] at h
  rw [sameName, sameName, h]

theorem table?_withTable (s : Store) (t : Table) (name : String) :
    (s.withTable t).table? name =
      if sameName t.schema.name name then (s.table? name).map fun _ => t else s.table? name := by
  obtain ⟨tables⟩ := s
  simp only [withTable, table?]
  induction tables with
  | nil => simp
  | cons u us ih =>
    rw [List.map_cons]
    by_cases replaced : sameName u.schema.name t.schema.name
    · by_cases asked : sameName t.schema.name name
      · have found : sameName u.schema.name name = true :=
          (sameName_congr replaced name).trans asked
        simp [replaced, asked, found]
      · rw [Bool.not_eq_true] at asked
        have other : sameName u.schema.name name = false :=
          (sameName_congr replaced name).trans asked
        simpa [replaced, asked, other] using ih
    · by_cases found : sameName u.schema.name name
      · have other : sameName t.schema.name name = false := by
          rw [← Bool.not_eq_true]
          intro asked
          exact replaced ((sameName_congr found _).trans ((sameName_comm _ _).trans asked))
        simp [replaced, found, other]
      · simpa [replaced, found] using ih

theorem sameName_of_table? {s : Store} {name : String} {t : Table} (h : s.table? name = some t) :
    sameName t.schema.name name :=
  List.find?_some (p := fun t : Table => sameName t.schema.name name) h

def Schema.row (schema : Schema) (i : Int64) (assigned : List (String × Cell)) : Row :=
  ⟨i, (Table.empty schema).newCells i assigned⟩

theorem Table.cellOf_eq {t : Table} {schema : Schema} (h : t.schema = schema) (r : Row)
    (column : String) : t.cellOf r column = (empty schema).cellOf r column := by
  rw [← h]
  rfl

structure Lists (s : Store) (schema : Schema) (t : Table) (rows : List Row) : Prop where
  table : s.table? schema.name = some t
  schema : t.schema = schema
  rows : t.rows = rows

section Lists
variable {s s' : Store} {schema : Schema} {t : Table} {rows : List Row}

theorem Lists.insert (h : s.Lists schema t rows) {assigned : List (String × Cell)} {i : Int64}
    (hi : s.insert schema.name assigned = .ok (i, s')) :
    s'.Lists schema { t with rows := rows ++ [schema.row i assigned], lastRowid := i }
      (rows ++ [schema.row i assigned]) := by
  obtain ⟨u, found, -, -, -, -, -, -, rfl⟩ := insert_eq_ok.1 hi
  obtain rfl : t = u := Option.some.inj (h.table.symm.trans found)
  have own : sameName t.schema.name schema.name = true := sameName_of_table? found
  have row : (⟨i, t.newCells i assigned⟩ : Row) = schema.row i assigned := by
    rw [← h.schema]
    rfl
  refine ⟨?_, h.schema, rfl⟩
  rw [table?_withTable, if_pos own, found, row, h.rows]
  rfl

theorem Lists.insert_other (h : s.Lists schema t rows) {name : String}
    {assigned : List (String × Cell)} {i : Int64} (other : sameName name schema.name = false)
    (hi : s.insert name assigned = .ok (i, s')) : s'.Lists schema t rows := by
  obtain ⟨u, found, -, -, -, -, -, -, rfl⟩ := insert_eq_ok.1 hi
  have apart : ¬ sameName u.schema.name schema.name = true := by
    rw [sameName_congr (sameName_of_table? found), other]
    exact Bool.false_ne_true
  refine ⟨?_, h.schema, h.rows⟩
  rw [table?_withTable, if_neg apart, h.table]

end Lists

theorem checkUnique_eq_ok {t : Table} {r : Row} {others : List Row} {u : Unit} :
    t.checkUnique r others = .ok u ↔ (∀ o ∈ others, o.rowid ≠ r.rowid) ∧
      ∀ columns ∈ t.schema.uniques, ∀ o ∈ others, t.sameKey columns r o = false := by
  have free : t.shared? r others = none ↔ (∀ o ∈ others, o.rowid ≠ r.rowid) ∧
      ∀ columns ∈ t.schema.uniques, ∀ o ∈ others, t.sameKey columns r o = false := by
    rw [Table.shared?]
    by_cases taken : (others.any fun o => o.rowid == r.rowid) = true
    · rw [if_pos taken]
      obtain ⟨o, ho, same⟩ := List.any_eq_true.1 taken
      refine ⟨fun h => ?_, fun h => absurd (beq_iff_eq.1 same) (h.1 o ho)⟩
      cases h
    · rw [if_neg taken, List.find?_eq_none]
      have numbers : ∀ o ∈ others, o.rowid ≠ r.rowid := fun o ho same =>
        taken (List.any_eq_true.2 ⟨o, ho, beq_iff_eq.2 same⟩)
      simp only [List.any_eq_true, not_exists, not_and, Bool.not_eq_true,
        and_iff_right numbers]
  rw [← free, Table.checkUnique]
  cases t.shared? r others <;> simp

def Table.Distinct (t : Table) : Prop :=
  t.rows.Pairwise fun a b => ∀ columns ∈ t.schema.uniques, t.sameKey columns b a = false

def Distinct (s : Store) : Prop := ∀ t ∈ s.tables, t.Distinct

theorem Distinct.insert {s s' : Store} (h : s.Distinct) {name : String}
    {assigned : List (String × Cell)} {i : Int64}
    (hi : s.insert name assigned = .ok (i, s')) : s'.Distinct := by
  obtain ⟨t, found, -, -, -, -, unique, -, rfl⟩ := insert_eq_ok.1 hi
  intro u hu
  obtain ⟨v, hv, rfl⟩ := List.mem_map.1 hu
  split
  · have old := h t (List.mem_of_find?_eq_some found)
    refine List.pairwise_append.2 ⟨old, List.pairwise_singleton _ _, fun o ho r hr => ?_⟩
    rw [List.mem_singleton.1 hr]
    exact fun columns hc => (checkUnique_eq_ok.1 unique).2 columns hc o ho
  · exact h v hv

theorem distinct_fresh : fresh.Distinct := by
  have empty : ∀ t ∈ fresh.tables, t.rows = [] := by decide
  intro t ht
  rw [Table.Distinct, empty t ht]
  exact List.Pairwise.nil

theorem topRowid?_le {t : Table} {bound : Int64} (h : ∀ r ∈ t.rows, ¬ bound < r.rowid) {i : Int64}
    (top : t.topRowid? = some i) : ¬ bound < i := by
  have fold (rows : List Row) (found : Option Int64) (rest : ∀ r ∈ rows, ¬ bound < r.rowid)
      (sofar : ∀ k, found = some k → ¬ bound < k) :
      ∀ k, rows.foldl Table.higher found = some k → ¬ bound < k := by
    induction rows generalizing found with
    | nil => exact sofar
    | cons r rows ih =>
      obtain ⟨here, behind⟩ := List.forall_mem_cons.1 rest
      refine ih (Table.higher found r) behind fun k higher => ?_
      cases higher
      cases found with
      | none => exact here
      | some j =>
        dsimp only
        split
        · exact here
        · exact sofar j rfl
  exact fold t.rows none h (fun k none => by cases none) i top

structure Table.Numbered (t : Table) : Prop where
  last : t.lastRowid.toInt = t.rows.length
  reached : ∀ r ∈ t.rows, ¬ t.lastRowid < r.rowid

theorem Table.Numbered.nextRowid? {t : Table} (h : t.Numbered) (never : t.schema.neverReused) :
    t.nextRowid? = if t.lastRowid = Int64.maxValue then none else some (t.lastRowid + 1) := by
  rw [Table.nextRowid?]
  cases top : t.topRowid? with
  | none => simp only [never, if_true]
  | some i =>
    have used : (if t.schema.neverReused = true ∧ i < t.lastRowid then t.lastRowid else i) =
        t.lastRowid := by
      split
      · rfl
      next notLess =>
        have notMore := topRowid?_le h.reached top
        by_contra different
        rcases lt_or_lt_of_ne different with less | more
        · exact notLess ⟨never, less⟩
        · exact notMore more
    simp only [used]

def Numbered (s : Store) : Prop := ∀ t ∈ s.tables, t.schema.neverReused → t.Numbered

theorem Numbered.insert {s s' : Store} (h : s.Numbered) {name : String}
    {assigned : List (String × Cell)} {i : Int64}
    (hi : s.insert name assigned = .ok (i, s')) : s'.Numbered := by
  obtain ⟨t, found, -, -, next, -, -, -, rfl⟩ := insert_eq_ok.1 hi
  intro u hu never
  obtain ⟨v, hv, rfl⟩ := List.mem_map.1 hu
  by_cases replaced : sameName v.schema.name t.schema.name
  · rw [if_pos replaced] at never ⊢
    have old := h t (List.mem_of_find?_eq_some found) never
    have behind := lt_of_nextRowid? next
    rw [old.nextRowid? never] at next
    split at next
    · cases next
    next notMax =>
      cases next
      refine ⟨?_, fun r hr => ?_⟩
      · simp [toInt_add_one notMax, old.last]
      · rcases List.mem_append.1 hr with earlier | new
        · exact fun beyond => lt_irrefl _ (lt_trans beyond (behind r earlier))
        · rw [List.mem_singleton.1 new]
          exact lt_irrefl _
  · rw [if_neg replaced] at never ⊢
    exact h v hv never

theorem numbered_fresh : fresh.Numbered := by
  have empty : ∀ t ∈ fresh.tables, t.lastRowid = 0 ∧ t.rows = [] := by decide
  intro t ht _
  obtain ⟨last, rows⟩ := empty t ht
  refine ⟨?_, ?_⟩
  · rw [last, rows]
    rfl
  · rw [rows]
    exact fun r hr => absurd hr List.not_mem_nil

end Helpdesk.Store
