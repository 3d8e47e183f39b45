import Helpdesk.Proofs.Outcome
import Helpdesk.Proofs.Store.Order
import Helpdesk.Proofs.Store.Rows
import Helpdesk.Proofs.Time.Text
import Helpdesk.Store.Desk

/-! Finding rows and reading their cells. A lookup whose columns are there finds the rows in which its
conditions hold (`fetch_of_lists`), by the texts and numbers in them (`equals_text`, `equals_int`). A
moment is read back from its cell just when its year has four digits (`momentOf_eq_ok`). -/

namespace Helpdesk.Store

theorem compareTexts_eq_iff {a b : String} : Cell.compareTexts a b = .eq ↔ a = b := by
  rw [Cell.compareTexts]
  split
  next less =>
    refine ⟨fun h => ?_, fun same => absurd (same ▸ less) (String.lt_irrefl b)⟩
    cases h
  next =>
    split
    next same => exact ⟨fun _ => same, fun _ => rfl⟩
    next different =>
      refine ⟨fun h => ?_, fun same => absurd same different⟩
      cases h

theorem compareTexts_beq_eq (a b : String) : (Cell.compareTexts a b == .eq) = decide (a = b) := by
  rw [Bool.eq_iff_iff, beq_iff_eq, decide_eq_true_iff, compareTexts_eq_iff]

theorem compareInts_beq_eq (i j : Int64) : (compare i.toInt j.toInt == .eq) = decide (i = j) := by
  rw [Bool.eq_iff_iff, beq_iff_eq, decide_eq_true_iff, compare_eq_iff_eq, Int64.toInt_inj]

theorem sameCell_text (a b : String) :
    Table.sameCell (textCell a) (textCell b) = decide (a = b) :=
  compareTexts_beq_eq a b

section Equals
variable {n : Nat} {c : ColumnDef} {r : Row}

theorem equals_text {a : String} (affinity : c.affinity = .text) (cell : r.cell n = .text a)
    (b : String) : Row.equals (.column n c) (textCell b) r = decide (a = b) := by
  have compared : Row.equals (.column n c) (textCell b) r =
      (some (Cell.compareTexts a b == .eq) == some true) := by
    rw [Row.equals, Row.get, cell, Schema.Place.affinity, affinity]
    rfl
  exact compared.trans (by rw [compareTexts_beq_eq]; simp)

theorem equals_int {i : Int64} (affinity : c.affinity = .integer) (cell : r.cell n = .int i)
    (j : Int64) : Row.equals (.column n c) (.int j) r = decide (i = j) := by
  have compared : Row.equals (.column n c) (.int j) r =
      (some (compare i.toInt j.toInt == .eq) == some true) := by
    rw [Row.equals, Row.get, cell, Schema.Place.affinity, affinity]
    rfl
  exact compared.trans (by rw [compareInts_beq_eq]; simp)

end Equals

theorem ok_bind {α β : Type} (a : α) (f : α → Result β) : (Except.ok a >>= f) = f a := rfl

section Fetch
variable {s : Store} {schema : Schema} {t : Table} {rows : List Row} {q : Lookup} {p : Prepared}

theorem Lookup.prepare_eq (h : t.schema = schema) (q : Lookup) :
    q.prepare t = q.prepare (.empty schema) := by
  subst h
  rfl

theorem fetch_of_lists (lists : s.Lists schema t rows) (table : q.table = schema.name)
    (prepared : q.prepare (.empty schema) = .ok p) : s.fetch q = .ok (p.run rows) := by
  rw [fetch, table, table_eq_ok.2 lists.table, ok_bind, q.prepare_eq lists.schema, prepared, ok_bind,
    lists.rows]

namespace Prepared

theorem run_map {α : Type} {row : α → Row} {l : List α} {found : α → Bool}
    (same : ∀ a ∈ l, p.admits (row a) = found a) :
    p.run (l.map row) =
      ((l.filter found).insertionSort fun a b => Row.MayPrecede p.keys (row a) (row b)).map
        fun a => p.select (row a) := by
  have kept : (l.filter fun a => p.admits (row a)) = l.filter found := List.filter_congr same
  rw [run, List.filter_map, Function.comp_def, kept, Row.sortBy_map, List.map_map]
  rfl

/-- Where what is found stands in order, it is listed as it stands. -/
theorem run_map_of_pairwise {α : Type} {row : α → Row} {l : List α} {found : α → Bool}
    (same : ∀ a ∈ l, p.admits (row a) = found a)
    (ordered : (l.filter found).Pairwise fun a b => Row.MayPrecede p.keys (row a) (row b)) :
    p.run (l.map row) = (l.filter found).map fun a => p.select (row a) := by
  rw [run_map same, ordered.insertionSort_eq]

end Prepared

theorem first_of_lists {α β : Type} {row : α → Row} {l : List α} {found : α → Bool}
    {read : Selected → Result β} (lists : s.Lists schema t (l.map row)) (table : q.table = schema.name)
    (prepared : q.prepare (.empty schema) = .ok p) (unsorted : p.keys = [])
    (same : ∀ a, p.admits (row a) = found a) :
    (s.fetch q >>= firstOf read) =
      match l.find? found with
      | none => .ok none
      | some a => (read (p.select (row a))).map some := by
  have ordered : (l.filter found).Pairwise fun a b => Row.MayPrecede p.keys (row a) (row b) := by
    rw [unsorted]
    exact List.pairwise_of_forall fun a b => nofun
  rw [fetch_of_lists lists table prepared, ok_bind,
    p.run_map_of_pairwise (fun a _ => same a) ordered, ← List.head?_filter]
  cases l.filter found <;> rfl

end Fetch

theorem textOrNullAt_eq_ok {r : Selected} {index : Nat} {column : String} {d : Option String}
    (h : r[index]? = some (column, .ofOption textCell d)) : textOrNullAt r index = .ok d := by
  simp only [textOrNullAt, textAt, cellAt, h]
  cases d <;> rfl

theorem intOrNullAt_eq_ok {r : Selected} {index : Nat} {column : String} {d : Option Int64}
    (h : r[index]? = some (column, .ofOption .int d)) : intOrNullAt r index = .ok d := by
  simp only [intOrNullAt, intAt, cellAt, h]
  cases d <;> rfl

theorem momentOf_eq_ok {a b : Time.Instant} {column : String} :
    momentOf a.toStored column = .ok b ↔ a.HasFourDigitYear ∧ a.wholeSeconds = b := by
  rw [momentOf, Time.Instant.ofText?_toStored]
  by_cases four : a.HasFourDigitYear
  · simp [four]
  · simp [four]

end Helpdesk.Store
