import Helpdesk.Proofs.Store.Sound
import Helpdesk.Store.Select
import Mathlib.Data.List.Sort

/-! Sorted rows. Sorting loses no row and repeats none (`perm_sortBy`), and rows that stand in order stay as
they are (`sortBy_eq_self`). So a statement lists the rows of a table under increasing numbers, unless a
column hides these (`inOrder_eq_self`). -/

namespace Helpdesk.Store

namespace Row
variable {keys : List SortKey}

def MayPrecede (keys : List SortKey) (a b : Row) : Prop := compareBy keys a b ≠ .gt

instance : DecidableRel (MayPrecede keys) := fun _ _ => inferInstanceAs (Decidable (_ ≠ _))

theorem insertBy_eq (r : Row) (rows : List Row) :
    insertBy keys r rows = rows.orderedInsert (MayPrecede keys) r := by
  induction rows with
  | nil => rfl
  | cons o os ih =>
    rw [insertBy, ih]
    rfl

theorem sortBy_eq (rows : List Row) : sortBy keys rows = rows.insertionSort (MayPrecede keys) := by
  induction rows with
  | nil => rfl
  | cons r rows ih =>
    rw [List.insertionSort_cons, ← ih, ← insertBy_eq]
    rfl

theorem perm_sortBy (keys : List SortKey) (rows : List Row) : (sortBy keys rows).Perm rows :=
  sortBy_eq rows ▸ List.perm_insertionSort _ rows

theorem sortBy_eq_self {rows : List Row} (h : rows.Pairwise (MayPrecede keys)) :
    sortBy keys rows = rows :=
  (sortBy_eq rows).trans h.insertionSort_eq

theorem mayPrecede_of_not_lt {place : Schema.Place} {a b : Row} {i j : Int64}
    (first : a.get place = .int i) (second : b.get place = .int j) (h : ¬ j < i) :
    MayPrecede [⟨place, false⟩] a b := by
  intro after
  have order : ((a.get place).order (b.get place)).then .eq = .gt := after
  rw [first, second, Ordering.then_eq, Cell.order, compare_gt_iff_gt,
    ← Int64.lt_iff_toInt_lt] at order
  exact h order

theorem sortBy_map {α : Type} (row : α → Row) (l : List α) :
    sortBy keys (l.map row) =
      (l.insertionSort fun a b => MayPrecede keys (row a) (row b)).map row := by
  rw [sortBy_eq]
  exact (List.map_insertionSort _ _ row l fun _ _ _ _ => Iff.rfl).symm

end Row

section InOrder
variable {t : Table} {rows : List Row}

theorem perm_inOrder (t : Table) (rows : List Row) : (inOrder t rows).Perm rows :=
  Row.perm_sortBy _ rows

theorem mem_inOrder {row : Row} : row ∈ inOrder t rows ↔ row ∈ rows :=
  (perm_inOrder t rows).mem_iff

theorem inOrder_eq_self (place : t.schema.orderPlace = .rowid)
    (h : rows.Pairwise fun a b => ¬ b.rowid < a.rowid) : inOrder t rows = rows := by
  rw [inOrder, place]
  exact Row.sortBy_eq_self (h.imp (Row.mayPrecede_of_not_lt rfl rfl))

theorem Ordered.filter (h : Ordered rows) (kept : Row → Bool) : Ordered (rows.filter kept) :=
  List.Pairwise.filter kept h

theorem Ordered.inOrder_eq_self (h : Ordered rows) (place : t.schema.orderPlace = .rowid) :
    inOrder t rows = rows :=
  Store.inOrder_eq_self place (h.imp fun before after => lt_irrefl _ (lt_trans before after))

end InOrder
end Helpdesk.Store
