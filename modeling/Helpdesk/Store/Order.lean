import Helpdesk.Store.Table

/-! Rows in the order that a statement asks for. Rows are sorted by the cells at some places, upwards or
downwards, and rows that are equal in all of them stay as they stood. -/

namespace Helpdesk.Store

structure SortKey where
  place : Schema.Place
  descending : Bool

def SortKey.compare (k : SortKey) (a b : Row) : Ordering :=
  let order := (a.get k.place).order (b.get k.place)
  if k.descending then order.swap else order

namespace Row

/-- The order of two rows by the first key in which they differ. -/
def compareBy : List SortKey → Row → Row → Ordering
  | [], _, _ => .eq
  | k :: keys, a, b => (k.compare a b).then (compareBy keys a b)

/-- Puts a row in front of the first one that it does not come after. -/
def insertBy (keys : List SortKey) (r : Row) : List Row → List Row
  | [] => [r]
  | o :: os => if compareBy keys r o ≠ .gt then r :: o :: os else o :: insertBy keys r os

def sortBy (keys : List SortKey) (rows : List Row) : List Row := rows.foldr (insertBy keys) []

end Row
end Helpdesk.Store
