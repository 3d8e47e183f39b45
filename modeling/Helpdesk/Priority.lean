import Helpdesk.Document.Reader

/-! Priorities. Each priority has a weight, so that a rule can ask for all priorities past a threshold.
The table is a map from priorities to weights; its entries are listed from the lowest weight to the
highest, and those of equal weight by name. -/

namespace Helpdesk

structure PriorityTable where
  weights : Dict Int64
deriving Repr, DecidableEq

namespace PriorityTable

/-- Of entries for the same priority the last one counts. -/
def ofEntries (entries : List (String × Int64)) : PriorityTable := ⟨Dict.ofList entries⟩

def standard : PriorityTable := ofEntries [("low", 10), ("medium", 20), ("high", 30)]

instance : Inhabited PriorityTable := ⟨standard⟩

def notAfter (a b : String × Int64) : Bool := a.2 < b.2 || a.2 == b.2 && a.1 ≤ b.1

def entries (t : PriorityTable) : List (String × Int64) := t.weights.entries.mergeSort notAfter

theorem mem_entries {t : PriorityTable} {e : String × Int64} :
    e ∈ t.entries ↔ e ∈ t.weights.entries := List.mem_mergeSort

def values (t : PriorityTable) : List String := t.entries.map (·.1)

def size (t : PriorityTable) : Nat := t.entries.length

def isEmpty (t : PriorityTable) : Bool := t.entries.isEmpty

def weight? (t : PriorityTable) (value : String) : Option Int64 := t.weights.get? value

def contains (t : PriorityTable) (value : String) : Bool := (t.weight? value).isSome

def select? (t : PriorityTable) (threshold : String) (keep : Int64 → Int64 → Bool) :
    Option (List String) :=
  (t.weight? threshold).map fun limit => (t.entries.filter fun e => keep e.2 limit).map (·.1)

def read : Document.Reader PriorityTable := fun o room d =>
  (Document.Reader.dict Document.Reader.int64 o room d).map .mk

def toDocument (t : PriorityTable) : Document :=
  .table (t.weights.entries.map fun e => (e.1, .ofInt64 e.2))

end PriorityTable
end Helpdesk
