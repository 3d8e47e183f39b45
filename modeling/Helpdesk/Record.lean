import Helpdesk.Value

/-! Records: the rows that a query finds, as values under the names of their columns. -/

namespace Helpdesk

abbrev Record := Dict Value

namespace Record

def read : Document.Reader Record := Document.Reader.dict Value.read

def toDocument (r : Record) : Document := .table (r.entries.map fun e => (e.1, e.2.toDocument))

def equal (a b : Record) : Bool :=
  a.size == b.size &&
    (a.entries.zip b.entries).all fun (x, y) => x.1 == y.1 && x.2.equal y.2

end Record
end Helpdesk
