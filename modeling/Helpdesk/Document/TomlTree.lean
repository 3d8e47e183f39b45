import Helpdesk.Document

/-! The tables of a TOML text while it is read. A table stands in one of three ways: it was opened by a
header, it was only passed through by the header of a table inside it, or dotted keys made it. The three
differ in who may add to them. -/

namespace Helpdesk.Document

inductive Making
  /-- Opened by a header of its own. -/
  | header
  /-- Passed through by other headers only. -/
  | path
  | dotted
deriving Repr, DecidableEq

inductive Tree
  /-- A finished value; nothing can be added to it. -/
  | leaf (d : Document)
  | table (making : Making) (members : List (String × Tree))
  /-- The tables opened under one double header, the last one in front. -/
  | tables (elements : List (List (String × Tree)))
deriving Repr, Inhabited

namespace Tree

abbrev Members := List (String × Tree)

def put (key : String) (t : Tree) : Members → Members
  | [] => [(key, t)]
  | (k, u) :: ms => if k = key then (k, t) :: ms else (k, u) :: put key t ms

/-- Adds a value below `key`. Dotted keys enter tables that dotted keys or passing headers made, and the
last table of a double header; the table that receives the value has to be one of their own. -/
def addBelow (key : String) : List String → Document → Members → Option Members
  | [], _, _ => none
  | [last], d, ms =>
    match ms.lookup key with
    | none => some (put key (.table .dotted [(last, .leaf d)]) ms)
    | some (.table .dotted inner) =>
      match inner.lookup last with
      | some _ => none
      | none => some (put key (.table .dotted (put last (.leaf d) inner)) ms)
    | some _ => none
  | next :: rest, d, ms =>
    match ms.lookup key with
    | none => (addBelow next rest d []).map fun inner => put key (.table .dotted inner) ms
    | some (.table .header _) => none
    | some (.table making inner) =>
      (addBelow next rest d inner).map fun inner => put key (.table making inner) ms
    | some (.tables (inner :: others)) =>
      (addBelow next rest d inner).map fun inner => put key (.tables (inner :: others)) ms
    | some _ => none

def add (keys : List String) (d : Document) (ms : Members) : Option Members :=
  match keys with
  | [] => none
  | [key] =>
    match ms.lookup key with
    | some _ => none
    | none => some (put key (.leaf d) ms)
  | key :: keys => addBelow key keys d ms

/-- Changes the table that a path of headers leads to; tables on the way are made as they are needed. -/
def atPath (change : Members → Option Members) : List String → Members → Option Members
  | [], ms => change ms
  | key :: keys, ms =>
    match ms.lookup key with
    | none => (atPath change keys []).map fun inner => put key (.table .path inner) ms
    | some (.table making inner) =>
      (atPath change keys inner).map fun inner => put key (.table making inner) ms
    | some (.tables (inner :: others)) =>
      (atPath change keys inner).map fun inner => put key (.tables (inner :: others)) ms
    | some _ => none

/-- Opens the table of a header; only one that was passed through can be there already. -/
def openTable (key : String) (ms : Members) : Option Members :=
  match ms.lookup key with
  | none => some (put key (.table .header []) ms)
  | some (.table .path inner) => some (put key (.table .header inner) ms)
  | some _ => none

def openElement (key : String) (ms : Members) : Option Members :=
  match ms.lookup key with
  | none => some (put key (.tables [[]]) ms)
  | some (.tables elements) => some (put key (.tables ([] :: elements)) ms)
  | some _ => none

mutual
def toDocument : Tree → Document
  | .leaf d => d
  | .table _ members => .table (memberDocuments members)
  | .tables elements => .list (elementDocuments elements).reverse

def memberDocuments : List (String × Tree) → List (String × Document)
  | [] => []
  | (k, t) :: ms => (k, toDocument t) :: memberDocuments ms

def elementDocuments : List (List (String × Tree)) → List Document
  | [] => []
  | ms :: es => .table (memberDocuments ms) :: elementDocuments es
end

end Tree
end Helpdesk.Document
