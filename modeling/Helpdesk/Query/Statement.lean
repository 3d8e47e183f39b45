import Helpdesk.Fault
import Helpdesk.Query.Builder

/-! Statements: queries with their parameters by number. List parameters are expanded to one placeholder
an item, in the order in which the predicate mentions them; comparisons with an empty list are decided at
once. -/

namespace Helpdesk

inductive Clause
  | fixed (holds : Bool)
  | all (terms : List Clause)
  | any (terms : List Clause)
  | compare (column : Column) (op : Operator) (place : Nat)
  | among (column : Column) (op : Operator) (places : List Nat)
  | nullCheck (column : Column) (negated : Bool)
deriving Repr, Inhabited

namespace Clause

def ofTerms (empty : Clause) (connect : List Clause → Clause) : List Clause → Clause
  | [] => empty
  | [c] => c
  | cs => connect cs

def placeText (place : Nat) : String := "?" ++ String.ofList (Text.Decimal.ofNat place)

mutual
def toSql : Clause → String
  | .fixed holds => if holds then "1" else "0"
  | .all terms => "(" ++ Predicate.joinTexts " AND " (toSqls terms) ++ ")"
  | .any terms => "(" ++ Predicate.joinTexts " OR " (toSqls terms) ++ ")"
  | .compare column op place => column.toText ++ " " ++ op.sql ++ " " ++ placeText place
  | .among column op places =>
    column.toText ++ " " ++ op.sql ++ " (" ++ Predicate.joinTexts ", " (places.map placeText) ++ ")"
  | .nullCheck column negated => column.toText ++ Predicate.nullText negated

def toSqls : List Clause → List String
  | [] => []
  | c :: cs => toSql c :: toSqls cs
end

mutual
def columns : Clause → List Column
  | .fixed _ => []
  | .all terms => columnsOf terms
  | .any terms => columnsOf terms
  | .compare c _ _ => [c]
  | .among c _ _ => [c]
  | .nullCheck c _ => [c]

def columnsOf : List Clause → List Column
  | [] => []
  | c :: cs => columns c ++ columnsOf cs
end

end Clause

structure Statement where
  table : String
  joins : List Join
  clause : Clause
  parameters : List Value
deriving Repr

/-- The text of a statement; the rows come in the order of their row numbers. -/
def Statement.toSql (s : Statement) : String :=
  Query.sourceText s.table s.joins ++ " WHERE " ++ s.clause.toSql ++
    " ORDER BY " ++ targetAlias ++ ".rowid"

namespace Query

def placesAfter (bound count : Nat) : List Nat := (List.range count).map fun i => bound + i + 1

def leafClause (bound : Nat) (column : Column) (op : Operator) (name : String) (value : Value) :
    Outcome (Clause × List Value) :=
  match value with
  | .list items =>
    if op.takesList then
      if items.isEmpty then .ok (.fixed (op != .oneOf), [])
      else .ok (.among column op (placesAfter bound items.length), items)
    else .error (.misfit name op)
  | value =>
    if op.takesList then .error (.misfit name op)
    else .ok (.compare column op (bound + 1), [value])

mutual
/-- The clause of a predicate when `bound` values are bound before it, and the values that it binds. -/
def clause (q : Query) (bound : Nat) : Predicate → Outcome (Clause × List Value)
  | .all terms => do
    let (cs, vs) ← clauses q bound terms
    .ok (Clause.ofTerms (.fixed true) .all cs, vs)
  | .any terms => do
    let (cs, vs) ← clauses q bound terms
    .ok (Clause.ofTerms (.fixed false) .any cs, vs)
  | .nullCheck column negated => .ok (.nullCheck column negated, [])
  | .compare column op name =>
    match q.parameter? name with
    | none => .error (.unboundParameter name)
    | some value => leafClause bound column op name value

def clauses (q : Query) (bound : Nat) : List Predicate → Outcome (List Clause × List Value)
  | [] => .ok ([], [])
  | p :: ps => do
    let (c, vs) ← clause q bound p
    let (cs, ws) ← clauses q (bound + vs.length) ps
    .ok (c :: cs, vs ++ ws)
end

def statement (q : Query) : Outcome Statement := do
  let (c, values) ← q.clause 0 q.predicate
  .ok ⟨q.table, q.joins, c, values⟩

end Query
end Helpdesk
