import Helpdesk.Operator

/-! Predicates on the rows of a table: conjunctions and disjunctions of comparisons with named parameters
and of checks for null. A conjunction of nothing always holds, a disjunction of nothing never. -/

namespace Helpdesk

structure Column where
  /-- The alias of the table that the column is in. -/
  qualifier : String
  field : String
deriving Repr, DecidableEq

def Column.toText (c : Column) : String := c.qualifier ++ "." ++ c.field

def targetAlias : String := "t"

inductive Predicate
  | all (terms : List Predicate)
  | any (terms : List Predicate)
  | compare (column : Column) (op : Operator) (parameter : String)
  | nullCheck (column : Column) (negated : Bool)
deriving Repr, Inhabited

namespace Predicate

def never : Predicate := .any []

mutual
def leafCount : Predicate → Nat
  | .all terms => leafCounts terms
  | .any terms => leafCounts terms
  | .compare _ _ _ => 1
  | .nullCheck _ _ => 1

def leafCounts : List Predicate → Nat
  | [] => 0
  | p :: ps => leafCount p + leafCounts ps
end

def nullText (negated : Bool) : String := if negated then " IS NOT NULL" else " IS NULL"

def joinTexts (separator : String) : List String → String
  | [] => ""
  | [s] => s
  | s :: ss => s ++ separator ++ joinTexts separator ss

/-- Terms under one connector: one term stands alone, several stand in parentheses. -/
def termsText (separator empty : String) : List String → String
  | [] => empty
  | [s] => s
  | ss => "(" ++ joinTexts separator ss ++ ")"

mutual
def toText : Predicate → String
  | .all terms => termsText " AND " "TRUE" (toTexts terms)
  | .any terms => termsText " OR " "FALSE" (toTexts terms)
  | .compare column op parameter =>
    if op.takesList then column.toText ++ " " ++ op.sql ++ " (:" ++ parameter ++ ")"
    else column.toText ++ " " ++ op.sql ++ " :" ++ parameter
  | .nullCheck column negated => column.toText ++ nullText negated

def toTexts : List Predicate → List String
  | [] => []
  | p :: ps => toText p :: toTexts ps
end

end Predicate
end Helpdesk
