import Helpdesk.Document.Reader

/-! Comparison operators. Rules spell them in snake case; for the four with several words the camel case
spelling is understood too. -/

namespace Helpdesk

inductive Operator
  | eq
  | neq
  | gt
  | gte
  | lt
  | lte
  | oneOf
  | notOneOf
  | like
  | notLike
  | isNull
  | isNotNull
deriving Repr, DecidableEq, Inhabited

namespace Operator

def all : List Operator :=
  [.eq, .neq, .gt, .gte, .lt, .lte, .oneOf, .notOneOf, .like, .notLike, .isNull, .isNotNull]

theorem mem_all (op : Operator) : op ∈ all := by cases op <;> decide

def name : Operator → String
  | .eq => "eq"
  | .neq => "neq"
  | .gt => "gt"
  | .gte => "gte"
  | .lt => "lt"
  | .lte => "lte"
  | .oneOf => "in"
  | .notOneOf => "not_in"
  | .like => "like"
  | .notLike => "not_like"
  | .isNull => "is_null"
  | .isNotNull => "is_not_null"

def camelName? : Operator → Option String
  | .notOneOf => some "notIn"
  | .notLike => some "notLike"
  | .isNull => some "isNull"
  | .isNotNull => some "isNotNull"
  | _ => none

def ofName? (s : String) : Option Operator :=
  all.find? fun op => op.name == s || op.camelName? == some s

theorem ofName?_name (op : Operator) : ofName? op.name = some op := by
  cases op <;> decide

def names : String :=
  "eq, neq, gt, gte, lt, lte, in, not_in, like, not_like, is_null, is_not_null"

/-- Age and time run against each other: what is older than an age was made before a moment. -/
def timeMirror? : Operator → Option Operator
  | .gt => some .lt
  | .gte => some .lte
  | .lt => some .gt
  | .lte => some .gte
  | _ => none

def takesValue : Operator → Bool
  | .isNull => false
  | .isNotNull => false
  | _ => true

def takesList : Operator → Bool
  | .oneOf => true
  | .notOneOf => true
  | _ => false

def isOrdering (op : Operator) : Bool := op.timeMirror?.isSome

theorem takesValue_of_takesList {op : Operator} (h : op.takesList) : op.takesValue := by
  cases op <;> simp_all [takesList, takesValue]

def sql : Operator → String
  | .eq => "="
  | .neq => "<>"
  | .gt => ">"
  | .gte => ">="
  | .lt => "<"
  | .lte => "<="
  | .oneOf => "IN"
  | .notOneOf => "NOT IN"
  | .like => "LIKE"
  | .notLike => "NOT LIKE"
  | .isNull => "IS NULL"
  | .isNotNull => "IS NOT NULL"

def read : Document.Reader Operator := Document.Reader.named ofName?

def toDocument (op : Operator) : Document := .text op.name

end Operator
end Helpdesk
