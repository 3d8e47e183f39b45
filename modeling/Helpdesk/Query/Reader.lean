import Helpdesk.Query.Statement

/-! Statements from their text. The characters of names and the question mark of a placeholder cling
together to tokens, and so do comparison signs; every other character stands for itself, and blanks
separate. A condition is made of comparisons and checks, of the constants `1` and `0`, and of conditions in
parentheses; `AND` binds tighter than `OR`. The reader takes one token at a time. It holds one frame for
every open parenthesis, in which terms of the current conjunction wait for the next `OR` or the end, and the
conjunctions before it wait for the end. A text that goes beyond this part of the language counts as
refused. -/

namespace Helpdesk.Sql

/-- Letters, digits, underscores, and whatever is no character of ASCII. -/
def isNameChar (c : Char) : Bool := c.isAlphanum || c == '_' || 127 < c.toNat

def isName (token : String) : Bool :=
  match token.toList with
  | [] => false
  | c :: cs => !c.isDigit && (c :: cs).all isNameChar

def isWordChar (c : Char) : Bool := isNameChar c || c == '?'

def isSignChar (c : Char) : Bool := c == '<' || c == '>' || c == '='

def clings (a b : Char) : Bool := isWordChar a && isWordChar b || isSignChar a && isSignChar b

def isLoose (c : Char) : Bool := !isWordChar c && !isSignChar c

def tokens (text : String) : List String :=
  ((text.toList.splitBy clings).filter (· != [' '])).map String.ofList

/-- What was read last, and with that what may come next. -/
inductive Mode
  /-- A condition begins here. -/
  | operand
  | qualifier (name : String)
  | field (qualifier : String)
  | column (c : Column)
  | is (c : Column)
  | isNot (c : Column)
  | not (c : Column)
  /-- A placeholder has to follow. -/
  | comparand (c : Column) (op : Operator)
  /-- A list of placeholders has to follow. -/
  | list (c : Column) (op : Operator)
  | item (c : Column) (op : Operator) (places : List Nat)
  | listed (c : Column) (op : Operator) (places : List Nat)
  /-- A condition ends here. -/
  | done
  /-- Only these words may follow. -/
  | closing (words : List String)
deriving DecidableEq

structure Frame where
  alternatives : List Clause
  /-- The terms of the conjunction that is being read. -/
  factors : List Clause

namespace Frame

def empty : Frame := ⟨[], []⟩

def conjunction (f : Frame) : Clause := Clause.ofTerms (.fixed true) .all f.factors

def disjunction (f : Frame) : Clause :=
  Clause.ofTerms (.fixed false) .any (f.alternatives ++ [f.conjunction])

end Frame

structure State where
  mode : Mode
  frame : Frame
  outer : List Frame

namespace State

def start : State := ⟨.operand, .empty, []⟩

def complete (s : State) (c : Clause) : State :=
  ⟨.done, { s.frame with factors := s.frame.factors ++ [c] }, s.outer⟩

end State

def comparison? (token : String) : Option Operator :=
  [Operator.eq, .neq, .gt, .gte, .lt, .lte, .like].find? fun op => op.sql == token

/-- Placeholders are counted from one. -/
def place? (token : String) : Option Nat :=
  match token.toList with
  | '?' :: digits => (Text.Decimal.natural? digits).bind fun n => if n = 0 then none else some n
  | _ => none

def stepDone (s : State) (token : String) : Option State :=
  if token = "AND" then some { s with mode := .operand }
  else if token = "OR" then
    some ⟨.operand, ⟨s.frame.alternatives ++ [s.frame.conjunction], []⟩, s.outer⟩
  else match s.outer with
    | [] =>
      if token = "ORDER" then some { s with mode := .closing ["BY", targetAlias, ".", "rowid"] }
      else none
    | frame :: outer =>
      if token = ")" then some (State.complete ⟨.done, frame, outer⟩ s.frame.disjunction) else none

def step (s : State) (token : String) : Option State :=
  match s.mode with
  | .operand =>
    if token = "(" then some ⟨.operand, .empty, s.frame :: s.outer⟩
    else if token = "1" then some (s.complete (.fixed true))
    else if token = "0" then some (s.complete (.fixed false))
    else if isName token then some { s with mode := .qualifier token } else none
  | .qualifier name => if token = "." then some { s with mode := .field name } else none
  | .field qualifier =>
    if isName token then some { s with mode := .column ⟨qualifier, token⟩ } else none
  | .column c =>
    if token = "IS" then some { s with mode := .is c }
    else if token = "NOT" then some { s with mode := .not c }
    else if token = "IN" then some { s with mode := .list c .oneOf }
    else (comparison? token).map fun op => { s with mode := .comparand c op }
  | .is c =>
    if token = "NULL" then some (s.complete (.nullCheck c false))
    else if token = "NOT" then some { s with mode := .isNot c } else none
  | .isNot c => if token = "NULL" then some (s.complete (.nullCheck c true)) else none
  | .not c =>
    if token = "LIKE" then some { s with mode := .comparand c .notLike }
    else if token = "IN" then some { s with mode := .list c .notOneOf } else none
  | .comparand c op => (place? token).map fun place => s.complete (.compare c op place)
  | .list c op => if token = "(" then some { s with mode := .item c op [] } else none
  | .item c op places =>
    (place? token).map fun place => { s with mode := .listed c op (places ++ [place]) }
  | .listed c op places =>
    if token = "," then some { s with mode := .item c op places }
    else if token = ")" then some (s.complete (.among c op places)) else none
  | .done => stepDone s token
  | .closing words =>
    match words with
    | word :: words => if token = word then some { s with mode := .closing words } else none
    | [] => none

def run (s : State) (tokens : List String) : Option State := tokens.foldlM step s

@[simp] theorem run_nil (s : State) : run s [] = some s := rfl

@[simp] theorem run_cons (s : State) (token : String) (tokens : List String) :
    run s (token :: tokens) = (step s token).bind fun s => run s tokens := by
  rw [run, List.foldlM_cons]
  rfl

theorem run_append (s : State) (as bs : List String) :
    run s (as ++ bs) = (run s as).bind fun s => run s bs := by
  rw [run, List.foldlM_append]
  rfl

def unfit? (s : State) : List String → Option String
  | [] => none
  | token :: tokens =>
    match step s token with
    | some s => unfit? s tokens
    | none => some token

def condition? (tokens : List String) : Option Clause := do
  let s ← run .start tokens
  if s.mode = .closing [] then some s.frame.disjunction else none

def joins? : List String → Option (List Join × List String)
  | "LEFT" :: "JOIN" :: table :: "AS" :: name :: "ON" :: name' :: "." :: key :: "=" ::
      qualifier :: "." :: field :: rest => do
    if name = name' then
      let (joins, rest) ← joins? rest
      some (⟨table, name, key, ⟨qualifier, field⟩⟩ :: joins, rest)
    else none
  | "WHERE" :: rest => some ([], rest)
  | _ => none

structure Selection where
  table : String
  joins : List Join
  condition : Clause

def Selection.ofTokens? : List String → Option Selection
  | "SELECT" :: "t" :: "." :: "*" :: "FROM" :: table :: "AS" :: "t" :: rest => do
    let (joins, rest) ← joins? rest
    let condition ← condition? rest
    some ⟨table, joins, condition⟩
  | _ => none

def Selection.ofText? (text : String) : Option Selection := Selection.ofTokens? (tokens text)

/-- Where a text stops being a selection: at the first token that its condition does not go on with, or in
front of the condition. -/
def Selection.unfit (text : String) : String :=
  (unfit? .start (((tokens text).dropWhile (· != "WHERE")).drop 1)).getD "WHERE"

example : (Selection.ofText?
      "SELECT t.* FROM tickets AS t WHERE t.id = ?1 OR 1 AND 0 ORDER BY t.rowid").map
    Selection.condition =
      some (.any [.compare ⟨"t", "id"⟩ .eq 1, .all [.fixed true, .fixed false]]) := by
  rfl

end Helpdesk.Sql
