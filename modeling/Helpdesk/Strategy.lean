import Helpdesk.Fault
import Helpdesk.Priority
import Helpdesk.Query.Builder

/-! Strategies: how conditions on some columns are compiled when a plain comparison is not what they
mean. A registry names the strategy of a column, either for all operators or for one of them. -/

namespace Helpdesk

inductive Strategy
  /-- Search the display column of an association. -/
  | associationContains (join : Association)
  /-- Turn user identifiers into their numbers; perhaps of one account store only. -/
  | identityLookup (account : Option Account)
  /-- Turn a threshold into the priorities past it. -/
  | weightedRange
deriving Repr, DecidableEq

namespace Strategy

def name : Strategy → String
  | .associationContains _ => "association_contains"
  | .identityLookup _ => "identity_lookup"
  | .weightedRange => "weighted_range"

def searchText (field : String) : Value → Outcome String
  | .text s => .ok s
  | .int i => .ok (String.ofList (Text.Decimal.ofInt64 i))
  | value => .error (.notSearchText field value)

def containing (term : String) : String := "%" ++ term ++ "%"

def searchValue (field : String) (op : Operator) (value : Value) : Outcome Value :=
  match op with
  | .like => (searchText field value).map fun s => .text (containing s)
  | .notLike => (searchText field value).map fun s => .text (containing s)
  | _ => .ok value

def userNumber (field : String) (account : Option Account) (value : Value) : Outcome Value :=
  match value.text? with
  | none => .error (.notUserText field value)
  | some identifier =>
    match User.ofIdentifier? identifier with
    | none => .error (.notUser field identifier)
    | some user =>
      match account with
      | some account =>
        if user.account = account then .ok (.int user.id)
        else .error (.wrongAccount field account identifier)
      | none => .ok (.int user.id)

def userNumbers (field : String) (account : Option Account) : Value → Outcome Value
  | .list items => (items.mapM (userNumber field account)).map .list
  | value => userNumber field account value

def keep? : Operator → Option (Int64 → Int64 → Bool)
  | .gt => some fun w limit => decide (limit < w)
  | .gte => some fun w limit => decide (limit ≤ w)
  | .lt => some fun w limit => decide (w < limit)
  | .lte => some fun w limit => decide (w ≤ limit)
  | _ => none

def pastThreshold (field : String) (priorities : PriorityTable) (keep : Int64 → Int64 → Bool)
    (value : Value) : Outcome (List String) :=
  match value.text? with
  | none => .error (.notThreshold field value)
  | some threshold =>
    match priorities.select? threshold keep with
    | none => .error (.unknownThreshold field threshold)
    | some matching => .ok matching

/-- The condition `field op value` on the table of the builder. The builder keeps a join also when the
value is refused. -/
def compile (s : Strategy) (b : Builder) (field : String) (op : Operator) (value : Value)
    (priorities : PriorityTable) : Outcome Predicate × Builder :=
  let plain := fun value => let (p, b) := b.compare field op value; (.ok p, b)
  if !op.takesValue then plain value
  else match s with
    | .associationContains join =>
      let (name, b) := b.leftJoin field join
      match searchValue field op value with
      | .error e => (.error e, b)
      | .ok value =>
        let (parameter, b) := b.bind field value
        (.ok (.compare ⟨name, join.display⟩ op parameter), b)
    | .identityLookup account =>
      match userNumbers field account value with
      | .error e => (.error e, b)
      | .ok value => plain value
    | .weightedRange =>
      match keep? op with
      | none => plain value
      | some keep =>
        match pastThreshold field priorities keep value with
        | .error e => (.error e, b)
        | .ok [] => (.ok .never, b)
        | .ok matching =>
          let (p, b) := b.compare field .oneOf (.ofTexts matching)
          (.ok p, b)

def kindNames : List String := ["association_contains", "identity_lookup", "weighted_range"]

def kind? (numbered : Bool) : Document → Option Nat
  | .text s => kindNames.findIdx? (· == s)
  | .int i => if numbered ∧ 0 ≤ i ∧ i < 3 then some i.toNat else none
  | _ => none

def ofKind? (room : Nat) (kind : Nat) (d : Document) : Option Strategy :=
  open Document.Reader in
  match kind with
  | 0 => do
    match ← fields? ["join"] .flattened d with
    | [join] => some (.associationContains (← join.required (Association.read .flattened room)))
    | _ => none
  | 1 => do
    match ← fields? ["account"] .flattened d with
    | [account] =>
      some (.identityLookup (← account.orElse none (option Account.read .flattened room)))
    | _ => none
  | _ =>
    match d with
    | .list (_ :: _) => none
    | _ => some .weightedRange

/-- Whether a part can be read before its type is known. -/
def canFlatten (room : Nat) (d : Document) : Bool := d.isReadable && d.depth ≤ room

def ofMembers? (numbered : Bool) (room : Nat) (members : List (String × Document)) :
    Option Strategy :=
  match members.partition fun m => m.1 == "kind" with
  | ([m], rest) => do
    let kind ← kind? numbered m.2
    if rest.all fun m => canFlatten room m.2 then ofKind? room kind (.table rest) else none
  | _ => none

/-- A strategy on its own is a table, or a list that begins with its kind. -/
def read : Document.Reader Strategy
  | _, room + 1, .table members => ofMembers? false room members
  | _, room + 1, .list (first :: rest) => do
    let kind ← kind? false first
    if rest.all (canFlatten room) then ofKind? room kind (.list rest) else none
  | _, _, _ => none

def toMembers : Strategy → List (String × Document)
  | .associationContains join =>
    [("kind", .text "association_contains"), ("join", join.toDocument)]
  | .identityLookup account =>
    ("kind", .text "identity_lookup") :: Document.optional "account" Account.toDocument account
  | .weightedRange => [("kind", .text "weighted_range")]

def toDocument (s : Strategy) : Document := .table s.toMembers

end Strategy

structure StrategyEntry where
  field : String
  operator : Option Operator
  strategy : Strategy
deriving Repr, DecidableEq

namespace StrategyEntry
open Document.Reader

def ownNames : List String := ["field", "operator"]

def isOwn (m : String × Document) : Bool := ownNames.contains m.1

def read : Document.Reader StrategyEntry
  | o, room + 1, .table members => do
    match ← fields? ownNames o (.table (members.filter isOwn)) with
    | [field, operator] =>
      some ⟨← field.required (text o room),
        ← operator.orElse none (option Operator.read o room),
        ← Strategy.ofMembers? (o == .json) room (members.filter fun m => !isOwn m)⟩
    | _ => none
  | _, _, _ => none

def toDocument (e : StrategyEntry) : Document :=
  .table (("field", .text e.field) :: Document.optional "operator" Operator.toDocument e.operator ++
    e.strategy.toMembers)

end StrategyEntry

structure StrategyRegistry where
  /-- Strategies for all operators on a column. -/
  byField : Dict Strategy
  /-- Strategies for one operator on a column. -/
  byOperator : Operator → Dict Strategy

namespace StrategyRegistry

def empty : StrategyRegistry := ⟨Dict.empty, fun _ => Dict.empty⟩

def withField (r : StrategyRegistry) (field : String) (s : Strategy) : StrategyRegistry :=
  { r with byField := r.byField.insert field s }

def withOperator (r : StrategyRegistry) (field : String) (op : Operator) (s : Strategy) :
    StrategyRegistry :=
  { r with byOperator := fun o => if o = op then (r.byOperator o).insert field s else r.byOperator o }

def withEntry (r : StrategyRegistry) (e : StrategyEntry) : StrategyRegistry :=
  match e.operator with
  | some op => r.withOperator e.field op e.strategy
  | none => r.withField e.field e.strategy

/-- Of entries for the same column and operator the last one counts. -/
def ofEntries (entries : List StrategyEntry) : StrategyRegistry := entries.foldl withEntry empty

def helpdesk : StrategyRegistry :=
  let branches := Strategy.associationContains ⟨"branches", "id", "name"⟩
  ofEntries [
    ⟨"assignee", none, .identityLookup (some .oro)⟩,
    ⟨"branch", some .like, branches⟩,
    ⟨"branch", some .notLike, branches⟩,
    ⟨"priority", some .gt, .weightedRange⟩,
    ⟨"priority", some .gte, .weightedRange⟩,
    ⟨"priority", some .lt, .weightedRange⟩,
    ⟨"priority", some .lte, .weightedRange⟩]

/-- A strategy for the whole column goes before one for the operator. -/
def resolve? (r : StrategyRegistry) (field : String) (op : Operator) : Option Strategy :=
  (r.byField.get? field).or ((r.byOperator op).get? field)

def size (r : StrategyRegistry) : Nat :=
  r.byField.size + (Operator.all.map fun op => (r.byOperator op).size).foldr (· + ·) 0

def isEmpty (r : StrategyRegistry) : Bool := r.size == 0

end StrategyRegistry
end Helpdesk
