import Helpdesk.Document.Reader
import Helpdesk.Text.Decimal

/-! Users. An account is kept in one of two stores and has a number there; its identifier is the name of
the store, an underscore and the number, as in `oro_12`. -/

namespace Helpdesk

/-- Staff accounts are `oro`, customer accounts `diamante`. -/
inductive Account
  | oro
  | diamante
deriving Repr, DecidableEq, Inhabited

namespace Account

def name : Account → String
  | .oro => "oro"
  | .diamante => "diamante"

def ofName? (s : String) : Option Account :=
  [Account.oro, Account.diamante].find? fun a => a.name == s

theorem ofName?_name (a : Account) : ofName? a.name = some a := by
  cases a <;> decide

def read : Document.Reader Account := Document.Reader.named ofName?

def toDocument (a : Account) : Document := .text a.name

end Account

structure User where
  account : Account
  id : Int64
deriving Repr, DecidableEq, Inhabited

namespace User

def identifierChars (u : User) : List Char :=
  u.account.name.toList ++ '_' :: Text.Decimal.ofInt64 u.id

def identifier (u : User) : String := String.ofList u.identifierChars

/-- Reads an identifier. The name of the store ends at the first underscore, and the number behind it is
positive. -/
def ofIdentifier? (s : String) : Option User := do
  let cs := s.toList
  let account ← Account.ofName? (String.ofList (cs.takeWhile (· ≠ '_')))
  match cs.dropWhile (· ≠ '_') with
  | [] => none
  | _ :: digits =>
    let id ← Text.Decimal.int64? digits
    if 0 < id then some ⟨account, id⟩ else none

def isStaff (u : User) : Bool := u.account == .oro

def read : Document.Reader User := fun o room d => (Document.Reader.text o room d).bind ofIdentifier?

def toDocument (u : User) : Document := .text u.identifier

end User

structure UserDetails where
  user : User
  email : String
  fullName : String
deriving Repr, DecidableEq

namespace UserDetails
open Document.Reader

def read : Document.Reader UserDetails
  | o, room + 1, d => do
    match ← fields? ["user", "email", "full_name"] o d with
    | [user, email, fullName] =>
      some ⟨← user.required (User.read o room), ← email.required (text o room),
        ← fullName.required (text o room)⟩
    | _ => none
  | _, _, _ => none

def toDocument (u : UserDetails) : Document :=
  .table [("user", u.user.toDocument), ("email", .text u.email), ("full_name", .text u.fullName)]

end UserDetails
end Helpdesk
