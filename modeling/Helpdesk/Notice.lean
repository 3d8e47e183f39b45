import Helpdesk.Audit
import Helpdesk.Fault

/-! Notifications about changes of tickets: what changed, who is told, and the options that the template
of the message is filled with. Users are looked up in a directory that the database provides. -/

namespace Helpdesk

structure Change where
  fieldName : String
  old : Value
  new : Value
deriving Repr

namespace Change

def ofDiff (d : FieldDiff) : Change := ⟨d.field, d.old, d.new⟩

def withNew (c : Change) (value : Value) : Change := { c with new := value }

def toDocument (c : Change) : Document :=
  .table [("field_name", .text c.fieldName), ("old_value", c.old.toDocument),
    ("new_value", c.new.toDocument)]

def listDocument (changes : List Change) : Document := .list (changes.map toDocument)

end Change

def AuditEntry.changes (e : AuditEntry) : List Change := e.diffs.map Change.ofDiff

structure EntityChanges where
  fields : List Change
  attachments : List Change
deriving Repr

namespace EntityChanges

def toDocument (c : EntityChanges) : Document :=
  .table [("fields", Change.listDocument c.fields),
    ("attachments", Change.listDocument c.attachments)]

/-- The changes of the newest entry of each attachment; the log lists the newest entry first. -/
def ofAttachments (log : String → Int64 → Outcome (List AuditEntry)) :
    List Attachment → Outcome (List Change)
  | [] => .ok []
  | a :: as => do
    let entries ← log attachmentObject a.id
    let rest ← ofAttachments log as
    match entries with
    | [] => .ok rest
    | newest :: _ => .ok (newest.changes ++ rest)

def ofTicket (log : String → Int64 → Outcome (List AuditEntry)) (ticket : Ticket)
    (entry : AuditEntry) : Outcome EntityChanges := do
  let attachments ← ofAttachments log ticket.attachments
  .ok ⟨entry.changes, attachments⟩

end EntityChanges

structure UserDirectory where
  details : User → Outcome UserDetails
  byEmail : String → Outcome (Option User)

inductive Recipient
  | account (user : User)
  /-- An address without an account. -/
  | address (email : String)
deriving Repr, DecidableEq

namespace Recipient

def resolve (users : UserDirectory) (email : String) : Outcome Recipient := do
  match ← users.byEmail email with
  | some user => .ok (.account user)
  | none => .ok (.address email)

def isStaff : Recipient → Bool
  | .account user => user.isStaff
  | .address _ => false

end Recipient

structure NoticeOptions where
  delimiter : String
  header : String
  user : String
  changes : List Change
  ticketKey : String
  toStaff : Bool
  attachments : Bool
deriving Repr

def NoticeOptions.toDocument (n : NoticeOptions) : Document :=
  .table [("delimiter", .text n.delimiter), ("header", .text n.header), ("user", .text n.user),
    ("changes", Change.listDocument n.changes), ("ticketKey", .text n.ticketKey),
    ("isOroUser", .bool n.toStaff), ("attachments", .bool n.attachments)]

namespace Notice

def delimiter : String := "<!-- Please reply above this line -->"

def htmlTemplate : String := "ticket/notification.html"

def textTemplate : String := "ticket/notification.txt"

def actionText : Action → String
  | .create => "Ticket was created"
  | .update => "Ticket was updated"
  | .remove => "Ticket was deleted"

def movedText : String := "Ticket was moved"

def subject (ticket : Ticket) : String := "[" ++ ticket.key ++ "] " ++ ticket.subject

/-- What the loop over the changes has so far: those that it went through, as they are shown, and whether
one of them was of the branch. -/
structure Shown where
  changes : List Change
  branchChanged : Bool
deriving Repr

namespace Shown

def start : Shown := ⟨[], false⟩

def add (fullName : String) (s : Shown) (change : Change) : Shown :=
  match change.fieldName with
  | "branch" => ⟨s.changes ++ [change], true⟩
  | "reporter" => { s with changes := s.changes ++ [change.withNew (.text fullName)] }
  | _ => { s with changes := s.changes ++ [change] }

end Shown

/-- The flag alone does not make a move: other changes may stand beside that of the branch. -/
def header (action : Action) (changes : List Change) (branchChanged : Bool := false) : String :=
  if branchChanged && changes.length == 1 then movedText else actionText action

def options (users : UserDirectory) (action : Action) (ticket : Ticket) (changes : List Change)
    (recipient : String) : Outcome NoticeOptions := do
  let reporter ← users.details ticket.reporter
  let recipient ← Recipient.resolve users recipient
  let shown := changes.foldl (Shown.add reporter.fullName) .start
  .ok {
    delimiter := delimiter
    header := header action shown.changes shown.branchChanged
    user := reporter.fullName
    changes := shown.changes
    ticketKey := ticket.key
    toStaff := recipient.isStaff
    attachments := false
  }

end Notice
end Helpdesk
