import Helpdesk.Time.Rfc3339
import Helpdesk.User

/-! Tickets and the files attached to them. -/

namespace Helpdesk

inductive Status
  | new
  | open
  | pending
  | inProgress
  | closed
  | onHold
deriving Repr, DecidableEq, Inhabited

/-- A text in small letters; letters beyond ASCII stay as they are. -/
def smallLetters (s : String) : String := String.ofList (s.toList.map Char.toLower)

namespace Status

def all : List Status := [.new, .open, .pending, .inProgress, .closed, .onHold]

def name : Status → String
  | .new => "new"
  | .open => "open"
  | .pending => "pending"
  | .inProgress => "in_progress"
  | .closed => "closed"
  | .onHold => "on_hold"

def ofName? (s : String) : Option Status := all.find? fun x => x.name == s

theorem ofName?_name (x : Status) : ofName? x.name = some x := by
  cases x <;> decide

def ofText? (s : String) : Option Status := ofName? (smallLetters s)

def isClosed (x : Status) : Bool := x == .closed

def read : Document.Reader Status := Document.Reader.named ofName?

def toDocument (x : Status) : Document := .text x.name

end Status

inductive Source
  | phone
  | email
  | web
deriving Repr, DecidableEq, Inhabited

namespace Source

def all : List Source := [.phone, .email, .web]

def name : Source → String
  | .phone => "phone"
  | .email => "email"
  | .web => "web"

def ofName? (s : String) : Option Source := all.find? fun x => x.name == s

theorem ofName?_name (x : Source) : ofName? x.name = some x := by
  cases x <;> decide

def ofText? (s : String) : Option Source := ofName? (smallLetters s)

def read : Document.Reader Source := Document.Reader.named ofName?

def toDocument (x : Source) : Document := .text x.name

end Source

namespace Time.Instant

def read : Document.Reader Instant := fun o room d => (Document.Reader.text o room d).bind ofLooseText?

def toDocument (t : Instant) : Document := .text t.toFull

end Time.Instant

structure Attachment where
  id : Int64
  ticketId : Int64
  filename : String
  createdAt : Time.Instant
deriving Repr, DecidableEq

namespace Attachment
open Document.Reader

def read : Document.Reader Attachment
  | o, room + 1, d => do
    match ← fields? ["id", "ticket_id", "filename", "created_at"] o d with
    | [id, ticketId, filename, createdAt] =>
      some ⟨← id.required (int64 o room), ← ticketId.required (int64 o room),
        ← filename.required (text o room), ← createdAt.required (Time.Instant.read o room)⟩
    | _ => none
  | _, _, _ => none

def toDocument (a : Attachment) : Document :=
  .table [("id", .ofInt64 a.id), ("ticket_id", .ofInt64 a.ticketId), ("filename", .text a.filename),
    ("created_at", a.createdAt.toDocument)]

end Attachment

structure Ticket where
  /-- Zero as long as the ticket is not stored. -/
  id : Int64
  key : String
  subject : String
  description : Option String
  status : Status
  priority : String
  source : Source
  branch : Option Int64
  reporter : User
  assignee : Option Int64
  createdAt : Time.Instant
  updatedAt : Time.Instant
  attachments : List Attachment
deriving Repr, DecidableEq

namespace Ticket
open Document.Reader

def fresh (key subject : String) (reporter : User) (now : Time.Instant) : Ticket where
  id := 0
  key := key
  subject := subject
  description := none
  status := .new
  priority := "medium"
  source := .web
  branch := none
  reporter := reporter
  assignee := none
  createdAt := now
  updatedAt := now
  attachments := []

def fieldNames : List String :=
  ["id", "key", "subject", "description", "status", "priority", "source", "branch", "reporter",
    "assignee", "created_at", "updated_at", "attachments"]

def read : Document.Reader Ticket
  | o, room + 1, d => do
    match ← fields? fieldNames o d with
    | [id, key, subject, description, status, priority, source, branch, reporter, assignee,
        createdAt, updatedAt, attachments] =>
      some {
        id := ← id.required (int64 o room)
        key := ← key.required (text o room)
        subject := ← subject.required (text o room)
        description := ← description.optional (option text o room)
        status := ← status.required (Status.read o room)
        priority := ← priority.required (text o room)
        source := ← source.required (Source.read o room)
        branch := ← branch.optional (option int64 o room)
        reporter := ← reporter.required (User.read o room)
        assignee := ← assignee.optional (option int64 o room)
        createdAt := ← createdAt.required (Time.Instant.read o room)
        updatedAt := ← updatedAt.required (Time.Instant.read o room)
        attachments := ← attachments.orElse [] (list Attachment.read o room)
      }
    | _ => none
  | _, _, _ => none

def toDocument (t : Ticket) : Document :=
  .table ([("id", .ofInt64 t.id), ("key", .text t.key), ("subject", .text t.subject),
    ("description", .ofOption .text t.description), ("status", t.status.toDocument),
    ("priority", .text t.priority), ("source", t.source.toDocument),
    ("branch", .ofOption .ofInt64 t.branch), ("reporter", t.reporter.toDocument),
    ("assignee", .ofOption .ofInt64 t.assignee), ("created_at", t.createdAt.toDocument),
    ("updated_at", t.updatedAt.toDocument)] ++
    Document.nonempty "attachments" Attachment.toDocument t.attachments)

end Ticket
end Helpdesk
