import Helpdesk.Document.File
import Helpdesk.Document.JsonText
import Helpdesk.Notice
import Helpdesk.Store.Fetch
import Helpdesk.Store.Select

/-! The operations of the help desk on its database: users, branches, tickets, attachments and the audit
log are written as rows and read back from them. -/

namespace Helpdesk.Store

def textCell (s : String) : Cell := .text s

def momentCell (t : Time.Instant) : Cell := .text t.toStored

def known {α : Type} (ofText? : String → Option α) (s column : String) : Result α :=
  match ofText? s with
  | some a => .ok a
  | none => .error (.unknownValue s column)

def momentOf (s column : String) : Result Time.Instant :=
  match Time.Instant.ofText? s with
  | some t => .ok t
  | none => .error (.unknownMoment s column)

def createUser (s : Store) (u : UserDetails) : Outcome Store :=
  let columns := ["kind", "id", "email", "full_name"]
  let cells := [textCell u.user.account.name, .int u.user.id, textCell u.email, textCell u.fullName]
  outcome ((s.insert "users" (columns.zip cells)).map Prod.snd)

def createBranch (s : Store) (name : String) : Outcome (Int64 × Store) :=
  outcome (s.insert "branches" (["name"].zip [textCell name]))

/-- Stores a ticket under a new number. The number that it has and its attachments do not count. -/
def createTicket (s : Store) (t : Ticket) : Outcome (Int64 × Store) :=
  let columns := ["key", "subject", "description", "status", "priority", "source", "branch",
    "reporter", "assignee", "created_at", "updated_at"]
  let cells := [textCell t.key, textCell t.subject, .ofOption textCell t.description,
    textCell t.status.name, textCell t.priority, textCell t.source.name, .ofOption .int t.branch,
    textCell t.reporter.identifier, .ofOption .int t.assignee, momentCell t.createdAt,
    momentCell t.updatedAt]
  outcome (s.insert "tickets" (columns.zip cells))

def ticketColumns : List String := ["id", "key", "subject", "description", "status", "priority",
  "source", "branch", "reporter", "assignee", "created_at", "updated_at"]

def readTicket (r : Selected) : Result Ticket := do
  let status ← textAt r 4
  let source ← textAt r 6
  let reporter ← textAt r 8
  let created ← textAt r 10
  let updated ← textAt r 11
  let id ← intAt r 0
  let key ← textAt r 1
  let subject ← textAt r 2
  let description ← textOrNullAt r 3
  let status ← known Status.ofText? status "status"
  let priority ← textAt r 5
  let source ← known Source.ofText? source "source"
  let branch ← intOrNullAt r 7
  let reporter ← known User.ofIdentifier? reporter "reporter"
  let assignee ← intOrNullAt r 9
  let createdAt ← momentOf created "created_at"
  let updatedAt ← momentOf updated "updated_at"
  .ok ⟨id, key, subject, description, status, priority, source, branch, reporter, assignee,
    createdAt, updatedAt, []⟩

def ticketLookup (key : String) : Lookup where
  columns := ticketColumns
  table := "tickets"
  conditions := [("key", textCell key)]
  order := []

def readAttachment (r : Selected) : Result Attachment := do
  let created ← textAt r 3
  let id ← intAt r 0
  let ticketId ← intAt r 1
  let filename ← textAt r 2
  let createdAt ← momentOf created "created_at"
  .ok ⟨id, ticketId, filename, createdAt⟩

def attachmentsLookup (ticketId : Int64) : Lookup where
  columns := ["id", "ticket_id", "filename", "created_at"]
  table := "attachments"
  conditions := [("ticket_id", .int ticketId)]
  order := [("id", false)]

def attachments (s : Store) (ticketId : Int64) : Outcome (List Attachment) :=
  outcome do
    let rows ← s.fetch (attachmentsLookup ticketId)
    rows.mapM readAttachment

def ticket (s : Store) (key : String) : Outcome Ticket := do
  let found ← outcome do
    let rows ← s.fetch (ticketLookup key)
    firstOf readTicket rows
  match found with
  | none => .error (.ticketNotFound key)
  | some t => do
    let attachments ← s.attachments t.id
    .ok { t with attachments }

def addAttachment (s : Store) (ticketId : Int64) (filename : String) (createdAt : Time.Instant) :
    Outcome (Int64 × Store) :=
  let columns := ["ticket_id", "filename", "created_at"]
  let cells := [.int ticketId, textCell filename, momentCell createdAt]
  outcome (s.insert "attachments" (columns.zip cells))

def logChange (s : Store) (e : AuditEntry) : Outcome (Int64 × Store) :=
  let columns := ["object_class", "object_id", "action", "version", "logged_at", "data"]
  let cells := [textCell e.objectClass, .int e.objectId, textCell e.action.name, .int e.version,
    momentCell e.loggedAt, textCell (AuditEntry.diffsDocument e.diffs).toJson]
  outcome (s.insert "audit_log" (columns.zip cells))

structure LoggedEntry where
  objectClass : String
  objectId : Int64
  action : Action
  version : Int64
  loggedAt : Time.Instant
  data : String

def readLogged (r : Selected) : Result LoggedEntry := do
  let action ← textAt r 2
  let logged ← textAt r 4
  let data ← textAt r 5
  let objectClass ← textAt r 0
  let objectId ← intAt r 1
  let action ← known Action.ofName? action "action"
  let version ← intAt r 3
  let loggedAt ← momentOf logged "logged_at"
  .ok ⟨objectClass, objectId, action, version, loggedAt, data⟩

def readDiffs (e : LoggedEntry) : Outcome AuditEntry :=
  match (Document.ofJson? e.data).bind
      (Document.Reader.ofJson (Document.Reader.list FieldDiff.read)) with
  | some diffs => .ok ⟨e.objectClass, e.objectId, e.action, e.version, e.loggedAt, diffs⟩
  | none => .error (.corruptedAudit e.objectClass e.objectId)

/-- Higher versions come first, and of equal versions the one that was logged last. -/
def entriesLookup (objectClass : String) (objectId : Int64) : Lookup where
  columns := ["object_class", "object_id", "action", "version", "logged_at", "data"]
  table := "audit_log"
  conditions := [("object_class", textCell objectClass), ("object_id", .int objectId)]
  order := [("version", true), ("id", true)]

def logEntries (s : Store) (objectClass : String) (objectId : Int64) : Outcome (List AuditEntry) := do
  let logged ← outcome do
    let rows ← s.fetch (entriesLookup objectClass objectId)
    rows.mapM readLogged
  logged.mapM readDiffs

def detailsLookup (u : User) : Lookup where
  columns := ["email", "full_name"]
  table := "users"
  conditions := [("kind", textCell u.account.name), ("id", .int u.id)]
  order := []

def userDetails (s : Store) (u : User) : Outcome UserDetails := do
  let found ← outcome do
    let rows ← s.fetch (detailsLookup u)
    firstOf (fun r => do
      let email ← textAt r 0
      let fullName ← textAt r 1
      .ok (UserDetails.mk u email fullName)) rows
  match found with
  | some details => .ok details
  | none => .error (.userNotFound u)

def emailLookup (email : String) : Lookup where
  columns := ["kind", "id"]
  table := "users"
  conditions := [("email", textCell email)]
  order := []

def userByEmail (s : Store) (email : String) : Outcome (Option User) :=
  outcome do
    let rows ← s.fetch (emailLookup email)
    firstOf (fun r => do
      let kind ← textAt r 0
      let account ← known Account.ofName? kind "kind"
      let id ← intAt r 1
      .ok (User.mk account id)) rows

def directory (s : Store) : UserDirectory := ⟨s.userDetails, s.userByEmail⟩

structure OldTicket where
  key : String
  subject : String
  status : String
  priority : String
  reporter : String
  time : String
deriving Repr

def OldTicket.cells (t : OldTicket) : List (String × Cell) :=
  [("key", .text t.key), ("subject", .text t.subject), ("status", .text t.status),
    ("priority", .text t.priority), ("reporter", .text t.reporter), ("created_at", .text t.time),
    ("updated_at", .text t.time)]

/-- A database as it was before tickets had a source, brought up to date. -/
def ofOldTickets (tickets : List OldTicket) : Result Store := do
  let start : Store := ⟨[.empty Schema.oldTickets]⟩
  let s ← tickets.foldlM (fun s t => (s.insert "tickets" t.cells).map Prod.snd) start
  s.upgrade

end Helpdesk.Store
