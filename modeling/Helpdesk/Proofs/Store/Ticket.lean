import Helpdesk.Proofs.Store.History
import Helpdesk.Proofs.Store.Lookup
import Helpdesk.Proofs.User

/-! Tickets are found again. Once a ticket is stored, its key leads to it whatever is stored later, with
its moments cut to whole seconds and with the attachments that were added to it (`ticket_later`). What
cannot be read back is the number of a reporter that is not positive, and a year that needs a sign. -/

namespace Helpdesk

theorem Status.ofText?_name (x : Status) : ofText? x.name = some x := by
  cases x <;> decide

theorem Source.ofText?_name (x : Source) : ofText? x.name = some x := by
  cases x <;> decide

def Attachment.wholeSeconds (a : Attachment) : Attachment :=
  { a with createdAt := a.createdAt.wholeSeconds }

structure Ticket.IsReadable (t : Ticket) : Prop where
  reporter : 0 < t.reporter.id
  created : t.createdAt.HasFourDigitYear
  updated : t.updatedAt.HasFourDigitYear

namespace Store

theorem known_identifier_eq_ok {u v : User} {column : String} :
    known User.ofIdentifier? u.identifier column = .ok v ↔ 0 < u.id ∧ u = v := by
  rw [known, User.ofIdentifier?_identifier]
  by_cases positive : 0 < u.id
  · simp [positive]
  · simp [positive]

def attachmentsTo (ticketId : Int64) (h : History) : List Attachment :=
  h.filterMap fun
    | (.attachment id filename createdAt, some i) =>
      if id = ticketId then some ⟨i, id, filename, createdAt⟩ else none
    | _ => none

def ticketsOf (h : History) : List (Int64 × Ticket) :=
  h.filterMap fun
    | (.ticket t, some i) => some (i, t)
    | _ => none

theorem mem_ticketsOf {h : History} {i : Int64} {t : Ticket} :
    (i, t) ∈ ticketsOf h ↔ (.ticket t, some i) ∈ h := by
  refine ⟨fun found => ?_, fun done => List.mem_filterMap.2 ⟨_, done, rfl⟩⟩
  obtain ⟨⟨o, n⟩, done, same⟩ := List.mem_filterMap.1 found
  cases o with
  | ticket t => cases n <;> cases same; exact done
  | _ => cases n <;> cases same

theorem mem_attachmentsTo {h : History} {id : Int64} {a : Attachment} :
    a ∈ attachmentsTo id h ↔
      (.attachment a.ticketId a.filename a.createdAt, some a.id) ∈ h ∧ a.ticketId = id := by
  refine ⟨fun found => ?_, fun ⟨done, own⟩ => List.mem_filterMap.2 ⟨_, done, if_pos own⟩⟩
  obtain ⟨⟨o, n⟩, done, same⟩ := List.mem_filterMap.1 found
  cases o with
  | attachment ticketId filename createdAt =>
    cases n with
    | none => cases same
    | some i =>
      obtain ⟨own, same⟩ := Option.ite_none_right_eq_some.1 same
      cases same
      exact ⟨done, own⟩
  | _ => cases n <;> cases same

def addedOf (h : History) : List Attachment :=
  h.filterMap fun
    | (.attachment ticketId filename createdAt, some i) => some ⟨i, ticketId, filename, createdAt⟩
    | _ => none

theorem attachmentsTo_eq_filter (id : Int64) (h : History) :
    attachmentsTo id h = (addedOf h).filter fun a => a.ticketId = id := by
  rw [attachmentsTo, addedOf, List.filter_filterMap]
  refine List.filterMap_congr fun e _ => ?_
  obtain ⟨o, n⟩ := e
  cases o with
  | attachment ticketId filename createdAt =>
    cases n with
    | none => rfl
    | some i => by_cases own : ticketId = id <;> simp [Option.filter, own]
  | _ => cases n <;> rfl

def attachmentCells (a : Attachment) : List (String × Cell) :=
  (Operation.attachment a.ticketId a.filename a.createdAt).cells

def shownTicket (p : Int64 × Ticket) : Selected := ("id", .int p.1) :: ticketCells p.2

def shownAttachment (a : Attachment) : Selected := ("id", .int a.id) :: attachmentCells a

def attachmentRow (a : Attachment) : Row := Schema.attachments.row a.id (attachmentCells a)

theorem recordedRows_tickets (h : History) :
    recordedRows .tickets h = (ticketsOf h).map ticketRow := by
  rw [recordedRows, ticketsOf, List.map_filterMap]
  refine List.filterMap_congr fun e _ => ?_
  obtain ⟨o, n⟩ := e
  cases o <;> cases n <;> rfl

theorem recordedRows_attachments (h : History) :
    recordedRows .attachments h = (addedOf h).map attachmentRow := by
  rw [recordedRows, addedOf, List.map_filterMap]
  refine List.filterMap_congr fun e _ => ?_
  obtain ⟨o, n⟩ := e
  cases o <;> cases n <;> rfl

section Reading

theorem prepare_ticketLookup (key : String) : ∃ p, (ticketLookup key).prepare (.empty .tickets) = .ok p ∧
    p.keys = [] ∧ (∀ x, p.select (ticketRow x) = shownTicket x) ∧
    ∀ x, p.admits (ticketRow x) = decide (x.2.key = key) := by
  refine ⟨_, rfl, rfl, fun x => ?_, fun x => ?_⟩
  · obtain ⟨i, ⟨_, _, _, description, _, _, _, branch, _, assignee, _, _, _⟩⟩ := x
    cases description <;> cases branch <;> cases assignee <;> rfl
  · have same := equals_text (c := Schema.textColumn "key") (r := ticketRow x) (n := 1)
      (a := x.2.key) rfl rfl key
    simp [Prepared.admits, same]

theorem prepare_attachmentsLookup (id : Int64) :
    ∃ p, (attachmentsLookup id).prepare (.empty .attachments) = .ok p ∧
      p.keys = [⟨.column 0 Schema.idColumn, false⟩] ∧
      (∀ a, p.select (attachmentRow a) = shownAttachment a) ∧
      ∀ a, p.admits (attachmentRow a) = decide (a.ticketId = id) := by
  refine ⟨_, rfl, rfl, fun a => rfl, fun a => ?_⟩
  have same := equals_int (c := Schema.integerColumn "ticket_id") (r := attachmentRow a) (n := 1)
    (i := a.ticketId) rfl rfl id
  simp [Prepared.admits, same]

theorem readTicket_eq_ok {i : Int64} {x y : Ticket} :
    readTicket (shownTicket (i, x)) = .ok y ↔ x.IsReadable ∧
      { x with
        id := i, createdAt := x.createdAt.wholeSeconds, updatedAt := x.updatedAt.wholeSeconds,
        attachments := [] } = y := by
  have statusKnown : known Status.ofText? x.status.name "status" = .ok x.status := by
    rw [known, Status.ofText?_name]
  have sourceKnown : known Source.ofText? x.source.name "source" = .ok x.source := by
    rw [known, Source.ofText?_name]
  have id : intAt (shownTicket (i, x)) 0 = .ok i := rfl
  have key : textAt (shownTicket (i, x)) 1 = .ok x.key := rfl
  have subject : textAt (shownTicket (i, x)) 2 = .ok x.subject := rfl
  have description : textOrNullAt (shownTicket (i, x)) 3 = .ok x.description := textOrNullAt_eq_ok rfl
  have status : textAt (shownTicket (i, x)) 4 = .ok x.status.name := rfl
  have priority : textAt (shownTicket (i, x)) 5 = .ok x.priority := rfl
  have source : textAt (shownTicket (i, x)) 6 = .ok x.source.name := rfl
  have branch : intOrNullAt (shownTicket (i, x)) 7 = .ok x.branch := intOrNullAt_eq_ok rfl
  have reporter : textAt (shownTicket (i, x)) 8 = .ok x.reporter.identifier := rfl
  have assignee : intOrNullAt (shownTicket (i, x)) 9 = .ok x.assignee := intOrNullAt_eq_ok rfl
  have created : textAt (shownTicket (i, x)) 10 = .ok x.createdAt.toStored := rfl
  have updated : textAt (shownTicket (i, x)) 11 = .ok x.updatedAt.toStored := rfl
  simp only [readTicket, id, key, subject, description, status, priority, source, branch, reporter,
    assignee, created, updated, ok_bind, statusKnown, sourceKnown, bind_eq_ok,
    known_identifier_eq_ok, momentOf_eq_ok, Except.ok.injEq]
  constructor
  · rintro ⟨_, ⟨positive, rfl⟩, _, ⟨first, rfl⟩, _, ⟨last, rfl⟩, same⟩
    exact ⟨⟨positive, first, last⟩, same⟩
  · rintro ⟨readable, same⟩
    exact ⟨_, ⟨readable.reporter, rfl⟩, _, ⟨readable.created, rfl⟩, _, ⟨readable.updated, rfl⟩, same⟩

theorem readAttachment_eq_ok {a b : Attachment} :
    readAttachment (shownAttachment a) = .ok b ↔
      a.createdAt.HasFourDigitYear ∧ a.wholeSeconds = b := by
  have id : intAt (shownAttachment a) 0 = .ok a.id := rfl
  have ticketId : intAt (shownAttachment a) 1 = .ok a.ticketId := rfl
  have filename : textAt (shownAttachment a) 2 = .ok a.filename := rfl
  have created : textAt (shownAttachment a) 3 = .ok a.createdAt.toStored := rfl
  simp only [readAttachment, id, ticketId, filename, created, ok_bind, bind_eq_ok, momentOf_eq_ok,
    Except.ok.injEq]
  constructor
  · rintro ⟨_, ⟨four, rfl⟩, same⟩
    exact ⟨four, same⟩
  · rintro ⟨four, same⟩
    exact ⟨_, ⟨four, rfl⟩, same⟩

theorem readAttachments_eq_ok {as bs : List Attachment} :
    (as.map shownAttachment).mapM readAttachment = .ok bs ↔
      (∀ a ∈ as, a.createdAt.HasFourDigitYear) ∧ as.map Attachment.wholeSeconds = bs := by
  rw [mapM_eq_ok_iff, List.forall₂_map_left_iff]
  simp only [readAttachment_eq_ok]
  induction as generalizing bs with
  | nil => cases bs <;> simp
  | cons a as ih => cases bs <;> simp [ih, and_assoc, and_left_comm]

end Reading

theorem filter_eq_singleton {α β : Type} [DecidableEq β] {f : α → β} {l : List α}
    (h : l.Pairwise fun a b => f a ≠ f b) {a : α} (ha : a ∈ l) :
    l.filter (fun b => f b = f a) = [a] := by
  induction l with
  | nil => exact absurd ha List.not_mem_nil
  | cons b l ih =>
    obtain ⟨apart, rest⟩ := List.pairwise_cons.1 h
    rcases List.mem_cons.1 ha with rfl | later
    · have others : l.filter (fun b => f b = f a) = [] :=
        List.filter_eq_nil_iff.2 fun c hc same => apart c hc (of_decide_eq_true same).symm
      rw [List.filter_cons_of_pos (by simp), others]
    · rw [List.filter_cons_of_neg (by simpa using apart a later), ih rest later]

theorem find?_eq_some_of_mem {α β : Type} [DecidableEq β] {f : α → β} {l : List α}
    (apart : l.Pairwise fun a b => f a ≠ f b) {a : α} (ha : a ∈ l) :
    l.find? (fun b => f b = f a) = some a := by
  rw [← List.head?_filter, filter_eq_singleton apart ha]
  rfl

section Run
variable (os : List Operation)

theorem keys_run : (ticketsOf (run os).history).Pairwise fun p q => p.2.key ≠ q.2.key := by
  obtain ⟨t, lists⟩ := lists_run os .tickets (by decide) (by decide)
  have distinct := distinct_run os t (List.mem_of_find?_eq_some lists.table)
  rw [Table.Distinct, lists.rows, recordedRows_tickets, List.pairwise_map] at distinct
  refine distinct.imp fun {p q} apart same => ?_
  have unique : ["key"] ∈ t.schema.uniques := by
    rw [lists.schema]
    decide
  have shared := apart ["key"] unique
  have cell (p : Int64 × Ticket) : t.cellOf (ticketRow p) "key" = textCell p.2.key := by
    rw [Table.cellOf_eq lists.schema]
    rfl
  simp only [Table.sameKey, List.all_cons, List.all_nil, Bool.and_true, cell, sameCell_text, same,
    decide_true, Bool.true_eq_false] at shared

def readStored (p : Int64 × Ticket) (h : History) : Result Ticket := do
  let y ← readTicket (shownTicket p)
  let as ← ((attachmentsTo y.id h).map shownAttachment).mapM readAttachment
  .ok { y with attachments := as }

theorem readStored_eq_ok {id : Int64} {x y : Ticket} {h : History} :
    readStored (id, x) h = .ok y ↔
      (x.IsReadable ∧ ∀ a ∈ attachmentsTo id h, a.createdAt.HasFourDigitYear) ∧
        { x with
          id := id, createdAt := x.createdAt.wholeSeconds, updatedAt := x.updatedAt.wholeSeconds,
          attachments := (attachmentsTo id h).map Attachment.wholeSeconds } = y := by
  simp only [readStored, bind_eq_ok, readTicket_eq_ok, readAttachments_eq_ok]
  constructor
  · rintro ⟨_, ⟨readable, rfl⟩, _, ⟨four, rfl⟩, same⟩
    exact ⟨⟨readable, four⟩, Except.ok.inj same⟩
  · rintro ⟨⟨readable, four⟩, same⟩
    exact ⟨_, ⟨readable, rfl⟩, _, ⟨four, rfl⟩, congrArg _ same⟩

theorem fetch_attachments_run (id : Int64) : (run os).store.fetch (attachmentsLookup id) =
    .ok ((attachmentsTo id (run os).history).map shownAttachment) := by
  obtain ⟨t, lists⟩ := lists_run os .attachments (by decide) (by decide)
  rw [recordedRows_attachments] at lists
  obtain ⟨p, prepared, keys, selects, admits⟩ := prepare_attachmentsLookup id
  have ordered := (sound_run os).ordered lists.table
  rw [lists.rows, Ordered, List.pairwise_map] at ordered
  have sorted : ((addedOf (run os).history).filter fun a => a.ticketId = id).Pairwise fun a b =>
      Row.MayPrecede p.keys (attachmentRow a) (attachmentRow b) := by
    rw [keys]
    exact (ordered.filter _).imp fun less =>
      Row.mayPrecede_of_not_lt rfl rfl fun more => lt_irrefl _ (lt_trans less more)
  rw [fetch_of_lists lists rfl prepared, p.run_map_of_pairwise (fun a _ => admits a) sorted,
    ← attachmentsTo_eq_filter]
  simp only [selects]

theorem ticket_run (key : String) : (run os).store.ticket key =
    match (ticketsOf (run os).history).find? fun p => p.2.key = key with
    | none => .error (.ticketNotFound key)
    | some p => outcome (readStored p (run os).history) := by
  obtain ⟨t, lists⟩ := lists_run os .tickets (by decide) (by decide)
  rw [recordedRows_tickets] at lists
  obtain ⟨p, prepared, unsorted, selects, admits⟩ := prepare_ticketLookup key
  rw [ticket, first_of_lists lists rfl prepared unsorted admits]
  cases (ticketsOf (run os).history).find? fun p => p.2.key = key with
  | none => rfl
  | some x =>
    dsimp only
    rw [selects, readStored]
    cases readTicket (shownTicket x) with
    | error f => rfl
    | ok y =>
      have attachments : (run os).store.attachments y.id =
          outcome (((attachmentsTo y.id (run os).history).map shownAttachment).mapM
            readAttachment) := by
        rw [Store.attachments, fetch_attachments_run, ok_bind]
      change ((run os).store.attachments y.id >>= fun as => .ok { y with attachments := as }) = _
      rw [attachments, ok_bind]
      cases ((attachmentsTo y.id (run os).history).map shownAttachment).mapM readAttachment <;> rfl

end Run

/-- Once a ticket is stored, its key leads to it at every later point of a run, as long as it and its
attachments can be read back; else storage fails. -/
theorem ticket_later (before later : List Operation) {x : Ticket} {id : Int64} {s : Store}
    (created : (run before).store.createTicket x = .ok (id, s)) :
    let desk := run (before ++ .ticket x :: later)
    let added := attachmentsTo id desk.history
    (x.IsReadable ∧ (∀ a ∈ added, a.createdAt.HasFourDigitYear) →
      desk.store.ticket x.key = .ok { x with
        id := id, createdAt := x.createdAt.wholeSeconds, updatedAt := x.updatedAt.wholeSeconds,
        attachments := added.map Attachment.wholeSeconds }) ∧
    (¬ (x.IsReadable ∧ ∀ a ∈ added, a.createdAt.HasFourDigitYear) →
      ∃ fault, desk.store.ticket x.key = .error (.storage fault)) := by
  intro desk added
  have done : (Operation.ticket x, some id) ∈ desk.history :=
    mem_history (map_eq_ok.2 ⟨_, created, rfl⟩)
  have stored : (id, x) ∈ ticketsOf desk.history := List.mem_filterMap.2 ⟨_, done, rfl⟩
  have found : desk.store.ticket x.key = outcome (readStored (id, x) desk.history) := by
    have one := find?_eq_some_of_mem (f := fun p : Int64 × Ticket => p.2.key) (keys_run _) stored
    rw [ticket_run, one]
  refine ⟨fun kept => found.trans (outcome_eq_ok.2 (readStored_eq_ok.2 ⟨kept, rfl⟩)), fun lost => ?_⟩
  cases read : readStored (id, x) desk.history with
  | error fault => exact ⟨fault, found.trans (congrArg outcome read)⟩
  | ok y => exact absurd (readStored_eq_ok.1 read).1 lost

namespace LeapSecond

def moment : Time.Instant := ⟨1483228799, 1250000000, by decide⟩

def printer : Ticket := { Ticket.fresh "HD-1" "Printer" ⟨.oro, 1⟩ moment with branch := some 1 }

def scanner : Ticket := .fresh "HD-2" "Scanner" ⟨.diamante, 2⟩ .epoch

/-- The second branch has the name of the first, and is refused. -/
def before : List Operation := [.branch "North", .branch "North"]

def later : List Operation :=
  [.attachment 1 "log.txt" moment, .ticket scanner, .attachment 2 "scan.png" .epoch,
    .attachment 7 "lost.txt" moment, .ticket { scanner with key := "HD-1" },
    .attachment 1 "photo.png" .epoch]

theorem ticket_printer : ∃ s, (run before).store.createTicket printer = .ok (1, s) ∧
    (run (before ++ .ticket printer :: later)).store.ticket "HD-1" = .ok { printer with
      id := 1, createdAt := moment.wholeSeconds, updatedAt := moment.wholeSeconds,
      attachments := [⟨1, 1, "log.txt", moment.wholeSeconds⟩, ⟨3, 1, "photo.png", .epoch⟩] } := by
  obtain ⟨s, created⟩ : ∃ s, (run before).store.createTicket printer = .ok (1, s) := ⟨_, rfl⟩
  have added : attachmentsTo 1 (run (before ++ .ticket printer :: later)).history =
      [⟨1, 1, "log.txt", moment⟩, ⟨3, 1, "photo.png", .epoch⟩] := rfl
  have four : ∀ t ∈ [moment, .epoch], t.HasFourDigitYear := by decide
  obtain ⟨kept, -⟩ := ticket_later before later created
  refine ⟨s, created, ?_⟩
  rw [added] at kept
  have moment_ := four moment (by simp)
  exact kept ⟨⟨by decide, moment_, moment_⟩, by simp [four]⟩

end LeapSecond

end Store
end Helpdesk
