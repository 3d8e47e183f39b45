import Helpdesk.Cli.Run
import Helpdesk.Proofs.Notice
import Helpdesk.Proofs.Store.Log
import Helpdesk.Proofs.Store.Ticket
import Helpdesk.Proofs.Store.Users

/-! Previews of notifications. Of the entries about an object the newest one counts, wherever in the log it
stands (`newest?`, `logEntries_newest`). A preview is read off what has happened (`previewOf_eq`): it
shows the newest entry about the ticket and about each of its attachments, and fails just where there is
no such ticket, no such entry or no such reporter (`previewOf_run`). -/

namespace Helpdesk

namespace AuditEntry

/-- The entry with the highest version; of several with that version, the last one. -/
def newest? : List AuditEntry → Option AuditEntry
  | [] => none
  | e :: es =>
    match newest? es with
    | none => some e
    | some n => some (if n.version < e.version then e else n)

theorem newest?_eq_none_iff {es : List AuditEntry} : newest? es = none ↔ es = [] := by
  cases es with
  | nil => simp [newest?]
  | cons e es =>
    rw [newest?]
    cases newest? es <;> simp

theorem newest?_cons {e n : AuditEntry} {es : List AuditEntry} (rest : newest? es = some n) :
    newest? (e :: es) = some (if n.version < e.version then e else n) := by
  rw [newest?, rest]

theorem mem_of_newest? {n : AuditEntry} {es : List AuditEntry} (h : newest? es = some n) :
    n ∈ es := by
  induction es generalizing n with
  | nil => cases h
  | cons e es ih =>
    cases rest : newest? es with
    | none =>
      rw [newest?, rest] at h
      cases h
      exact List.mem_cons_self
    | some m =>
      rw [newest?_cons rest] at h
      cases h
      split
      · exact List.mem_cons_self
      · exact List.mem_cons_of_mem e (ih rest)

/-- No entry behind the newest one has its version, and none has a higher one. -/
theorem newest?_append {before after : List AuditEntry} {n : AuditEntry}
    (low : ∀ e ∈ before, e.version ≤ n.version) (lower : ∀ e ∈ after, e.version < n.version) :
    newest? (before ++ n :: after) = some n := by
  induction before with
  | nil =>
    cases rest : newest? after with
    | none => rw [List.nil_append, newest?, rest]
    | some m => rw [List.nil_append, newest?_cons rest, if_pos (lower m (mem_of_newest? rest))]
  | cons e before ih =>
    obtain ⟨here, others⟩ := List.forall_mem_cons.1 low
    have notHigher : ¬ n.version < e.version := Int64.not_lt.2 here
    rw [List.cons_append, newest?_cons (ih others), if_neg notHigher]

theorem NewestFirst.head? {es newest : List AuditEntry} (h : NewestFirst es newest) :
    newest.head? = newest? es := by
  cases newest with
  | nil => rw [← h.perm.nil_eq]; rfl
  | cons n rest =>
    have highest : ∀ e ∈ es, e.version ≤ n.version := fun e he =>
      (List.forall_mem_cons.2 ⟨Int64.le_refl _, (List.pairwise_cons.1 h.versions).1⟩ :
        ∀ e ∈ n :: rest, e.version ≤ n.version) e (h.perm.symm.subset he)
    have front := h.ties n.version
    rw [List.filter_cons_of_pos (by simp), ← List.filter_reverse, eq_comm,
      List.filter_eq_cons_iff] at front
    obtain ⟨later, earlier, order, others, -, -⟩ := front
    have split : es = earlier.reverse ++ n :: later.reverse := by
      rw [← List.reverse_inj, order]
      simp
    rw [split] at highest ⊢
    obtain ⟨low, high⟩ := List.forall_mem_append.1 highest
    refine (newest?_append low fun e he => ?_).symm
    have different : e.version ≠ n.version := by simpa using others e (List.mem_reverse.1 he)
    exact Int64.lt_of_le_of_ne ((List.forall_mem_cons.1 high).2 e he) different

theorem newest?_map_wholeSeconds (es : List AuditEntry) :
    newest? (es.map wholeSeconds) = (newest? es).map wholeSeconds := by
  induction es with
  | nil => rfl
  | cons e es ih =>
    rw [List.map_cons, newest?, newest?, ih]
    cases newest? es with
    | none => rfl
    | some n => exact congrArg some (apply_ite wholeSeconds _ e n).symm

end AuditEntry

namespace Store
open AuditEntry (newest?)

def Operation.IsReadable : Operation → Prop
  | .ticket t => t.IsReadable
  | .attachment _ _ createdAt => createdAt.HasFourDigitYear
  | .change e => e.IsReadable
  | _ => True

def entriesAbout (h : History) (objectClass : String) (objectId : Int64) : List AuditEntry :=
  ((changesOf h).map Prod.snd).filter (AuditEntry.isAbout objectClass objectId)

def lastChanges (h : History) (objectClass : String) (objectId : Int64) : List Change :=
  ((newest? (entriesAbout h objectClass objectId)).map AuditEntry.changes).getD []

def attachmentChanges (h : History) (ticketId : Int64) : List Change :=
  (attachmentsTo ticketId h).flatMap fun a => lastChanges h attachmentObject a.id

theorem mem_of_mem_history (os : List Operation) : ∀ p ∈ (run os).history, p.1 ∈ os := by
  induction os using List.reverseRecOn with
  | nil => exact fun p hp => absurd hp List.not_mem_nil
  | append_singleton os o ih =>
    have earlier : ∀ p ∈ (run os).history, p.1 ∈ os ++ [o] := fun p hp =>
      List.mem_append_left _ (ih p hp)
    rw [run_append, List.foldl_cons, List.foldl_nil, Desk.step]
    split
    · exact List.forall_mem_append.2 ⟨earlier, by simp⟩
    · exact earlier

structure IsReadable (h : History) : Prop where
  changes : ∀ p ∈ changesOf h, p.2.IsReadable
  tickets : ∀ p ∈ ticketsOf h, p.2.IsReadable
  attachments : ∀ id, ∀ a ∈ attachmentsTo id h, a.createdAt.HasFourDigitYear

theorem isReadable_run {os : List Operation} (readable : ∀ o ∈ os, o.IsReadable) :
    IsReadable (run os).history := by
  have done : ∀ p ∈ (run os).history, p.1.IsReadable := fun p hp =>
    readable p.1 (mem_of_mem_history os p hp)
  exact ⟨fun _ logged => done _ (mem_changesOf.1 logged),
    fun _ stored => done _ (mem_ticketsOf.1 stored),
    fun _ _ added => done _ (mem_attachmentsTo.1 added).1⟩

section Run
variable {os : List Operation} (readable : IsReadable (run os).history)
include readable

theorem logEntries_newest (objectClass : String) (objectId : Int64) :
    (newest? (entriesAbout (run os).history objectClass objectId) = none ∧
      (run os).store.logEntries objectClass objectId = .ok []) ∨
    ∃ n others, newest? (entriesAbout (run os).history objectClass objectId) = some n ∧
      (run os).store.logEntries objectClass objectId = .ok (n.wholeSeconds :: others) := by
  obtain ⟨t, lists, numbered⟩ := listsChanges_run os
  have kept : ∀ e ∈ entriesAbout (run os).history objectClass objectId, e.IsReadable := by
    intro e he
    obtain ⟨p, hp, rfl⟩ := List.mem_map.1 (List.mem_of_mem_filter he)
    exact readable.changes p hp
  obtain ⟨entries, found, sorted⟩ := logEntries_of_lists lists numbered kept
  have head := sorted.head?.trans (AuditEntry.newest?_map_wholeSeconds _)
  rw [found]
  cases newest : newest? (entriesAbout (run os).history objectClass objectId) with
  | none =>
    rw [← entriesAbout, newest] at head
    exact .inl ⟨rfl, congrArg _ (List.head?_eq_none_iff.1 head)⟩
  | some n =>
    rw [← entriesAbout, newest] at head
    obtain ⟨others, order⟩ := List.head?_eq_some_iff.1 head
    exact .inr ⟨n, others, rfl, congrArg _ order⟩

theorem ofAttachments_run (as : List Attachment) :
    EntityChanges.ofAttachments (run os).store.logEntries as =
      .ok (as.flatMap fun a => lastChanges (run os).history attachmentObject a.id) := by
  induction as with
  | nil => rfl
  | cons a as ih =>
    rw [EntityChanges.ofAttachments, ih, List.flatMap_cons, lastChanges]
    rcases logEntries_newest readable attachmentObject a.id with
      ⟨none, log⟩ | ⟨n, others, newest, log⟩
    · rw [none, log]
      rfl
    · rw [newest, log]
      rfl

end Run

def readBack (h : History) (id : Int64) (x : Ticket) : Ticket :=
  { x with
    id := id, createdAt := x.createdAt.wholeSeconds, updatedAt := x.updatedAt.wholeSeconds,
    attachments := (attachmentsTo id h).map Attachment.wholeSeconds }

theorem ticket_eq {os : List Operation} (readable : IsReadable (run os).history) (key : String) :
    (run os).store.ticket key =
      match (ticketsOf (run os).history).find? fun p => p.2.key = key with
      | none => .error (.ticketNotFound key)
      | some (id, x) => .ok (readBack (run os).history id x) := by
  rw [ticket_run]
  cases found : (ticketsOf (run os).history).find? fun p => p.2.key = key with
  | none => rfl
  | some p =>
    have stored := List.mem_of_find?_eq_some found
    exact outcome_eq_ok.2 (readStored_eq_ok.2
      ⟨⟨readable.tickets _ stored, readable.attachments p.1⟩, rfl⟩)

def staffAt (h : History) (email : String) : Bool :=
  (usersOf h).any fun u => u.email = email ∧ u.user.isStaff

theorem resolve_run (os : List Operation) (email : String) :
    ∃ r, Recipient.resolve (run os).store.directory email = .ok r ∧
      r.isStaff = staffAt (run os).history email := by
  have looked : (run os).store.directory.byEmail email = _ := userByEmail_run os email
  rw [Recipient.resolve, looked, staffAt]
  cases found : (usersOf (run os).history).find? fun u => u.email = email with
  | none =>
    refine ⟨.address email, rfl, (List.any_eq_false.2 fun v hv => ?_).symm⟩
    have other : v.email ≠ email := by simpa using List.find?_eq_none.1 found v hv
    simp [other]
  | some u =>
    have stored := List.mem_of_find?_eq_some found
    have own : u.email = email := by simpa using List.find?_some found
    refine ⟨.account u.user, rfl, Bool.eq_iff_iff.2 ⟨fun staff => ?_, fun staff => ?_⟩⟩
    · exact List.any_eq_true.2 ⟨u, stored, decide_eq_true ⟨own, staff⟩⟩
    · obtain ⟨v, hv, here⟩ := List.any_eq_true.1 staff
      obtain ⟨same, staff⟩ := of_decide_eq_true here
      have one := find?_eq_some_of_mem ((users_run os).imp And.right) hv
      rw [same, found] at one
      cases one
      exact staff

def noticeOf (h : History) (x : Ticket) (entry : AuditEntry) (reporter : UserDetails)
    (recipient : String) : NoticeOptions where
  delimiter := Notice.delimiter
  header := Notice.header entry.action entry.changes
    (entry.changes.any fun change => change.fieldName == "branch")
  user := reporter.fullName
  changes := entry.changes.map (Notice.nameReporter reporter.fullName)
  ticketKey := x.key
  toStaff := staffAt h recipient
  attachments := false

theorem options_run (os : List Operation) (x : Ticket) (entry : AuditEntry) (recipient : String) :
    Notice.options (run os).store.directory entry.action x entry.changes recipient =
      match (usersOf (run os).history).find? fun u => u.user = x.reporter with
      | none => .error (.userNotFound x.reporter)
      | some u => .ok (noticeOf (run os).history x entry u recipient) := by
  obtain ⟨r, resolved, staff⟩ := resolve_run os recipient
  have looked : (run os).store.directory.details x.reporter = _ := userDetails_run os x.reporter
  rw [Notice.options, looked, resolved]
  cases (usersOf (run os).history).find? fun u => u.user = x.reporter with
  | none => rfl
  | some u =>
    simp only [noticeOf, ← staff, Notice.Shown.foldl_add_start, Notice.header_map]
    rfl

def previewIn (h : History) (key recipient : String) : Outcome Cli.Preview :=
  match (ticketsOf h).find? fun p => p.2.key = key with
  | none => .error (.ticketNotFound key)
  | some (id, x) =>
    match newest? (entriesAbout h ticketObject id) with
    | none => .error (.noChanges x.key)
    | some entry =>
      match (usersOf h).find? fun u => u.user = x.reporter with
      | none => .error (.userNotFound x.reporter)
      | some u =>
        .ok ⟨Notice.subject x, noticeOf h x entry u recipient, attachmentChanges h id⟩

theorem previewOf_eq {os : List Operation} (readable : IsReadable (run os).history)
    (key recipient : String) :
    Cli.Invocation.previewOf (run os).store key recipient =
      previewIn (run os).history key recipient := by
  rw [Cli.Invocation.previewOf, previewIn, ticket_eq readable]
  cases (ticketsOf (run os).history).find? fun p => p.2.key = key with
  | none => rfl
  | some p =>
    obtain ⟨id, x⟩ := p
    have log := logEntries_newest readable ticketObject id
    have attachments := ofAttachments_run readable
      ((attachmentsTo id (run os).history).map Attachment.wholeSeconds)
    rw [List.flatMap_map] at attachments
    dsimp only
    rcases log with ⟨none, log⟩ | ⟨entry, others, newest, log⟩
    · simp only [none, bind, Except.bind, readBack, log]
    · have options : Notice.options (run os).store.directory entry.wholeSeconds.action
          (readBack (run os).history id x) entry.wholeSeconds.changes recipient =
            match (usersOf (run os).history).find? fun u => u.user = x.reporter with
            | none => .error (.userNotFound x.reporter)
            | some u => .ok (noticeOf (run os).history x entry u recipient) :=
        options_run os _ entry.wholeSeconds recipient
      rw [newest]
      simp only [readBack] at options ⊢
      simp only [bind, Except.bind, log, EntityChanges.ofTicket, attachments, options]
      cases (usersOf (run os).history).find? fun u => u.user = x.reporter <;> rfl

/-- An entry about the ticket of a key, or about one of its attachments. -/
def Concerns (h : History) (key : String) (e : AuditEntry) : Prop :=
  ∃ p ∈ ticketsOf h, p.2.key = key ∧ (e.isAbout ticketObject p.1 ∨
    ∃ a ∈ attachmentsTo p.1 h, e.isAbout attachmentObject a.id)

section Change
variable {h : History} {e : AuditEntry} {n : Option Int64}

theorem entriesAbout_change {objectClass : String} {objectId : Int64}
    (other : ¬ e.isAbout objectClass objectId) :
    entriesAbout (h ++ [(.change e, n)]) objectClass objectId =
      entriesAbout h objectClass objectId := by
  rw [entriesAbout, entriesAbout, changesOf, changesOf, List.filterMap_append, List.map_append,
    List.filter_append]
  cases n <;> simp [other]

theorem previewIn_change {key recipient : String} (other : ¬ Concerns h key e) :
    previewIn (h ++ [(.change e, n)]) key recipient = previewIn h key recipient := by
  have tickets : ticketsOf (h ++ [(.change e, n)]) = ticketsOf h := by
    simp [ticketsOf]
  have users : usersOf (h ++ [(.change e, n)]) = usersOf h := by
    simp [usersOf]
  have attachments (id : Int64) : attachmentsTo id (h ++ [(.change e, n)]) = attachmentsTo id h := by
    simp [attachmentsTo]
  rw [previewIn, previewIn, tickets]
  cases found : (ticketsOf h).find? fun p => p.2.key = key with
  | none => rfl
  | some p =>
    have stored := List.mem_of_find?_eq_some found
    have own : p.2.key = key := by simpa using List.find?_some found
    have ticket : entriesAbout (h ++ [(.change e, n)]) ticketObject p.1 =
        entriesAbout h ticketObject p.1 :=
      entriesAbout_change fun about => other ⟨p, stored, own, .inl about⟩
    have files : attachmentChanges (h ++ [(.change e, n)]) p.1 = attachmentChanges h p.1 := by
      rw [attachmentChanges, attachmentChanges, attachments]
      refine List.flatMap_congr fun a ha => ?_
      rw [lastChanges, lastChanges,
        entriesAbout_change fun about => other ⟨p, stored, own, .inr ⟨a, ha, about⟩⟩]
    obtain ⟨id, x⟩ := p
    simp only [ticket, users, files, noticeOf, staffAt]

end Change

/-- A preview fails where there is no ticket of the key, where nothing was logged about the ticket, or
where its reporter is not known, in this order, and nowhere else. It shows the newest entry about the
ticket and about each of its attachments, and nothing else that was logged. -/
theorem previewOf_run {os : List Operation} (readable : ∀ o ∈ os, o.IsReadable)
    (key recipient : String) :
    let h := (run os).history
    let preview := Cli.Invocation.previewOf (run os).store key recipient
    ((∀ p ∈ ticketsOf h, p.2.key ≠ key) → preview = .error (.ticketNotFound key)) ∧
    (∀ id x, (id, x) ∈ ticketsOf h → x.key = key →
      (entriesAbout h ticketObject id = [] → preview = .error (.noChanges key)) ∧
      ∀ entry, newest? (entriesAbout h ticketObject id) = some entry →
        ((∀ u ∈ usersOf h, u.user ≠ x.reporter) → preview = .error (.userNotFound x.reporter)) ∧
        ∀ u ∈ usersOf h, u.user = x.reporter → preview = .ok
          ⟨Notice.subject x, noticeOf h x entry u recipient, attachmentChanges h id⟩) ∧
    ∀ e : AuditEntry, e.IsReadable → ¬ Concerns h key e →
      Cli.Invocation.previewOf (run (os ++ [.change e])).store key recipient = preview := by
  intro h preview
  have whole : preview = previewIn h key recipient :=
    previewOf_eq (isReadable_run readable) key recipient
  refine ⟨fun missing => ?_, fun id x stored own => ?_, fun e readableEntry other => ?_⟩
  · have none : (ticketsOf h).find? (fun p => p.2.key = key) = none :=
      List.find?_eq_none.2 fun p hp => by simpa using missing p hp
    rw [whole, previewIn, none]
  · subst own
    have found : (ticketsOf h).find? (fun p => p.2.key = x.key) = some (id, x) :=
      find?_eq_some_of_mem (f := fun p : Int64 × Ticket => p.2.key) (keys_run os) stored
    rw [whole, previewIn, found]
    dsimp only
    refine ⟨fun none => by rw [AuditEntry.newest?_eq_none_iff.2 none], fun entry newest => ?_⟩
    rw [newest]
    refine ⟨fun unknown => ?_, fun u known own => ?_⟩
    · have none : (usersOf h).find? (fun u => u.user = x.reporter) = none :=
        List.find?_eq_none.2 fun u hu => by simpa using unknown u hu
      dsimp only
      rw [none]
    · have reporter : (usersOf h).find? (fun u => u.user = x.reporter) = some u :=
        own ▸ find?_eq_some_of_mem ((users_run os).imp And.left) known
      dsimp only
      rw [reporter]
  · have all : ∀ o ∈ os ++ [.change e], o.IsReadable :=
      List.forall_mem_append.2 ⟨readable, List.forall_mem_singleton.2 readableEntry⟩
    rw [previewOf_eq (isReadable_run all), whole, run_append, List.foldl_cons, List.foldl_nil,
      Desk.step]
    split
    · exact previewIn_change other
    · rfl

namespace SharedNumber

def reporter : UserDetails := ⟨⟨.diamante, 7⟩, "reader@desk", "Reader"⟩

def ticket : Ticket := .fresh "HD-1" "Printer" reporter.user .epoch

def change (objectClass : String) (objectId version : Int64) (diffs : List FieldDiff) : AuditEntry :=
  ⟨objectClass, objectId, .update, version, .epoch, diffs⟩

def closed : AuditEntry := change ticketObject 1 3
  [⟨"status", .text "new", .text "closed"⟩, ⟨"reporter", .null, .text "diamante_7"⟩]

def scanned : AuditEntry := change attachmentObject 1 2 [⟨"size", .int 0, .list [.int 12, .null]⟩]

def other : AuditEntry := change attachmentObject 3 9 [⟨"size", .null, .int 1⟩]

def log : List Operation :=
  [.user reporter, .ticket ticket, .attachment 1 "log.txt" .epoch, .attachment 1 "photo.png" .epoch,
    .change (change ticketObject 1 1 []), .change closed, .change (change ticketObject 2 5 []),
    .change scanned, .change (change ticketObject 1 2 []), .change (change attachmentObject 1 1 [])]

theorem previewOf_closed :
    let preview : Cli.Preview := ⟨"[HD-1] Printer",
      { delimiter := Notice.delimiter, header := "Ticket was updated", user := "Reader",
        changes := [⟨"status", .text "new", .text "closed"⟩, ⟨"reporter", .null, .text "Reader"⟩],
        ticketKey := "HD-1", toStaff := false, attachments := false },
      [⟨"size", .int 0, .list [.int 12, .null]⟩]⟩
    Cli.Invocation.previewOf (run log).store "HD-1" "reader@desk" = .ok preview ∧
      Cli.Invocation.previewOf (run (log ++ [.change other])).store "HD-1" "reader@desk" =
        .ok preview := by
  intro preview
  have four : Time.Instant.epoch.HasFourDigitYear := by decide
  have entry (e : AuditEntry) (h : e.IsReadable) : (Operation.change e).IsReadable := h
  have readable : ∀ o ∈ log, o.IsReadable := by
    simp only [log, List.forall_mem_cons]
    exact ⟨trivial, ⟨by decide, four, four⟩, four, four, entry _ (by decide), entry _ (by decide),
      entry _ (by decide), entry _ (by decide), entry _ (by decide), entry _ (by decide),
      List.forall_mem_nil _⟩
  obtain ⟨-, found, unchanged⟩ := previewOf_run readable "HD-1" "reader@desk"
  have tickets : ticketsOf (run log).history = [(1, ticket)] := rfl
  have files : attachmentsTo 1 (run log).history =
      [⟨1, 1, "log.txt", .epoch⟩, ⟨2, 1, "photo.png", .epoch⟩] := rfl
  have apart : ∀ a ∈ attachmentsTo 1 (run log).history, ¬ other.isAbout attachmentObject a.id := by
    rw [files]
    decide
  have newest : newest? (entriesAbout (run log).history ticketObject 1) = some closed := rfl
  have users : usersOf (run log).history = [reporter] := rfl
  have shown : Cli.Invocation.previewOf (run log).store "HD-1" "reader@desk" = .ok preview :=
    ((found 1 ticket (tickets ▸ List.mem_cons_self) rfl).2 closed newest).2 reporter
      (users ▸ List.mem_cons_self) rfl
  refine ⟨shown, (unchanged other (by decide) ?_).trans shown⟩
  rintro ⟨p, stored, -, about⟩
  rw [tickets, List.mem_singleton] at stored
  subst stored
  rcases about with about | ⟨a, attached, about⟩
  · exact absurd about (by decide)
  · exact apart a attached about

end SharedNumber

end Store
end Helpdesk
