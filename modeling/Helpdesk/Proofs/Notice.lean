import Helpdesk.Notice
import Helpdesk.Proofs.Outcome

/-! What the template of a message is filled with. The changes come as they were logged, but for a new
reporter, who is shown by name; a ticket was moved when its branch is all that changed, however the other
changes are repeated and ordered (`options_rewrite_reporter_only`). -/

namespace Helpdesk

/-- A change as it is shown where the reporter has a name: all of it stays, but for a new reporter. -/
structure Change.IsShownAs (fullName : String) (before after : Change) : Prop where
  fieldName : after.fieldName = before.fieldName
  old : after.old = before.old
  new : after.new = if before.fieldName = "reporter" then .text fullName else before.new

namespace Notice

def nameReporter (fullName : String) (change : Change) : Change :=
  if change.fieldName = "reporter" then change.withNew (.text fullName) else change

theorem isShownAs_nameReporter (fullName : String) (change : Change) :
    change.IsShownAs fullName (nameReporter fullName change) := by
  rw [nameReporter]
  split
  next reporter => exact ⟨rfl, rfl, (if_pos reporter).symm⟩
  next other => exact ⟨rfl, rfl, (if_neg other).symm⟩

namespace Shown
variable (fullName : String) (s : Shown)

/-- One round of the loop shows one more change and never takes the flag back. -/
theorem add_eq (change : Change) : s.add fullName change =
    ⟨s.changes ++ [nameReporter fullName change],
      s.branchChanged || change.fieldName == "branch"⟩ := by
  rw [add, nameReporter]
  split
  next branch => simp [branch]
  next reporter => simp [reporter]
  next branch reporter =>
    have notBranch : change.fieldName ≠ "branch" := branch
    have notReporter : change.fieldName ≠ "reporter" := reporter
    simp [notBranch, notReporter]

/-- After the loop every change is shown in its place, and the flag tells of the branch. -/
theorem foldl_add (changes : List Change) : changes.foldl (add fullName) s =
    ⟨s.changes ++ changes.map (nameReporter fullName),
      s.branchChanged || changes.any fun change => change.fieldName == "branch"⟩ := by
  induction changes generalizing s with
  | nil => simp
  | cons change changes ih =>
    rw [List.foldl_cons, ih, add_eq]
    simp [Bool.or_assoc]

theorem foldl_add_start (changes : List Change) : changes.foldl (add fullName) .start =
    ⟨changes.map (nameReporter fullName),
      changes.any fun change => change.fieldName == "branch"⟩ :=
  foldl_add fullName .start changes

end Shown

theorem actionText_ne_movedText (action : Action) : actionText action ≠ movedText := by
  cases action <;> decide

theorem header_eq (action : Action) (changes : List Change) (branchChanged : Bool) :
    header action changes branchChanged = movedText ∨
      header action changes branchChanged = actionText action :=
  ite_eq_or_eq _ _ _

theorem header_eq_movedText_iff {action : Action} {changes : List Change} {branchChanged : Bool} :
    header action changes branchChanged = movedText ↔ branchChanged ∧ changes.length = 1 := by
  have other := actionText_ne_movedText action
  rw [header]
  split
  next moved => simpa using moved
  next stays => simpa [other] using stays

theorem header_map (action : Action) (changes : List Change) (branchChanged : Bool)
    (f : Change → Change) :
    header action (changes.map f) branchChanged = header action changes branchChanged := by
  rw [header, header, List.length_map]

/-- One change of the branch has no other beside it, not even a second one of the branch. -/
theorem any_branch_and_length_eq_one_iff {changes : List Change} :
    (changes.any (fun change => change.fieldName == "branch") ∧ changes.length = 1) ↔
      ∃ change, changes = [change] ∧ change.fieldName = "branch" := by
  match changes with
  | [] => simp
  | [change] => simp
  | first :: second :: rest => simp

end Notice

namespace Recipient
variable {users : UserDirectory} {email : String}

theorem isStaff_iff_of_resolve {r : Recipient} (h : resolve users email = .ok r) :
    r.isStaff ↔ ∃ user, users.byEmail email = .ok (some user) ∧ user.account = .oro := by
  obtain ⟨account, looked, made⟩ := bind_eq_ok.1 h
  rw [looked]
  cases account with
  | none =>
    cases made
    exact iff_of_false nofun (by simp)
  | some user =>
    cases made
    simp [isStaff, User.isStaff]

theorem fault?_resolve (users : UserDirectory) (email : String) :
    fault? (resolve users email) = fault? (users.byEmail email) := by
  rw [resolve]
  refine (fault?_bind (users.byEmail email) fun account => ?_).trans Option.or_none
  cases account <;> rfl

end Recipient

namespace Notice
variable (users : UserDirectory) (action : Action) (ticket : Ticket) (changes : List Change)
  (recipient : String)

theorem fault?_options : fault? (options users action ticket changes recipient) =
    (fault? (users.details ticket.reporter)).or (fault? (users.byEmail recipient)) := by
  refine fault?_bind _ fun reporter => ?_
  rw [← Recipient.fault?_resolve]
  exact fault?_bind_ok _ _

/-- Only the new value of a changed reporter is rewritten, to the name of the ticket's reporter. A ticket
was moved just when the branch is its one change, and the recipient is staff just when the address is that
of a staff account. Nothing but the two lookups can fail. -/
theorem options_rewrite_reporter_only :
    (∀ o, options users action ticket changes recipient = .ok o →
      (∃ reporter, users.details ticket.reporter = .ok reporter ∧
        List.Forall₂ (Change.IsShownAs reporter.fullName) changes o.changes) ∧
      (o.header = movedText ∨ o.header = actionText action) ∧
      (o.header = movedText ↔ ∃ change, changes = [change] ∧ change.fieldName = "branch") ∧
      (o.toStaff ↔ ∃ user, users.byEmail recipient = .ok (some user) ∧ user.account = .oro)) ∧
    ((∃ f, options users action ticket changes recipient = .error f) ↔
      (∃ f, users.details ticket.reporter = .error f) ∨ ∃ f, users.byEmail recipient = .error f) := by
  constructor
  · intro o made
    obtain ⟨reporter, looked, made⟩ := bind_eq_ok.1 made
    obtain ⟨r, resolved, made⟩ := bind_eq_ok.1 made
    cases made
    simp only [Shown.foldl_add_start]
    refine ⟨⟨reporter, looked, ?_⟩, header_eq _ _ _, ?_, Recipient.isStaff_iff_of_resolve resolved⟩
    · exact List.forall₂_map_right_iff.2
        (List.forall₂_same.2 fun change _ => isShownAs_nameReporter reporter.fullName change)
    · rw [header_map, header_eq_movedText_iff, any_branch_and_length_eq_one_iff]
  · rw [← isSome_fault?_iff, ← isSome_fault?_iff, ← isSome_fault?_iff, fault?_options,
      Option.isSome_or, Bool.or_eq_true]

end Notice

namespace Reassigned

def users : UserDirectory where
  details u := if u = ⟨.diamante, 4⟩ then .ok ⟨u, "ann@example.com", "Ann Customer"⟩
    else .error (.userNotFound u)
  byEmail email := .ok (if email = "sam@helpdesk.test" then some ⟨.oro, 1⟩ else none)

def ticket : Ticket := .fresh "SUP-1" "Printer jammed" ⟨.diamante, 4⟩ .epoch

def changes : List Change :=
  [⟨"branch", .text "North", .text "South"⟩, ⟨"reporter", .null, .text "diamante_4"⟩,
    ⟨"branch", .text "South", .text "East"⟩]

/-- The reporter is named, the ticket was updated and not moved, and the message goes to staff. -/
theorem options_reassigned : ∃ o,
    Notice.options users .update ticket changes "sam@helpdesk.test" = .ok o ∧
    List.Forall₂ (Change.IsShownAs "Ann Customer") changes o.changes ∧
    o.header = "Ticket was updated" ∧ o.toStaff := by
  obtain ⟨shown, -⟩ :=
    Notice.options_rewrite_reporter_only users .update ticket changes "sam@helpdesk.test"
  obtain ⟨⟨reporter, looked, rewritten⟩, either, moved, staff⟩ := shown _ rfl
  cases looked
  refine ⟨_, rfl, rewritten, either.resolve_left fun header => ?_, staff.2 ⟨_, rfl, rfl⟩⟩
  obtain ⟨change, single, -⟩ := moved.1 header
  cases single

end Reassigned
end Helpdesk
