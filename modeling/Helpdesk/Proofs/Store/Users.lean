import Helpdesk.Proofs.Store.History
import Helpdesk.Proofs.Store.Lookup
import Helpdesk.Proofs.User

/-! Users are found again. At every point of a run a user is looked up by account and number or by
address, and what is found is what was stored (`userDetails_run`, `userByEmail_run`); no two users
share one of them (`users_run`). -/

namespace Helpdesk

namespace Store

def usersOf (h : History) : List UserDetails :=
  h.filterMap fun
    | (.user u, _) => some u
    | _ => none

/-- The row of a user under a number that nothing else knows of. -/
def userRow (p : Int64 × UserDetails) : Row := Schema.users.row p.1 (Operation.user p.2).cells

theorem listsUsers_run (os : List Operation) : ∃ (t : Table) (ps : List (Int64 × UserDetails)),
    (run os).store.Lists .users t (ps.map userRow) ∧
      ps.map Prod.snd = usersOf (run os).history := by
  refine run_induction (P := fun d => ∃ (t : Table) (ps : List (Int64 × UserDetails)),
    d.store.Lists .users t (ps.map userRow) ∧ ps.map Prod.snd = usersOf d.history) ?_ ?_ os
  · exact ⟨.empty .users, [], ⟨by decide, rfl, rfl⟩, rfl⟩
  · have other : ∀ schema ∈ [Schema.branches, .tickets, .attachments, .auditLog],
        sameName schema.name Schema.users.name = false := by decide
    rintro d o i s ⟨t, ps, lists, users⟩ inserted
    cases o with
    | user u =>
      have rows : (ps ++ [(i, u)]).map userRow =
          ps.map userRow ++ [Schema.users.row i (Operation.user u).cells] := List.map_append
      refine ⟨_, ps ++ [(i, u)], rows ▸ lists.insert inserted, ?_⟩
      rw [List.map_append, users, usersOf, usersOf, List.filterMap_append]
      rfl
    | branch _ | ticket _ | attachment _ _ _ | change _ =>
      refine ⟨t, ps, lists.insert_other (other _ (by simp [Operation.schema])) inserted, ?_⟩
      rw [users, usersOf, usersOf, List.filterMap_append]
      exact (List.append_nil _).symm

section Reading
variable {t : Table} {ps : List (Int64 × UserDetails)}

theorem cellOf_userRow (schema : t.schema = .users) (p : Int64 × UserDetails) :
    ∀ c ∈ (Operation.user p.2).cells, t.cellOf (userRow p) c.1 = c.2 := by
  simp only [Operation.cells, List.forall_mem_cons, Table.cellOf_eq schema]
  exact ⟨rfl, rfl, rfl, rfl, List.forall_mem_nil _⟩

theorem prepare_detailsLookup (u : User) : ∃ p, (detailsLookup u).prepare (.empty .users) = .ok p ∧
    p.keys = [] ∧ (∀ d, p.select (userRow d) =
      [("email", textCell d.2.email), ("full_name", textCell d.2.fullName)]) ∧
    ∀ d, p.admits (userRow d) = decide (d.2.user = u) := by
  refine ⟨_, rfl, rfl, fun d => rfl, fun d => ?_⟩
  have sameKind := equals_text (c := Schema.textColumn "kind") (r := userRow d) (n := 0)
    (a := d.2.user.account.name) rfl rfl u.account.name
  have sameId := equals_int (c := Schema.integerColumn "id") (r := userRow d) (n := 1)
    (i := d.2.user.id) rfl rfl u.id
  simp [Prepared.admits, sameKind, sameId, User.eq_iff, Account.name_inj]

theorem prepare_emailLookup (email : String) :
    ∃ p, (emailLookup email).prepare (.empty .users) = .ok p ∧ p.keys = [] ∧
      (∀ d, p.select (userRow d) =
        [("kind", textCell d.2.user.account.name), ("id", .int d.2.user.id)]) ∧
      ∀ d, p.admits (userRow d) = decide (d.2.email = email) := by
  refine ⟨_, rfl, rfl, fun d => rfl, fun d => ?_⟩
  have same := equals_text (c := Schema.textColumn "email") (r := userRow d) (n := 2)
    (a := d.2.email) rfl rfl email
  simp [Prepared.admits, same]

end Reading

section Run
variable (os : List Operation)

theorem users_run : (usersOf (run os).history).Pairwise fun a b =>
    a.user ≠ b.user ∧ a.email ≠ b.email := by
  obtain ⟨t, ps, lists, users⟩ := listsUsers_run os
  have distinct := distinct_run os t (List.mem_of_find?_eq_some lists.table)
  rw [Table.Distinct, lists.rows, List.pairwise_map] at distinct
  rw [← users, List.pairwise_map]
  refine distinct.imp fun {p q} apart => ?_
  have cells (p : Int64 × UserDetails) := cellOf_userRow lists.schema p
  simp only [Operation.cells, List.forall_mem_cons] at cells
  have kind (p : Int64 × UserDetails) := (cells p).1
  have id (p : Int64 × UserDetails) := (cells p).2.1
  have email (p : Int64 × UserDetails) := (cells p).2.2.1
  have uniques : ["kind", "id"] ∈ t.schema.uniques ∧ ["email"] ∈ t.schema.uniques := by
    rw [lists.schema]
    decide
  refine ⟨fun same => ?_, fun same => ?_⟩
  · have shared := apart _ uniques.1
    have sameId : Table.sameCell (.int q.2.user.id) (.int q.2.user.id) = true :=
      (compareInts_beq_eq _ _).trans (decide_eq_true rfl)
    simp only [Table.sameKey, List.all_cons, List.all_nil, Bool.and_true, kind, id, sameCell_text,
      same, sameId, decide_true, Bool.true_eq_false] at shared
  · have shared := apart _ uniques.2
    simp only [Table.sameKey, List.all_cons, List.all_nil, Bool.and_true, email, sameCell_text,
      same, decide_true, Bool.true_eq_false] at shared

theorem userDetails_run (u : User) : (run os).store.userDetails u =
    match (usersOf (run os).history).find? fun d => d.user = u with
    | some d => .ok d
    | none => .error (.userNotFound u) := by
  obtain ⟨t, ps, lists, users⟩ := listsUsers_run os
  obtain ⟨p, prepared, unsorted, selects, admits⟩ := prepare_detailsLookup u
  rw [userDetails, first_of_lists lists rfl prepared unsorted admits, ← users, List.find?_map,
    Function.comp_def]
  cases found : ps.find? fun d => d.2.user = u with
  | none => rfl
  | some d =>
    have own : d.2.user = u := by simpa using List.find?_some found
    dsimp only
    rw [selects, ← own]
    rfl

theorem userByEmail_run (email : String) : (run os).store.userByEmail email =
    .ok (((usersOf (run os).history).find? fun d => d.email = email).map UserDetails.user) := by
  obtain ⟨t, ps, lists, users⟩ := listsUsers_run os
  obtain ⟨p, prepared, unsorted, selects, admits⟩ := prepare_emailLookup email
  rw [userByEmail, first_of_lists lists rfl prepared unsorted admits, ← users, List.find?_map,
    Function.comp_def]
  cases ps.find? fun d => d.2.email = email with
  | none => rfl
  | some d =>
    have kind : textAt [("kind", textCell d.2.user.account.name), ("id", .int d.2.user.id)] 0 =
        .ok d.2.user.account.name := rfl
    have account : known Account.ofName? d.2.user.account.name "kind" = .ok d.2.user.account := by
      rw [known, Account.ofName?_name]
    dsimp only
    rw [selects, kind, ok_bind, account]
    rfl

end Run
end Store
end Helpdesk
