import Helpdesk.Proofs.Store.Filled

/-! Runs of the help desk. Whatever users, branches, tickets, attachments and changes are stored one
after another, the refused ones included, a table has a row for each operation on it that succeeded, in
the order in which they came (`lists_run`). -/

namespace Helpdesk.Store

inductive Operation
  | user (u : UserDetails)
  | branch (name : String)
  | ticket (t : Ticket)
  | attachment (ticketId : Int64) (filename : String) (createdAt : Time.Instant)
  | change (e : AuditEntry)

def perform (s : Store) : Operation → Outcome (Option Int64 × Store)
  | .user u => (s.createUser u).map fun s => (none, s)
  | .branch name => (s.createBranch name).map fun (i, s) => (some i, s)
  | .ticket t => (s.createTicket t).map fun (i, s) => (some i, s)
  | .attachment ticketId filename createdAt =>
    (s.addAttachment ticketId filename createdAt).map fun (i, s) => (some i, s)
  | .change e => (s.logChange e).map fun (i, s) => (some i, s)

abbrev History := List (Operation × Option Int64)

structure Desk where
  store : Store
  history : History

namespace Desk

/-- An operation that is refused changes nothing. -/
def step (d : Desk) (o : Operation) : Desk :=
  match d.store.perform o with
  | .ok (returned, s) => ⟨s, d.history ++ [(o, returned)]⟩
  | .error _ => d

end Desk

def run (os : List Operation) : Desk := os.foldl Desk.step ⟨fresh, []⟩

namespace Operation

def schema : Operation → Schema
  | user _ => .users
  | branch _ => .branches
  | ticket _ => .tickets
  | attachment _ _ _ => .attachments
  | change _ => .auditLog

def cells : Operation → List (String × Cell)
  | user u => [("kind", textCell u.user.account.name), ("id", .int u.user.id),
      ("email", textCell u.email), ("full_name", textCell u.fullName)]
  | branch name => [("name", textCell name)]
  | ticket t => ticketCells t
  | attachment ticketId filename createdAt => [("ticket_id", .int ticketId),
      ("filename", textCell filename), ("created_at", momentCell createdAt)]
  | change e => [("object_class", textCell e.objectClass), ("object_id", .int e.objectId),
      ("action", textCell e.action.name), ("version", .int e.version),
      ("logged_at", momentCell e.loggedAt),
      ("data", textCell (AuditEntry.diffsDocument e.diffs).toJson)]

def returned (i : Int64) : Operation → Option Int64
  | user _ => none
  | _ => some i

theorem schema_mem_all (o : Operation) : o.schema ∈ Schema.all := by
  cases o <;> simp [schema, Schema.all]

end Operation

theorem perform_eq_ok {s s' : Store} {o : Operation} {n : Option Int64} :
    s.perform o = .ok (n, s') ↔
      ∃ i, s.insert o.schema.name o.cells = .ok (i, s') ∧ o.returned i = n := by
  constructor
  · intro h
    cases o with
    | user u =>
      obtain ⟨s₁, created, same⟩ := map_eq_ok.1 h
      cases same
      obtain ⟨⟨i, s₂⟩, inserted, rfl⟩ := map_eq_ok.1 (outcome_eq_ok.1 created)
      exact ⟨i, inserted, rfl⟩
    | branch _ | ticket _ | attachment _ _ _ | change _ =>
      obtain ⟨⟨i, s₁⟩, created, same⟩ := map_eq_ok.1 h
      cases same
      exact ⟨i, outcome_eq_ok.1 created, rfl⟩
  · rintro ⟨i, inserted, rfl⟩
    cases o with
    | user u =>
      exact map_eq_ok.2 ⟨s', outcome_eq_ok.2 (map_eq_ok.2 ⟨(i, s'), inserted, rfl⟩), rfl⟩
    | branch _ | ticket _ | attachment _ _ _ | change _ =>
      exact map_eq_ok.2 ⟨(i, s'), outcome_eq_ok.2 inserted, rfl⟩

theorem run_append (os more : List Operation) : run (os ++ more) = more.foldl Desk.step (run os) :=
  List.foldl_append

/-- What is true at first and stays true under every operation that succeeds is true of every run. -/
theorem run_induction {P : Desk → Prop} (start : P ⟨fresh, []⟩)
    (step : ∀ d o i s, P d → d.store.insert o.schema.name o.cells = .ok (i, s) →
      P ⟨s, d.history ++ [(o, o.returned i)]⟩) (os : List Operation) : P (run os) := by
  have stays (d : Desk) (o : Operation) (h : P d) : P (d.step o) := by
    rw [Desk.step]
    split
    next n s performed =>
      obtain ⟨i, inserted, rfl⟩ := perform_eq_ok.1 performed
      exact step d o i s h inserted
    next => exact h
  have fold (os : List Operation) (d : Desk) (h : P d) : P (os.foldl Desk.step d) := by
    induction os generalizing d with
    | nil => exact h
    | cons o os ih => exact ih (d.step o) (stays d o h)
  exact fold os _ start

theorem history_prefix (os more : List Operation) :
    (run os).history <+: (run (os ++ more)).history := by
  rw [run_append]
  generalize run os = d
  induction more generalizing d with
  | nil => exact List.prefix_rfl
  | cons o more ih =>
    refine List.IsPrefix.trans ?_ (ih (d.step o))
    rw [Desk.step]
    split
    · exact List.prefix_append _ _
    · exact List.prefix_rfl

theorem mem_history {before later : List Operation} {o : Operation} {n : Option Int64} {s : Store}
    (h : (run before).store.perform o = .ok (n, s)) :
    (o, n) ∈ (run (before ++ o :: later)).history := by
  have done : (run (before ++ [o])).history = (run before).history ++ [(o, n)] := by
    rw [run_append, List.foldl_cons, List.foldl_nil, Desk.step, h]
  have kept := history_prefix (before ++ [o]) later
  rw [List.append_assoc, List.singleton_append, done] at kept
  exact kept.subset (by simp)

theorem sound_run (os : List Operation) : (run os).store.Sound :=
  run_induction (P := fun d => d.store.Sound) sound_fresh
    (fun _ _ _ _ h inserted => h.insert inserted) os

theorem distinct_run (os : List Operation) : (run os).store.Distinct :=
  run_induction (P := fun d => d.store.Distinct) distinct_fresh
    (fun _ _ _ _ h inserted => h.insert inserted) os

theorem numbered_run (os : List Operation) : (run os).store.Numbered :=
  run_induction (P := fun d => d.store.Numbered) numbered_fresh
    (fun _ _ _ _ h inserted => h.insert inserted) os

def recordedRows (schema : Schema) (h : History) : List Row :=
  h.filterMap fun (o, n) => if o.schema = schema then n.map fun i => schema.row i o.cells else none

theorem sameName_schemas :
    ∀ a ∈ Schema.all, ∀ b ∈ Schema.all, a ≠ b → sameName a.name b.name = false := by decide

theorem lists_run (os : List Operation) (schema : Schema) (h : schema ∈ Schema.all)
    (numbered : schema ≠ .users) :
    ∃ t, (run os).store.Lists schema t (recordedRows schema (run os).history) := by
  refine run_induction
    (P := fun d => ∃ t, d.store.Lists schema t (recordedRows schema d.history)) ?_ ?_ os
  · have tables : ∀ schema ∈ Schema.all, fresh.table? schema.name = some (.empty schema) := by decide
    exact ⟨_, tables schema h, rfl, rfl⟩
  · intro d o i s ⟨t, lists⟩ inserted
    by_cases own : o.schema = schema
    · have number : o.returned i = some i := by
        cases o with
        | user u => exact absurd own.symm numbered
        | _ => rfl
      have rows : recordedRows schema (d.history ++ [(o, o.returned i)]) =
          recordedRows schema d.history ++ [schema.row i o.cells] := by
        simp [recordedRows, own, number]
      rw [own] at inserted
      exact ⟨_, rows ▸ lists.insert inserted⟩
    · have other : sameName o.schema.name schema.name = false :=
        sameName_schemas _ o.schema_mem_all _ h own
      have rows : recordedRows schema (d.history ++ [(o, o.returned i)]) =
          recordedRows schema d.history := by
        simp [recordedRows, own]
      exact ⟨t, rows ▸ lists.insert_other other inserted⟩

end Helpdesk.Store
