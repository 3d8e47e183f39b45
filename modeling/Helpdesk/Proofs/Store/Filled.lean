import Helpdesk.Proofs.Store.Rows
import Helpdesk.Proofs.Store.Selection
import Helpdesk.Store.Desk

/-! Databases that are filled. However tickets, users, branches, attachments and changes are stored
one after another, the table of tickets has one row for each ticket that was stored, in the order in
which they came (`Filled.keeps`). -/

namespace Helpdesk.Store

/-- The databases that operations make out of an empty one, with the tickets stored in them and the
numbers that these were given. An operation that is refused changes nothing. -/
inductive Filled : Store → List (Int64 × Ticket) → Prop
  | fresh : Filled fresh []
  | user {s s' stored u} : Filled s stored → s.createUser u = .ok s' → Filled s' stored
  | branch {s s' stored name i} : Filled s stored →
      s.createBranch name = .ok (i, s') → Filled s' stored
  | ticket {s s' stored t i} : Filled s stored → s.createTicket t = .ok (i, s') →
      Filled s' (stored ++ [(i, t)])
  | attachment {s s' stored ticketId filename createdAt i} : Filled s stored →
      s.addAttachment ticketId filename createdAt = .ok (i, s') → Filled s' stored
  | change {s s' stored e i} : Filled s stored → s.logChange e = .ok (i, s') → Filled s' stored

def ticketCells (t : Ticket) : List (String × Cell) :=
  [("key", textCell t.key), ("subject", textCell t.subject),
    ("description", .ofOption textCell t.description), ("status", textCell t.status.name),
    ("priority", textCell t.priority), ("source", textCell t.source.name),
    ("branch", .ofOption .int t.branch), ("reporter", textCell t.reporter.identifier),
    ("assignee", .ofOption .int t.assignee), ("created_at", momentCell t.createdAt),
    ("updated_at", momentCell t.updatedAt)]

theorem createTicket_eq (s : Store) (t : Ticket) :
    s.createTicket t = outcome (s.insert "tickets" (ticketCells t)) := rfl

def ticketRow (p : Int64 × Ticket) : Row :=
  ⟨p.1, (Table.empty Schema.tickets).newCells p.1 (ticketCells p.2)⟩

structure Keeps (s : Store) (t : Table) (stored : List (Int64 × Ticket)) : Prop where
  table : s.table? "tickets" = some t
  schema : t.schema = Schema.tickets
  rows : t.rows = stored.map ticketRow

section Keeps
variable {s s' : Store} {t : Table} {stored : List (Int64 × Ticket)}

theorem keeps_iff_lists : s.Keeps t stored ↔ s.Lists Schema.tickets t (stored.map ticketRow) :=
  ⟨fun h => ⟨h.table, h.schema, h.rows⟩, fun h => ⟨h.table, h.schema, h.rows⟩⟩

theorem Keeps.insert_other (h : s.Keeps t stored) {name : String}
    {assigned : List (String × Cell)} {i : Int64}
    (other : sameName name "tickets" = false) (hi : s.insert name assigned = .ok (i, s')) :
    s'.Keeps t stored :=
  keeps_iff_lists.2 ((keeps_iff_lists.1 h).insert_other other hi)

theorem Keeps.ticket (h : s.Keeps t stored) {x : Ticket} {i : Int64}
    (hi : s.createTicket x = .ok (i, s')) :
    ∃ t', s'.Keeps t' (stored ++ [(i, x)]) := by
  have rows : (stored ++ [(i, x)]).map ticketRow =
      stored.map ticketRow ++ [Schema.tickets.row i (ticketCells x)] := List.map_append
  rw [createTicket_eq] at hi
  have lists := (keeps_iff_lists.1 h).insert (outcome_eq_ok.1 hi)
  exact ⟨_, keeps_iff_lists.2 (rows ▸ lists)⟩

theorem Filled.keeps (h : s.Filled stored) : s.Sound ∧ ∃ t, s.Keeps t stored := by
  induction h with
  | fresh => exact ⟨sound_fresh, _, rfl, rfl, rfl⟩
  | user _ created ih =>
    obtain ⟨sound, t, keeps⟩ := ih
    obtain ⟨⟨i, s'⟩, inserted, rfl⟩ := map_eq_ok.1 (outcome_eq_ok.1 created)
    exact ⟨sound.insert inserted, t, keeps.insert_other rfl inserted⟩
  | ticket _ created ih =>
    obtain ⟨sound, t, keeps⟩ := ih
    exact ⟨sound.insert (outcome_eq_ok.1 created), keeps.ticket created⟩
  | branch _ created ih | attachment _ created ih | change _ created ih =>
    obtain ⟨sound, t, keeps⟩ := ih
    have inserted := outcome_eq_ok.1 created
    exact ⟨sound.insert inserted, t, keeps.insert_other rfl inserted⟩

theorem Keeps.nodup (h : s.Keeps t stored) (sound : s.Sound) : (stored.map Prod.fst).Nodup := by
  have rows := nodup_of_ordered (sound.ordered h.table)
  rw [h.rows, List.map_map] at rows
  exact rows

end Keeps
end Helpdesk.Store
