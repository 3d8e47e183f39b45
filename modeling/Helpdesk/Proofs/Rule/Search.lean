import Helpdesk.Proofs.Rule.Single
import Helpdesk.Proofs.Store.Ticket
import Helpdesk.Proofs.Text.Pattern

/-! Rules that search for branches. The term is put between two signs for any text and compared with the name
of the branch beside a ticket, so the rule finds the tickets whose branch the pattern describes, and its
negation those whose branch it does not; a ticket of no branch is found by neither (`selects_of_branch`).
Only for terms without a wild character does the pattern describe the names that contain the term. -/

namespace Helpdesk
open Store Text.Pattern

namespace Store

def branchesOf (h : History) : List (Int64 × String) :=
  h.filterMap fun
    | (.branch name, some i) => some (i, name)
    | _ => none

def branchRow (b : Int64 × String) : Row := Schema.branches.row b.1 (Operation.branch b.2).cells

theorem recordedRows_branches (h : History) :
    recordedRows .branches h = (branchesOf h).map branchRow := by
  rw [recordedRows, branchesOf, List.map_filterMap]
  refine List.filterMap_congr fun e _ => ?_
  obtain ⟨o, n⟩ := e
  cases o <;> cases n <;> rfl

def branchOf? (h : History) (x : Ticket) : Option (Int64 × String) :=
  (branchesOf h).find? fun b => x.branch = some b.1

section Branch
variable {t u : Table} {h : History}

theorem cellIn_branch (schema : t.schema = .tickets) (p : Int64 × Ticket) :
    t.cellIn (some (ticketRow p)) "branch" = (.integer, .ofOption .int p.2.branch) := by
  rw [Table.cellIn, schema]
  change (Affinity.integer, (Cell.ofOption Cell.int p.2.branch).stored .integer) = _
  cases p.2.branch <;> rfl

theorem cellIn_branchRow (schema : u.schema = .branches) (b : Int64 × String) :
    u.cellIn (some (branchRow b)) "id" = (.integer, .int b.1) ∧
      u.cellIn (some (branchRow b)) "name" = (.text, .text b.2) := by
  rw [Table.cellIn, Table.cellIn, schema]
  exact ⟨rfl, rfl⟩

theorem numbers_branchesOf {s : Store} (lists : s.Lists .branches u (recordedRows .branches h))
    (sound : s.Sound) : (branchesOf h).Pairwise fun a b => a.1 ≠ b.1 := by
  have rows := nodup_of_ordered (sound.ordered lists.table)
  rw [lists.rows, recordedRows_branches, List.map_map] at rows
  exact List.pairwise_map.1 rows

theorem partners_branch (tickets : t.schema = .tickets) (branches : u.schema = .branches)
    (rows : u.rows = (branchesOf h).map branchRow)
    (numbers : (branchesOf h).Pairwise fun a b => a.1 ≠ b.1) (p : Int64 × Ticket) :
    partners t u "branch" "id" (ticketRow p) = ((branchOf? h p.2).map branchRow).toList := by
  have belongs (b : Int64 × String) :
      (Cell.compareTruth .eq (u.cellIn (some (branchRow b)) "id").1
        (t.cellIn (some (ticketRow p)) "branch").1 (u.cellIn (some (branchRow b)) "id").2
        (t.cellIn (some (ticketRow p)) "branch").2 == some true) =
      decide (p.2.branch = some b.1) := by
    rw [(cellIn_branchRow branches b).1, cellIn_branch tickets]
    cases p.2.branch with
    | none => rfl
    | some i =>
      have compared : Cell.compareTruth .eq .integer .integer (.int b.1) (.int i) =
        some (compare b.1.toInt i.toInt == .eq) := rfl
      rw [Cell.ofOption, compared, compareInts_beq_eq]
      simp [eq_comm]
  rw [partners, rows, List.filter_map, branchOf?]
  simp only [Function.comp_def, belongs]
  cases found : (branchesOf h).find? fun b => p.2.branch = some b.1 with
  | none =>
    rw [List.filter_eq_nil_iff.2 (List.find?_eq_none.1 found)]
    rfl
  | some a =>
    have own := List.find?_some found
    rw [decide_eq_true_eq] at own
    have one := filter_eq_singleton numbers (List.mem_of_find?_eq_some found)
    simp only [own, Option.some.injEq, eq_comm (a := a.1), one]
    rfl

end Branch
end Store

def Association.branches : Association := ⟨"branches", "id", "name"⟩

def branchTest (op : Operator) (term : String) : Test :=
  .compare (.joined "branch" .branches) op (.text (Strategy.containing term))

section Search
variable {s : Store} {t u : Table} {h : History} {now : Time.Instant} {op : Operator} {term : String}

theorem term_search (search : op = .like ∨ op = .notLike) {g : Group}
    (asks : g.Asks "branch" op (.text term)) : ∃ d, g.IsOnly d ∧
      (Compiler.helpdesk now).term (Compiler.tickets now) d = .ok (.test (branchTest op term)) := by
  have metadata : (Compiler.tickets now).metadata "branch" = .ok ⟨"branch", .association⟩ := rfl
  have allowed : FieldType.association.allows op := by
    rcases search with rfl | rfl <;> rfl
  have shaped : Condition.resolveValue "branch" op .association (some (.text term)) =
      .ok (.text term) := by
    rcases search with rfl | rfl <;> rfl
  obtain ⟨d, only, resolved⟩ := Compiler.resolve_of_asks rfl metadata allowed shaped asks
  refine ⟨d, only, bind_eq_ok.2 ⟨_, resolved, bind_eq_ok.2 ⟨_, ?_, rfl⟩⟩⟩
  rcases search with rfl | rfl <;> rfl

theorem runs_search (tickets : t.schema = .tickets) (table : s.table? "branches" = some u)
    (branches : u.schema = .branches) : (Plan.test (branchTest op term)).Runs s t := by
  have there : Site.IsThere s t (.joined "branch" .branches) :=
    ⟨u, table, by rw [branches]; rfl⟩
  refine Plan.runs_test ⟨?_, ?_, ?_⟩ fun site hs => List.mem_singleton.1 hs ▸ there
  · exact fun site hs => List.mem_singleton.1 hs ▸ rfl
  · intro field a op' value same
    cases same
    exact ⟨by decide, by rw [tickets]; rfl, u, table, by rw [branches]; rfl⟩
  · intro value hv item hi
    cases hv
    exact List.mem_singleton.1 hi ▸ rfl

section Filled
variable (keeps : s.Keeps t (ticketsOf h)) (lists : s.Lists .branches u (recordedRows .branches h))
  (sound : s.Sound)
include keeps lists sound

theorem partners_search (p : Int64 × Ticket) :
    partners t u "branch" "id" (ticketRow p) = ((branchOf? h p.2).map branchRow).toList :=
  partners_branch keeps.schema lists.schema (lists.rows.trans (recordedRows_branches h))
    (numbers_branchesOf lists sound) p

theorem joinsAtMostOne_search : (Plan.test (branchTest op term)).JoinsAtMostOne s t := by
  intro field a op' value hl u' table row hr
  cases List.mem_singleton.1 hl
  obtain rfl : u = u' := Option.some.inj (lists.table.symm.trans table)
  rw [keeps.rows] at hr
  obtain ⟨p, -, rfl⟩ := List.mem_map.1 hr
  rw [Association.branches, partners_search keeps lists sound p]
  cases branchOf? h p.2 with
  | none => exact Nat.zero_le 1
  | some b => exact le_rfl

theorem truth_search (p : Int64 × Ticket) :
    (branchTest op term).truth s t (ticketRow p) = (branchOf? h p.2).bind fun b =>
      Cell.compareTruth op .text .none (.text b.2) (.text (Strategy.containing term)) := by
  have beside := partners_search keeps lists sound p
  have table : s.table? Association.branches.table = some u := lists.table
  rw [branchTest, Test.truth, Site.cell, table]
  simp only [Association.branches, beside]
  cases branchOf? h p.2 with
  | none =>
    have missing : u.cellIn none "name" = (.text, .null) := by
      rw [Table.cellIn, lists.schema]
      rfl
    rw [Option.map_none, Option.toList_none, List.head?_nil, missing]
    cases op <;> rfl
  | some b =>
    rw [Option.map_some, Option.toList_some, List.head?_cons, (cellIn_branchRow lists.schema b).2]
    rfl

end Filled

theorem compareTruth_like (pattern text : String) :
    Cell.compareTruth .like .text .none (.text text) (.text pattern) =
      some (decide (DescribesText pattern text)) ∧
    Cell.compareTruth .notLike .text .none (.text text) (.text pattern) =
      some (decide (¬ DescribesText pattern text)) := by
  have same : matchesText pattern text = decide (DescribesText pattern text) := by
    rw [Bool.eq_iff_iff, decide_eq_true_iff, matchesText_iff]
  rw [decide_not, ← same]
  exact ⟨rfl, rfl⟩

/-- After any operations, a search for branches finds the tickets that have a branch whose name the term
describes between any texts, and a negated one those that have a branch whose name it does not. For the
plain terms, and for no others, these are the names that contain the term. -/
theorem selects_of_branch (os : List Operation) (now : Time.Instant) (term : String) :
    let desk := run os
    (∀ g : Group, g.Asks "branch" .like (.text term) →
      desk.store.Selects now (ticketsOf desk.history) g fun x =>
        (branchOf? desk.history x).any fun b => DescribesText (Strategy.containing term) b.2) ∧
    (∀ g : Group, g.Asks "branch" .notLike (.text term) →
      desk.store.Selects now (ticketsOf desk.history) g fun x =>
        (branchOf? desk.history x).any fun b => ¬ DescribesText (Strategy.containing term) b.2) ∧
    (IsPlain term ↔ ∀ name : String, '\x00' ∉ name.toList →
      (DescribesText (Strategy.containing term) name ↔ Contains name term)) := by
  intro desk
  obtain ⟨t, tickets⟩ := lists_run os .tickets (by decide) (by decide)
  obtain ⟨u, branches⟩ := lists_run os .branches (by decide) (by decide)
  have sound := sound_run os
  have keeps : desk.store.Keeps t (ticketsOf desk.history) :=
    keeps_iff_lists.2 (recordedRows_tickets _ ▸ tickets)
  have selects {op : Operator} (search : op = .like ∨ op = .notLike) {g : Group}
      (asks : g.Asks "branch" op (.text term)) (keep : Ticket → Bool)
      (same : ∀ x, (((branchOf? desk.history x).bind fun b => Cell.compareTruth op .text .none
        (.text b.2) (.text (Strategy.containing term))) == some true) = keep x) :
      desk.store.Selects now (ticketsOf desk.history) g keep := by
    obtain ⟨d, only, made⟩ := term_search search asks
    refine selects_of_only sound keeps only made
      (runs_search tickets.schema branches.table branches.schema)
      (joinsAtMostOne_search keeps branches sound) fun p _ => ?_
    rw [truth_search keeps branches sound, same]
  refine ⟨fun g asks => ?_, fun g asks => ?_, ?_⟩
  · refine selects (.inl rfl) asks _ fun x => ?_
    simp only [(compareTruth_like _ _).1]
    cases branchOf? desk.history x <;> simp
  · refine selects (.inr rfl) asks _ fun x => ?_
    simp only [(compareTruth_like _ _).2]
    cases branchOf? desk.history x <;> simp
  · constructor
    · exact fun plain name whole => describesText_between_iff plain whole
    · intro exact_
      by_contra wild
      obtain ⟨name, whole, found, missing⟩ := exists_describesText_of_not_plain wild
      exact missing ((exact_ name whole).1 found)

end Search

namespace NorthBranch

def operations : List Operation :=
  [.branch "North", .ticket LeapSecond.printer, .ticket LeapSecond.scanner]

def search (operator term : String) : Group :=
  ⟨"and", [⟨"branch", .binary operator (.text term)⟩], []⟩

/-- An underscore stands for any character, so the ticket is found although the name of its branch does not
contain the term. -/
theorem targetRows_underscore :
    (∃ t, (run operations).store.targetRows (.helpdesk .epoch) (search "like" "N_RTH") "ticket" =
      .ok (t, [ticketRow (1, LeapSecond.printer)])) ∧
    branchOf? (run operations).history LeapSecond.printer = some (1, "North") ∧
    ¬ Contains "North" "N_RTH" := by
  refine ⟨?_, rfl, by decide⟩
  have rows : ((run operations).store.targetRows (.helpdesk .epoch) (search "like" "N_RTH")
      "ticket").toOption.map Prod.snd = some [ticketRow (1, LeapSecond.printer)] := by
    decide +kernel
  cases found : (run operations).store.targetRows (.helpdesk .epoch) (search "like" "N_RTH")
      "ticket" with
  | error f =>
    rw [found] at rows
    cases rows
  | ok p =>
    rw [found] at rows
    obtain ⟨t, _⟩ := p
    cases rows
    exact ⟨t, rfl⟩

theorem selects_north :
    ((run operations).store.Selects .epoch (ticketsOf (run operations).history) (search "like" "orT")
      fun x => (branchOf? (run operations).history x).any fun b =>
        DescribesText (Strategy.containing "orT") b.2) ∧
    (DescribesText (Strategy.containing "orT") "North" ↔ Contains "North" "orT") := by
  obtain ⟨like, -, plain⟩ := selects_of_branch operations .epoch "orT"
  have term : IsPlain "orT" := by simp [IsPlain, IsWild]
  exact ⟨like _ ⟨.inr rfl, .inl rfl, rfl⟩, plain.1 term "North" (by simp)⟩

end NorthBranch
end Helpdesk
