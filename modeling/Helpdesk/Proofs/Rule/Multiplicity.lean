import Helpdesk.Proofs.Rule.Parts
import Helpdesk.Proofs.Store.History
import Mathlib.Data.List.Nodup

/-! How often a rule lists a row. A row is listed once for every way to put joined rows beside it on
which the condition is true (`targetRows_eq_replicate`). An association is meant to lead from many rows
to one, and where the stored rows are like that no row is listed twice; but nothing keeps the key of an
association from leading to several (`targetRows_namesakes`). -/

namespace Helpdesk
open Store

namespace Store

/-- What a join puts beside a row: each row that belongs to it, or none where none does. -/
def beside (s : Store) (t : Table) (row : Row) (j : Join) : List Range :=
  match s.table? j.table with
  | none => []
  | some u =>
    match u.rows.filter (belongs [⟨targetAlias, t, some row⟩] j u) with
    | [] => [⟨j.name, u, none⟩]
    | found => found.map fun r => ⟨j.name, u, some r⟩

/-- The ways to put joined rows beside a row, one for each join. -/
def combinations (s : Store) (t : Table) (row : Row) : List Join → List Scope
  | [] => [[]]
  | j :: joins => (s.beside t row j).flatMap fun r => (combinations s t row joins).map (r :: ·)

def holds (st : Statement) (t : Table) (row : Row) (joined : Scope) : Bool :=
  st.clause.truth (Scope.cell (⟨targetAlias, t, some row⟩ :: joined))
    (st.parameters.map Cell.ofValue) == some true

theorem Scope.range?_target (t : Table) (row : Row) (rest : Scope) :
    Scope.range? (⟨targetAlias, t, some row⟩ :: rest) targetAlias =
      some ⟨targetAlias, t, some row⟩ :=
  List.find?_cons_of_pos (sameName_refl targetAlias)

section Joined
variable {s : Store} {t : Table} {row : Row}

theorem joined_append (as bs : List Scope) (joins : List (Join × Table)) :
    joined (as ++ bs) joins = joined as joins ++ joined bs joins := by
  induction joins generalizing as bs with
  | nil => rfl
  | cons p joins ih => rw [joined, joined, joined, List.flatMap_append, ih]

theorem joined_map {α : Type} (f : α → Scope) (as : List α) (joins : List (Join × Table)) :
    joined (as.map f) joins = as.flatMap fun a => joined [f a] joins := by
  induction as with
  | nil =>
    induction joins with
    | nil => rfl
    | cons p joins ih => exact ih
  | cons a as ih =>
    rw [List.map_cons, ← List.singleton_append, joined_append, ih, List.flatMap_cons]

/-- Joins of the target do not look at the rows that are joined already. -/
theorem extend_eq {p : Join × Table} (target : JoinsTarget p.1) (table : s.table? p.1.table = some p.2)
    {scope : Scope} (first : scope.range? targetAlias = some ⟨targetAlias, t, some row⟩) :
    extend scope p.1 p.2 = (s.beside t row p.1).map fun r => scope ++ [r] := by
  rw [extend, filter_belongs target first, beside, table]
  dsimp only
  rw [filter_belongs target (Scope.range?_target t row [])]
  cases partners t p.2 p.1.source.field p.1.key row with
  | nil => rfl
  | cons r rs => simp

theorem joined_eq_combinations {joins : List Join} {pairs : List (Join × Table)}
    (tables : s.JoinTables joins pairs) (targets : ∀ j ∈ joins, JoinsTarget j) :
    ∀ scope : Scope, scope.range? targetAlias = some ⟨targetAlias, t, some row⟩ →
      joined [scope] pairs = (s.combinations t row joins).map (scope ++ ·) := by
  obtain ⟨names, tables⟩ := tables
  subst names
  induction pairs with
  | nil => intro scope _; simp [joined, combinations]
  | cons p pairs ih =>
    intro scope first
    obtain ⟨table, tables⟩ := List.forall_mem_cons.1 tables
    obtain ⟨target, targets⟩ := List.forall_mem_cons.1 targets
    have first' (r : Range) : Scope.range? (scope ++ [r]) targetAlias =
        some ⟨targetAlias, t, some row⟩ := by
      rw [Scope.range?] at first ⊢
      rw [List.find?_append, first]
      rfl
    rw [joined, List.flatMap_singleton, extend_eq target table first, joined_map, List.map_cons,
      combinations, List.map_flatMap]
    refine List.flatMap_congr fun r _ => ?_
    rw [ih tables targets _ (first' r), List.map_map]
    simp [Function.comp_def]

theorem rowsOf_eq_replicate {st : Statement} {pairs : List (Join × Table)}
    (tables : s.JoinTables st.joins pairs) (targets : ∀ j ∈ st.joins, JoinsTarget j) :
    rowsOf t pairs st.clause.fold (st.parameters.map Cell.ofValue) =
      inOrder t (t.rows.flatMap fun row =>
        List.replicate ((s.combinations t row st.joins).countP (holds st t row)) row) := by
  rw [rowsOf]
  refine congrArg (inOrder t) (List.flatMap_congr fun row _ => ?_)
  rw [joined_eq_combinations tables targets _ (Scope.range?_target t row []), List.filter_map,
    List.map_map, List.countP_eq_length_filter]
  simp only [Function.comp_def, Clause.truth_fold, List.map_const', List.singleton_append]
  rfl

theorem length_combinations_le {joins : List Join} (once : ∀ j ∈ joins, s.JoinsAtMostOne t j)
    (hr : row ∈ t.rows) : (s.combinations t row joins).length ≤ 1 := by
  induction joins with
  | nil => exact Nat.le_refl 1
  | cons j joins ih =>
    obtain ⟨first, others⟩ := List.forall_mem_cons.1 once
    have short : (s.beside t row j).length ≤ 1 := by
      rw [beside]
      cases table : s.table? j.table with
      | none => exact Nat.zero_le 1
      | some u =>
        have one := first u table row hr
        dsimp only
        split
        · exact Nat.le_refl 1
        · rwa [List.length_map]
    rw [combinations]
    match found : s.beside t row j with
    | [] => exact Nat.zero_le 1
    | [r] => simpa using ih others
    | r :: o :: rest =>
      rw [found] at short
      simp at short

theorem nodup_flatMap_replicate {rows : List Row} (ordered : Ordered rows) (times : Row → Nat) :
    ((rows.flatMap fun row => List.replicate (times row) row).map Row.rowid).Nodup ↔
      ∀ row ∈ rows, times row ≤ 1 := by
  have apart : rows.Pairwise (Function.onFun List.Disjoint fun row =>
      List.replicate (times row) row.rowid) := by
    refine ordered.imp fun {a b} less x ha hb => ?_
    rw [List.eq_of_mem_replicate ha] at hb
    exact lt_irrefl _ (List.eq_of_mem_replicate hb ▸ less)
  simp only [List.map_flatMap, List.map_replicate, List.nodup_flatMap, List.nodup_replicate,
    and_iff_left apart]

theorem pairwise_flatMap_replicate {rows : List Row} (ordered : Ordered rows) (times : Row → Nat) :
    (rows.flatMap fun row => List.replicate (times row) row).Pairwise fun a b => ¬ b.rowid < a.rowid := by
  refine List.pairwise_flatMap.2 ⟨fun row _ => ?_, ordered.imp fun {a b} less x hx y hy => ?_⟩
  · exact List.pairwise_replicate.2 (.inr (lt_irrefl row.rowid))
  · rw [List.eq_of_mem_replicate hx, List.eq_of_mem_replicate hy]
    exact fun more => lt_irrefl _ (lt_trans less more)

end Joined
end Store

section Targets
variable {s : Store} {c : Compiler} {g : Group} {target : String} {q : Query} {st : Statement}
  {t : Table} {rows : List Row}

/-- A row is listed once for every way to put joined rows beside it on which the condition of the rule
is true, and stands where its number puts it unless a column hides the numbers. So no row is listed twice
just where each has one such way at most, and never where the associations of the rule lead to one row at
most. The records are those of the text where all names are identifiers. -/
theorem targetRows_eq_replicate (compiled : c.targetQuery g target = .ok q)
    (written : q.statement = .ok st) (run : s.targetRows c g target = .ok (t, rows))
    (ordered : Ordered t.rows) :
    (c.IsPlain → ∀ name, s.ruleTargets c ⟨name, target, g⟩ = .ok (rows.map (toRecord t))) ∧
    rows = inOrder t (t.rows.flatMap fun row =>
      List.replicate ((s.combinations t row q.joins).countP (holds st t row)) row) ∧
    (t.schema.place? "rowid" = some .rowid → rows = t.rows.flatMap fun row =>
      List.replicate ((s.combinations t row q.joins).countP (holds st t row)) row) ∧
    ((rows.map Row.rowid).Nodup ↔
      ∀ row ∈ t.rows, (s.combinations t row q.joins).countP (holds st t row) ≤ 1) ∧
    ((∀ j ∈ q.joins, s.JoinsAtMostOne t j) → (rows.map Row.rowid).Nodup) := by
  have listed : rows = inOrder t (t.rows.flatMap fun row =>
      List.replicate ((s.combinations t row q.joins).countP (holds st t row)) row) := by
    obtain ⟨e, entity, -⟩ := bind_eq_ok.1 compiled
    obtain ⟨p, planned, rfl⟩ := (Compiler.targetQuery_eq_ok entity).1 compiled
    have writes := p.writes_query e.table
    obtain ⟨-, sameJoins, -, -⟩ :=
      writes.shapes_statement (Compiler.plan_fits g planned) written
    obtain ⟨q', compiled', run⟩ := bind_eq_ok.1 run
    cases compiled.symm.trans compiled'
    obtain ⟨st', written', run⟩ := bind_eq_ok.1 run
    cases written.symm.trans written'
    obtain ⟨t', pairs, -, -, tables, -, -, found⟩ := selectRows_eq_ok.1 (outcome_eq_ok.1 run)
    cases found
    rw [← sameJoins]
    exact rowsOf_eq_replicate tables fun j hj => writes.joinsTarget (sameJoins ▸ hj)
  have exact_ := nodup_flatMap_replicate ordered fun row =>
    (s.combinations t row q.joins).countP (holds st t row)
  rw [← ((perm_inOrder t _).map Row.rowid).nodup_iff, ← listed] at exact_
  refine ⟨fun plain name => by rw [ruleTargets_eq, textRows_eq plain, run]; rfl, listed, fun place => ?_, exact_, fun once => ?_⟩
  · have own : t.schema.orderPlace = .rowid := by rw [Schema.orderPlace, place]; rfl
    exact listed.trans (inOrder_eq_self own (pairwise_flatMap_replicate ordered _))
  · exact exact_.2 fun row hr =>
      Nat.le_trans List.countP_le_length (length_combinations_le once hr)

end Targets

namespace TwoParts

/-- A branch is known by its number, so the ticket of the northern branch is listed once. -/
theorem nodup_ofNorth : ∃ q st rows, compiler.targetQuery ofNorth "ticket" = .ok q ∧
    q.statement = .ok st ∧ store.targetRows compiler ofNorth "ticket" = .ok (tickets, rows) ∧
    rows.length = 1 ∧ (rows.map Row.rowid).Nodup := by
  obtain ⟨q, st, compiled, written, joins⟩ : ∃ q st, compiler.targetQuery ofNorth "ticket" = .ok q ∧
    q.statement = .ok st ∧ q.joins = [⟨"branches", "j1", "id", Builder.column "branch"⟩] :=
    ⟨_, _, rfl, rfl, rfl⟩
  have run : store.targetRows compiler ofNorth "ticket" =
      .ok (tickets, [ticket 2 "open" (.int 7)]) := rfl
  obtain ⟨-, -, -, -, single⟩ := targetRows_eq_replicate compiled written run (by decide)
  refine ⟨q, st, _, compiled, written, run, rfl, single fun j hj => ?_⟩
  rw [joins] at hj
  exact List.mem_singleton.1 hj ▸ joinsAtMostOne_branches

end TwoParts

namespace Namesakes

def operations : List Operation :=
  [.user ⟨⟨.oro, 1⟩, "ada@staff.example", "Ada"⟩, .user ⟨⟨.diamante, 1⟩, "ada@home.example", "Ada"⟩,
    .ticket { Ticket.fresh "HD-1" "Printer jammed" ⟨.oro, 1⟩ .epoch with assignee := some 1 }]

def users : Table :=
  ⟨.users, [⟨1, [.text "oro", .int 1, .text "ada@staff.example", .text "Ada"]⟩,
    ⟨2, [.text "diamante", .int 1, .text "ada@home.example", .text "Ada"]⟩], 2⟩

def ticket : Row :=
  ⟨1, [.int 1, .text "HD-1", .text "Printer jammed", .null, .text "new", .text "medium",
    .text "web", .null, .text "oro_1", .int 1, .text "1970-01-01T00:00:00Z",
    .text "1970-01-01T00:00:00Z"]⟩

def tickets : Table := ⟨.tickets, [ticket], 1⟩

def store : Store :=
  ⟨[users, .empty .branches, tickets, .empty .attachments, .empty .auditLog]⟩

def given : Config where
  priorities := .standard
  targets := Dict.ofList
    [("ticket", ⟨"Ticket", "tickets", Dict.ofList [("assignee", ⟨"", .association⟩)]⟩)]
  strategies := some
    [⟨"assignee", some .like, .associationContains ⟨"users", "id", "full_name"⟩⟩]

def config : Config := given.withColumns

def compiler : Compiler := .ofConfig config .epoch

def search : Group := ⟨"and", [⟨"assignee", .binary "like" (.text "ada")⟩], []⟩

/-- One ticket is listed for each of the two who have the number of its assignee. -/
theorem targetRows_namesakes : config.IsAccepted ∧ (run operations).store = store ∧
    store.targetRows compiler search "ticket" = .ok (tickets, [ticket, ticket]) ∧
    store.ruleTargets compiler ⟨"ada", "ticket", search⟩ =
      .ok [toRecord tickets ticket, toRecord tickets ticket] := by
  have run : store.targetRows compiler search "ticket" = .ok (tickets, [ticket, ticket]) := rfl
  have accepted : config.IsAccepted := ⟨given, rfl⟩
  have plain : compiler.IsPlain := .ofConfig accepted .epoch
  refine ⟨accepted, rfl, run, ?_⟩
  rw [ruleTargets_eq, textRows_eq plain, run]
  rfl

end Namesakes
end Helpdesk
