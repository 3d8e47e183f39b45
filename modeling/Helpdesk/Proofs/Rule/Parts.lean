import Helpdesk.Proofs.Outcome
import Helpdesk.Proofs.Rule.Selection

/-! Groups and their parts. The rows that a group finds are put together from those that its parts find on
their own (`textRows_of_parts`), although the texts of the parts have other numbers for their parameters
and other names for their joins. -/

namespace Helpdesk
open Store

namespace Store

def FindsByText (s : Store) (c : Compiler) (target : String) (row : Row) (g : Group) : Prop :=
  ∃ t rows, s.textRows c g target = .ok (t, rows) ∧ row ∈ rows

end Store

/-- Groups that a group is put together from: its children, or one group for each of its
conditions. -/
def Group.SplitsInto (g : Group) (parts : List Group) : Prop :=
  match g.children with
  | [] => parts.map Group.conditions = g.conditions.map (fun d => [d]) ∧
    ∀ part ∈ parts, part.children = []
  | children => parts = children

/-- A plan asks the same of a row as a group does, and no more of the database. -/
def Plan.StandsFor (s : Store) (t : Table) (c : Compiler) (target : Target) (p : Plan)
    (g : Group) : Prop :=
  ∃ own, c.plan target g = .ok own ∧ own.tests = p.tests ∧ (own.Runs s t → p.Runs s t) ∧
    ∀ row, own.truth s t row = p.truth s t row

namespace Compiler
variable {c : Compiler} {target : Target}

theorem plan_of_children {connector : String} {conditions : List ConditionDefinition}
    {children : List Group} (h : children ≠ []) :
    c.plan target ⟨connector, conditions, children⟩ = (do
      let connector ← Connector.ofName connector
      let terms ← children.mapM (c.plan target)
      .ok (.group connector terms)) := by
  cases children with
  | nil => exact absurd rfl h
  | cons g gs =>
    rw [plan, List.mapM_cons, plans_eq_mapM]
    cases Connector.ofName connector with
    | error e => rfl
    | ok connector =>
      cases c.plan target g with
      | error e => simp [bind, Except.bind]
      | ok p =>
        cases gs.mapM (c.plan target) with
        | error e => simp [bind, Except.bind]
        | ok ps => simp [bind, Except.bind, pure, Except.pure]

theorem standsFor_of_single {s : Store} {t : Table} {part : Group}
    {definition : ConditionDefinition}
    (children : part.children = []) (conditions : part.conditions = [definition]) {own : Plan}
    (planned : c.plan target part = .ok own) :
    ∃ p, c.term target definition = .ok p ∧ p.StandsFor s t c target part := by
  obtain ⟨connector, own_, children_⟩ := part
  cases children
  cases conditions
  have plan := planned
  rw [plan_of_conditions] at planned
  obtain ⟨connector, -, planned⟩ := bind_eq_ok.1 planned
  obtain ⟨terms, single, planned⟩ := bind_eq_ok.1 planned
  rw [List.mapM_cons] at single
  obtain ⟨p, term_, single⟩ := bind_eq_ok.1 single
  cases single
  cases planned
  obtain ⟨condition, -, tested⟩ := bind_eq_ok.1 term_
  obtain ⟨leaf, -, tested⟩ := bind_eq_ok.1 tested
  cases tested
  exact ⟨_, term_, _, plan, rfl, Plan.runs_of_singleton,
    fun row => Plan.truth_singleton s t row connector _⟩

def StandFor (s : Store) (t : Table) (c : Compiler) (target : Target) (ps : List Plan)
    (parts : List Group) : Prop :=
  (∀ part ∈ parts, ∃ p ∈ ps, p.StandsFor s t c target part) ∧
    ∀ p ∈ ps, ∃ part ∈ parts, p.StandsFor s t c target part

theorem standFor_of_conditions {s : Store} {t : Table} {conditions : List ConditionDefinition}
    {parts : List Group} (childless : ∀ part ∈ parts, part.children = [])
    (singles : parts.map Group.conditions = conditions.map fun d => [d])
    (planned : ∀ part ∈ parts, ∃ own, c.plan target part = .ok own) :
    ∃ ps, conditions.mapM (c.term target) = .ok ps ∧ StandFor s t c target ps parts := by
  -- The order of conditions and parts does not matter, only that each has its like.
  have part_of (d : ConditionDefinition) (hd : d ∈ conditions) :
      ∃ part ∈ parts, part.conditions = [d] := by
    have member : [d] ∈ parts.map Group.conditions := singles ▸ List.mem_map_of_mem hd
    exact List.mem_map.1 member
  have condition_of (part : Group) (hp : part ∈ parts) :
      ∃ d ∈ conditions, part.conditions = [d] := by
    have member : part.conditions ∈ conditions.map fun d => [d] :=
      singles ▸ List.mem_map_of_mem hp
    obtain ⟨d, hd, same⟩ := List.mem_map.1 member
    exact ⟨d, hd, same.symm⟩
  have stands (part : Group) (hp : part ∈ parts) {d : ConditionDefinition}
      (hd : part.conditions = [d]) :
      ∃ p, c.term target d = .ok p ∧ p.StandsFor s t c target part := by
    obtain ⟨own, h⟩ := planned part hp
    exact standsFor_of_single (childless part hp) hd h
  have termed : ∀ d ∈ conditions, ∃ p, c.term target d = .ok p := by
    intro d hd
    obtain ⟨part, hp, same⟩ := part_of d hd
    obtain ⟨p, found, -⟩ := stands part hp same
    exact ⟨p, found⟩
  obtain ⟨ps, terms⟩ := exists_mapM_eq_ok_iff.2 termed
  obtain ⟨forth, back⟩ := exists_mem_of_forall₂ (mapM_eq_ok_iff.1 terms)
  refine ⟨ps, terms, fun part hp => ?_, fun p hp => ?_⟩
  · obtain ⟨d, hd, same⟩ := condition_of part hp
    obtain ⟨p, found, hps⟩ := stands part hp same
    obtain ⟨p', hp', found'⟩ := forth d hd
    cases found.symm.trans found'
    exact ⟨p, hp', hps⟩
  · obtain ⟨d, hd, found⟩ := back p hp
    obtain ⟨part, hpart, same⟩ := part_of d hd
    obtain ⟨p', found', hps⟩ := stands part hpart same
    cases found.symm.trans found'
    exact ⟨part, hpart, hps⟩

theorem standFor_of_children {s : Store} {t : Table} {children : List Group}
    (planned : ∀ part ∈ children, ∃ own, c.plan target part = .ok own) :
    ∃ ps, children.mapM (c.plan target) = .ok ps ∧ StandFor s t c target ps children := by
  obtain ⟨ps, terms⟩ := exists_mapM_eq_ok_iff.2 planned
  obtain ⟨forth, back⟩ := exists_mem_of_forall₂ (mapM_eq_ok_iff.1 terms)
  refine ⟨ps, terms, fun part hp => ?_, fun p hp => ?_⟩
  · obtain ⟨p, hp', found⟩ := forth part hp
    exact ⟨p, hp', p, found, rfl, id, fun _ => rfl⟩
  · obtain ⟨part, hpart, found⟩ := back p hp
    exact ⟨part, hpart, p, found, rfl, id, fun _ => rfl⟩

theorem exists_terms {s : Store} {t : Table} {g : Group} {parts : List Group}
    {connector : Connector}
    (split : g.SplitsInto parts) (named : Connector.ofName g.connector = .ok connector)
    (planned : ∀ part ∈ parts, ∃ own, c.plan target part = .ok own) :
    ∃ ps, c.plan target g = .ok (.group connector ps) ∧ StandFor s t c target ps parts := by
  obtain ⟨name, conditions, children⟩ := g
  cases children with
  | nil =>
    obtain ⟨singles, childless⟩ := split
    obtain ⟨ps, terms, stand⟩ := standFor_of_conditions childless singles planned
    refine ⟨ps, ?_, stand⟩
    rw [plan_of_conditions, named, terms]
    rfl
  | cons g gs =>
    cases split
    obtain ⟨ps, terms, stand⟩ := standFor_of_children planned
    refine ⟨ps, ?_, stand⟩
    rw [plan_of_children (List.cons_ne_nil g gs), named, terms]
    rfl

end Compiler

section Parts
variable {s : Store} {c : Compiler} {target : String} {e : Entity} {t : Table}

theorem findsByText_iff (plain : c.IsPlain) {row : Row} {g : Group} :
    s.FindsByText c target row g ↔ s.Finds c target row g := by
  simp only [Store.FindsByText, Store.Finds, textRows_eq plain]

theorem finds_iff (entity : c.config.entity target = .ok e)
    (table : s.table? e.table = some t) {part : Group}
    (runs : ∃ found, s.targetRows c part target = .ok found)
    (once : ∀ q, c.targetQuery part target = .ok q → ∀ j ∈ q.joins, s.JoinsAtMostOne t j) {p : Plan}
    (stands : p.StandsFor s t c (c.target target e) part) :
    p.Runs s t ∧ p.JoinsAtMostOne s t ∧
      ∀ row, s.Finds c target row part ↔ row ∈ t.rows ∧ p.truth s t row = some true := by
  obtain ⟨own, planned, tests, asks, same⟩ := stands
  obtain ⟨-, own', planned', ownRuns⟩ := (targetRows_iff entity table).1 runs
  cases planned.symm.trans planned'
  have ownOnce : own.JoinsAtMostOne s t := (own.writes_query e.table).joinsAtMostOne_iff.1
    (once _ ((Compiler.targetQuery_eq_ok entity).2 ⟨own, planned, rfl⟩))
  refine ⟨asks ownRuns,
    fun field a op value hl => ownOnce field a op value (tests ▸ hl), fun row => ?_⟩
  rw [← same row]
  constructor
  · rintro ⟨u, rows, found, member⟩
    cases targetRows_eq entity table planned ownOnce found
    simpa [mem_inOrder] using member
  · intro holds
    obtain ⟨found, h⟩ := runs
    cases targetRows_eq entity table planned ownOnce h
    exact ⟨_, _, h, by simpa [mem_inOrder] using holds⟩

theorem targetRows_of_split (entity : c.config.entity target = .ok e)
    (table : s.table? e.table = some t) (word : Statement.isReserved e.table = false) {g : Group}
    {parts : List Group} (split : g.SplitsInto parts)
    (runs : ∀ part ∈ parts, ∃ found, s.targetRows c part target = .ok found)
    (once : ∀ part ∈ parts, ∀ q, c.targetQuery part target = .ok q → ∀ j ∈ q.joins,
      s.JoinsAtMostOne t j)
    (named : g.connector = "or" ∨ g.connector = "and") :
    ∃ kept : Row → Bool, s.targetRows c g target = .ok (t, inOrder t (t.rows.filter kept)) ∧
      (g.connector = "or" → ∀ row, row ∈ t.rows ∧ kept row ↔
        ∃ part ∈ parts, s.Finds c target row part) ∧
      (g.connector = "and" → ∀ row, row ∈ t.rows ∧ kept row ↔
        row ∈ t.rows ∧ ∀ part ∈ parts, s.Finds c target row part) := by
  obtain ⟨connector, known⟩ : ∃ connector, Connector.ofName g.connector = .ok connector := by
    rcases named with h | h <;> rw [h] <;> exact ⟨_, rfl⟩
  have planned : ∀ part ∈ parts, ∃ own, c.plan (c.target target e) part = .ok own := by
    intro part hp
    obtain ⟨-, own, planned, -⟩ := (targetRows_iff entity table).1 (runs part hp)
    exact ⟨own, planned⟩
  obtain ⟨ps, plan, forth, back⟩ := Compiler.exists_terms (s := s) (t := t) split known planned
  -- A term runs, joins one row at most and is true where its part finds a row.
  have term (p : Plan) (part : Group) (hp : part ∈ parts)
      (stands : p.StandsFor s t c (c.target target e) part) :=
    finds_iff entity table (runs part hp) (once part hp) stands
  have groupRuns : (Plan.group connector ps).Runs s t := Plan.runs_group fun p hp => by
    obtain ⟨part, hpart, stands⟩ := back p hp
    exact (term p part hpart stands).1
  have groupOnce : (Plan.group connector ps).JoinsAtMostOne s t := by
    intro field a op value hl
    obtain ⟨p, hp, hl⟩ := Plan.mem_testsOf.1 hl
    obtain ⟨part, hpart, stands⟩ := back p hp
    exact (term p part hpart stands).2.1 field a op value hl
  obtain ⟨found, h⟩ := (targetRows_iff entity table).2 ⟨word, _, plan, groupRuns⟩
  cases targetRows_eq entity table plan groupOnce h
  refine ⟨_, h, fun or_ row => ?_, fun and_ row => ?_⟩
  · rw [or_] at known
    cases known
    rw [beq_iff_eq, Plan.truth_exclusive_iff]
    constructor
    · rintro ⟨hr, p, hp, holds⟩
      obtain ⟨part, hpart, stands⟩ := back p hp
      exact ⟨part, hpart, ((term p part hpart stands).2.2 row).2 ⟨hr, holds⟩⟩
    · rintro ⟨part, hpart, finds⟩
      obtain ⟨p, hp, stands⟩ := forth part hpart
      obtain ⟨hr, holds⟩ := ((term p part hpart stands).2.2 row).1 finds
      exact ⟨hr, p, hp, holds⟩
  · rw [and_] at known
    cases known
    rw [beq_iff_eq, Plan.truth_inclusive_iff]
    refine and_congr_right fun hr => ⟨fun holds part hpart => ?_, fun finds p hp => ?_⟩
    · obtain ⟨p, hp, stands⟩ := forth part hpart
      exact ((term p part hpart stands).2.2 row).2 ⟨hr, holds p hp⟩
    · obtain ⟨part, hpart, stands⟩ := back p hp
      exact (((term p part hpart stands).2.2 row).1 (finds part hpart)).2

/-- Where all names are identifiers, a group finds exactly what its parts find: every row that one of
them finds under `or`, and every row of the table that all of them find under `and`. Rows come once, and
in the order of their numbers unless a column hides these. A group without parts asks for a table whose
name can stand in a statement; for others their parts have asked already. -/
theorem textRows_of_parts (plain : c.IsPlain) (entity : c.config.entity target = .ok e)
    (table : s.table? e.table = some t) (ordered : Ordered t.rows) {g : Group} {parts : List Group}
    (split : g.SplitsInto parts) (word : parts = [] → Statement.isReserved e.table = false)
    (runs : ∀ part ∈ parts, ∃ found, s.textRows c part target = .ok found)
    (once : ∀ part ∈ parts, ∀ q, c.targetQuery part target = .ok q → ∀ j ∈ q.joins,
      s.JoinsAtMostOne t j)
    (named : g.connector = "or" ∨ g.connector = "and") :
    ∃ rows, s.textRows c g target = .ok (t, rows) ∧
      (∀ name, s.ruleTargets c ⟨name, target, g⟩ = .ok (rows.map (toRecord t))) ∧
      (rows.map Row.rowid).Nodup ∧
      (t.schema.place? "rowid" = some .rowid → rows.Pairwise fun a b => a.rowid < b.rowid) ∧
      (g.connector = "or" → ∀ row, row ∈ rows ↔ ∃ part ∈ parts, s.FindsByText c target row part) ∧
      (g.connector = "and" →
        ∀ row, row ∈ rows ↔ row ∈ t.rows ∧ ∀ part ∈ parts, s.FindsByText c target row part) := by
  simp only [textRows_eq plain] at runs
  have word' : Statement.isReserved e.table = false := by
    cases parts with
    | nil => exact word rfl
    | cons part rest => exact ((targetRows_iff entity table).1 (runs part List.mem_cons_self)).1
  obtain ⟨kept, h, any, all⟩ := targetRows_of_split entity table word' split runs once named
  have rows (row : Row) : row ∈ inOrder t (t.rows.filter kept) ↔ row ∈ t.rows ∧ kept row :=
    mem_inOrder.trans List.mem_filter
  have text := (textRows_eq plain g target).trans h
  refine ⟨_, text, fun name => by rw [ruleTargets_eq, text]; rfl, ?_, fun place => ?_,
    fun or_ row => ?_, fun and_ row => ?_⟩
  · exact ((perm_inOrder t _).map Row.rowid).nodup_iff.2 (nodup_of_ordered (ordered.filter kept))
  · have own : t.schema.orderPlace = .rowid := by rw [Schema.orderPlace, place]; rfl
    rw [Ordered.inOrder_eq_self (ordered.filter kept) own]
    exact ordered.filter kept
  · simp only [rows, any or_ row, findsByText_iff plain]
  · simp only [rows, all and_ row, findsByText_iff plain]

end Parts

namespace TwoParts

def north : Table := ⟨Schema.branches, [⟨7, [.int 7, .text "North"]⟩], 7⟩

def ticket (id : Int64) (status : String) (branch : Cell) : Row :=
  ⟨id, [.int id, .text "HD-1", .text "Printer", .null, .text status, .text "medium",
    .text "web", branch, .text "oro_1", .null, .text "2024-01-01T00:00:00Z",
    .text "2024-01-01T00:00:00Z"]⟩

def tickets : Table :=
  ⟨Schema.tickets, [ticket 1 "new" .null, ticket 2 "open" (.int 7), ticket 5 "open" .null], 5⟩

def store : Store := ⟨[north, tickets]⟩

def compiler : Compiler := .ofConfig .helpdesk .epoch

def ofNorth : Group := ⟨"and", [⟨"branch", .binary "like" (.text "nor")⟩], []⟩

def isNew : Group := ⟨"or", [⟨"status", .binary "eq" (.text "new")⟩], []⟩

theorem isPlain_compiler : compiler.IsPlain := .ofConfig Config.isAccepted_helpdesk .epoch

theorem joinsAtMostOne_branches :
    store.JoinsAtMostOne tickets ⟨"branches", "j1", "id", Builder.column "branch"⟩ := by
  intro u found row hr
  cases found
  revert row
  decide

theorem joinsAtMostOne_of_eq {c : Compiler} {part : Group} {own q : Query}
    (compiled : c.targetQuery part "ticket" = .ok own)
    (branches : ∀ j ∈ own.joins, j = ⟨"branches", "j1", "id", Builder.column "branch"⟩)
    (h : c.targetQuery part "ticket" = .ok q) : ∀ j ∈ q.joins, store.JoinsAtMostOne tickets j := by
  cases compiled.symm.trans h
  exact fun j hj => branches j hj ▸ joinsAtMostOne_branches

/-- The ticket without a branch is found for its status. -/
theorem textRows_ofNorth_or_isNew : ∃ rows,
    store.textRows compiler ⟨"or", [], [ofNorth, isNew]⟩ "ticket" = .ok (tickets, rows) ∧
    (∀ name, store.ruleTargets compiler ⟨name, "ticket", ⟨"or", [], [ofNorth, isNew]⟩⟩ =
      .ok (rows.map (toRecord tickets))) ∧
    (rows.map Row.rowid).Nodup ∧ rows.Pairwise (fun a b => a.rowid < b.rowid) ∧
    ∀ row, row ∈ rows ↔ ∃ part ∈ [ofNorth, isNew], store.FindsByText compiler "ticket" row part := by
  have runs : ∀ part ∈ [ofNorth, isNew], ∃ found,
      store.textRows compiler part "ticket" = .ok found := by
    simp only [List.forall_mem_cons, textRows_eq isPlain_compiler]
    have found (part : Group) (rows : List Row)
        (h : (store.targetRows compiler part "ticket").toOption = some (tickets, rows)) :
        ∃ found, store.targetRows compiler part "ticket" = .ok found := ⟨_, eq_ok_of_toOption h⟩
    exact ⟨found _ [ticket 2 "open" (.int 7)] (by decide +kernel),
      found _ [ticket 1 "new" .null] (by decide +kernel), List.forall_mem_nil _⟩
  have once : ∀ part ∈ [ofNorth, isNew], ∀ q, compiler.targetQuery part "ticket" = .ok q →
      ∀ j ∈ q.joins, store.JoinsAtMostOne tickets j := by
    simp only [List.forall_mem_cons]
    exact ⟨fun q => joinsAtMostOne_of_eq rfl (by decide), fun q => joinsAtMostOne_of_eq rfl (by decide),
      List.forall_mem_nil _⟩
  have entity : compiler.config.entity "ticket" = .ok Config.ticketEntity := rfl
  have split : Group.SplitsInto ⟨"or", [], [ofNorth, isNew]⟩ [ofNorth, isNew] := rfl
  obtain ⟨rows, found, targets, single, ordered, any, -⟩ := textRows_of_parts (s := store)
    isPlain_compiler entity rfl (by decide) split (fun _ => rfl) runs once (.inl rfl)
  exact ⟨rows, found, targets, single, ordered rfl, any rfl⟩

end TwoParts

namespace OtherNames
open TwoParts (tickets ticket ofNorth isNew)

/-- Names that pass validation: a word of the language, and that of the row number. -/
def config : Config where
  priorities := .standard
  targets := Dict.ofList [("order", ⟨"Order", "order", .empty⟩), ("note", ⟨"Note", "notes", .empty⟩)]
  strategies := none

def notes : Table where
  schema := ⟨"notes", [Schema.textColumn "rowid"], none, false, [], []⟩
  rows := [⟨1, [.text "b"]⟩, ⟨2, [.text "a"]⟩]
  lastRowid := 2

def store : Store := ⟨[.empty ⟨"order", [], none, false, [], []⟩, notes]⟩

def compiler : Compiler := .ofConfig config .epoch

/-- The column of branches brings a comparison with it. -/
def splicing : Compiler :=
  { TwoParts.compiler with
    strategies := .ofEntries [⟨"branch", none,
      .associationContains ⟨"branches", "id", "name LIKE ?1 OR j1.name"⟩⟩] }

theorem textRows_of_tokens (words : List String) {g : Group} {q : Query} {st : Statement}
    {sel : Sql.Selection} {found : Table × List Row}
    (compiled : splicing.targetQuery g "ticket" = .ok q) (written : q.statement = .ok st)
    (tokens : Sql.tokens st.toSql = words) (read : Sql.Selection.ofTokens? words = some sel)
    (run : (TwoParts.store.selectRows
      ⟨sel.table, sel.joins, sel.condition, st.parameters⟩).toOption = some found) :
    TwoParts.store.textRows splicing g "ticket" = .ok found := by
  refine bind_eq_ok.2 ⟨q, compiled, bind_eq_ok.2 ⟨st, written, outcome_eq_ok.2 ?_⟩⟩
  simp only [runText, Sql.Selection.ofText?, tokens, read]
  exact eq_ok_of_toOption run

def source : List String :=
  ["SELECT", "t", ".", "*", "FROM", "tickets", "AS", "t", "LEFT", "JOIN", "branches", "AS", "j1", "ON",
    "j1", ".", "id", "=", "t", ".", "branch", "WHERE"]

/-- A group without parts asks nothing of a table whose name is a word of the language; the terms of a
spliced comparison fall apart in a group; and rows are sorted by a column where the row number was
meant. -/
theorem textRows_of_otherNames :
    (config.IsAccepted ∧
      (∀ connector ∈ ["or", "and"], store.textRows compiler ⟨connector, [], []⟩ "order" =
        .error (.storage (.nearWord "order"))) ∧
      store.textRows compiler ⟨"and", [], []⟩ "note" =
        .ok (notes, [⟨2, [.text "a"]⟩, ⟨1, [.text "b"]⟩])) ∧
    (Config.helpdesk.IsAccepted ∧ splicing.config = .helpdesk ∧
      splicing.metadata = (Config.helpdesk : MetadataResolver) ∧
      (∀ part ∈ [ofNorth, isNew], ∀ q, splicing.targetQuery part "ticket" = .ok q →
        ∀ j ∈ q.joins, TwoParts.store.JoinsAtMostOne tickets j) ∧
      TwoParts.store.textRows splicing ofNorth "ticket" =
        .ok (tickets, [ticket 2 "open" (.int 7)]) ∧
      TwoParts.store.textRows splicing isNew "ticket" = .ok (tickets, [ticket 1 "new" .null]) ∧
      TwoParts.store.textRows splicing ⟨"and", [], [ofNorth, isNew]⟩ "ticket" =
        .ok (tickets, [ticket 2 "open" (.int 7)])) := by
  have accepted : config.IsAccepted := ⟨config, rfl⟩
  have plain : compiler.IsPlain := .ofConfig accepted .epoch
  have none_ : ∀ connector ∈ ["or", "and"], store.textRows compiler ⟨connector, [], []⟩ "order" =
      .error (.storage (.nearWord "order")) := by
    simp only [List.forall_mem_cons, textRows_eq plain]
    exact ⟨rfl, rfl, List.forall_mem_nil _⟩
  have once : ∀ part ∈ [ofNorth, isNew], ∀ q, splicing.targetQuery part "ticket" = .ok q →
      ∀ j ∈ q.joins, TwoParts.store.JoinsAtMostOne tickets j := by
    simp only [List.forall_mem_cons]
    exact ⟨fun q => TwoParts.joinsAtMostOne_of_eq rfl (by decide),
      fun q => TwoParts.joinsAtMostOne_of_eq rfl (by decide), List.forall_mem_nil _⟩
  refine ⟨⟨accepted, none_, (textRows_eq plain _ _).trans rfl⟩,
    Config.isAccepted_helpdesk, rfl, rfl, once, ?_, ?_, ?_⟩
  · exact textRows_of_tokens (source ++ ["j1", ".", "name", "LIKE", "?1", "OR", "j1", ".", "name",
      "LIKE", "?1", "ORDER", "BY", "t", ".", "rowid"]) rfl rfl (by decide +kernel) rfl
      (by decide +kernel)
  · exact textRows_of_tokens ["SELECT", "t", ".", "*", "FROM", "tickets", "AS", "t", "WHERE", "t", ".",
      "status", "=", "?1", "ORDER", "BY", "t", ".", "rowid"] rfl rfl (by decide +kernel) rfl
      (by decide +kernel)
  · exact textRows_of_tokens (source ++ ["(", "j1", ".", "name", "LIKE", "?1", "OR", "j1", ".",
      "name", "LIKE", "?1", "AND", "t", ".", "status", "=", "?2", ")", "ORDER", "BY", "t", ".",
      "rowid"]) rfl rfl (by decide +kernel) rfl (by decide +kernel)

end OtherNames
end Helpdesk
