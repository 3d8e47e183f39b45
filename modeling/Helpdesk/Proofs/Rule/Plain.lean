import Helpdesk.Proofs.Config.Classes
import Helpdesk.Proofs.Query.Rendering
import Helpdesk.Proofs.Rule.Run

/-! Rules that name nothing but identifiers. The text of a plain query is read as the statement that it was
written for, so the query finds the rows of its statement (`queryRows_of_isPlain`). A query is plain when
its table and the names in its plan are identifiers (`isPlain_query`). The names of a configuration were
checked, so with its own strategies every query is plain (`Compiler.IsPlain.ofConfig`); a registry that is
put together by hand can hold any names. -/

namespace Helpdesk
open Store

namespace Store
variable {s : Store}

theorem runText_toSql {st : Statement} (table : isIdentifier st.table) (joins : ∀ j ∈ st.joins, j.IsPlain)
    (clause : st.clause.IsReadable) : s.runText st.toSql st.parameters = s.selectRows st := by
  rw [runText, Sql.ofText?_toSql table joins clause]

theorem queryRows_of_isPlain {q : Query} (plain : q.IsPlain) :
    s.queryRows q = q.statement >>= fun st => outcome (s.selectRows st) := by
  rw [queryRows]
  cases written : q.statement with
  | error e => simp only [bind, Except.bind]
  | ok st =>
    obtain ⟨⟨c, values⟩, hc, h⟩ := bind_eq_ok.1 written
    cases h
    have clause := Query.isReadable_clause q q.predicate plain.leaves hc
    have read : s.runText (Statement.toSql ⟨q.table, q.joins, c, values⟩) values =
        s.selectRows ⟨q.table, q.joins, c, values⟩ := runText_toSql plain.table plain.joins clause
    simp only [bind, Except.bind, read]

end Store

theorem Builder.isIdentifier_numberedName (n : Nat) : isIdentifier (numberedName "j" n) := by
  have chars : (numberedName "j" n).toList = 'j' :: Text.Decimal.ofNat n := toList_numberedName "j" n
  simp only [isIdentifier, chars, List.all_cons, Bool.and_eq_true]
  refine ⟨by decide, by decide, List.all_eq_true.2 fun d hd => ?_⟩
  have digit := Text.Decimal.isDigit_of_mem_ofNat hd
  simp only [Text.Decimal.isDigit] at digit
  simp [Char.isAlphanum, digit]

def Site.IsPlain : Site → Prop
  | .own field => isIdentifier field
  | .joined field a => isIdentifier field ∧ a.IsPlain

theorem Site.isPlain_of_isNamed {given c : Config} (valid : given.validate = .ok c) {site : Site}
    (h : site.IsNamed c) : site.IsPlain := by
  have plain {name : String} (named : c.Names name) := Config.isIdentifier_of_names valid named
  cases site with
  | own field => exact plain h
  | joined field a => exact ⟨plain h.1, plain h.2.1, plain h.2.2.1, plain h.2.2.2⟩

def Test.IsPlain : Test → Prop
  | .never => True
  | .nullCheck field _ => isIdentifier field
  | .compare site _ _ => site.IsPlain

namespace Test

theorem isPlain_plain {field : String} (h : isIdentifier field) (op : Operator) (value : Value) :
    (plain field op value).IsPlain := by
  cases op <;> exact h

theorem isPlain_oneOfTexts {field : String} (h : isIdentifier field) (texts : List String) :
    (oneOfTexts field texts).IsPlain := by
  cases texts with
  | nil => trivial
  | cons text texts => exact isPlain_plain h .oneOf _

theorem isPlain_of_isNamed {given c : Config} (valid : given.validate = .ok c) {t : Test}
    (h : t.IsNamed c) : t.IsPlain := by
  cases t with
  | never => trivial
  | nullCheck field negated => exact Config.isIdentifier_of_names valid h
  | compare site op value => exact Site.isPlain_of_isNamed valid h

end Test

theorem Strategy.isPlain_test {s : Strategy} {field : String} {op : Operator} {value : Value}
    {priorities : PriorityTable} {t : Test} (hf : isIdentifier field)
    (hs : ∀ a, s = .associationContains a → a.IsPlain)
    (h : s.test field op value priorities = .ok t) : t.IsPlain := by
  obtain rfl | ⟨join, sought, own, -, -, rfl⟩ | ⟨account, numbers, -, -, -, rfl⟩ |
    ⟨keep, texts, -, -, -, rfl⟩ := test_eq_ok h
  · exact Test.isPlain_plain hf op value
  · exact ⟨hf, hs join own⟩
  · exact Test.isPlain_plain hf op numbers
  · exact Test.isPlain_oneOfTexts hf texts

namespace Plan

mutual
theorem exists_spells_of_mem_leaves {q : Query} {leaf : Predicate} : (p : Plan) → {x : Predicate} →
    p.Spells q x → leaf ∈ x.leaves → ∃ t ∈ p.tests, t.Spells q leaf
  | .test t, x, h, hl => by
    refine ⟨t, List.mem_singleton.2 rfl, ?_⟩
    cases t with
    | never =>
      subst h
      exact absurd hl List.not_mem_nil
    | nullCheck field negated =>
      subst h
      exact List.mem_singleton.1 hl
    | compare site op value =>
      obtain ⟨column, name, rfl, located, bound⟩ := h
      exact ⟨column, name, List.mem_singleton.1 hl, located, bound⟩
  | .group connector terms, x, h, hl => by
    obtain ⟨xs, rfl, h⟩ := h
    rw [Predicate.leaves_combine] at hl
    exact exists_spells_of_mem_leavesOf terms h hl

theorem exists_spells_of_mem_leavesOf {q : Query} {leaf : Predicate} : (ps : List Plan) →
    {xs : List Predicate} → Spell q ps xs → leaf ∈ Predicate.leavesOf xs →
    ∃ t ∈ testsOf ps, t.Spells q leaf
  | [], xs, h, hl => by
    subst h
    exact absurd hl List.not_mem_nil
  | p :: ps, xs, h, hl => by
    obtain ⟨y, ys, rfl, first, rest⟩ := h
    rcases List.mem_append.1 hl with hl | hl
    · obtain ⟨t, ht, spells⟩ := exists_spells_of_mem_leaves p first hl
      exact ⟨t, List.mem_append_left _ ht, spells⟩
    · obtain ⟨t, ht, spells⟩ := exists_spells_of_mem_leavesOf ps rest hl
      exact ⟨t, List.mem_append_right _ ht, spells⟩
end

namespace Writes
variable {p : Plan} {q : Query}

theorem isPlain_column (h : p.Writes q) {site : Site} {column : Column} (plain : site.IsPlain)
    (located : site.column? q.joins = some column) : column.IsPlain := by
  have target : isIdentifier targetAlias := by decide
  cases site with
  | own field =>
    cases located
    exact ⟨target, plain⟩
  | joined field a =>
    obtain ⟨j, found, rfl⟩ := Option.map_eq_some_iff.1 located
    obtain ⟨n, name⟩ := h.name_of_mem_joins (List.mem_of_find?_eq_some found)
    exact ⟨name ▸ Builder.isIdentifier_numberedName n, plain.2.2.2⟩

variable (plain : ∀ t ∈ p.tests, t.IsPlain)
include plain

theorem isPlain_join (h : p.Writes q) {j : Join} (hj : j ∈ q.joins) : j.IsPlain := by
  obtain ⟨field, a, op, value, ht, serves⟩ := h.joins j hj
  obtain ⟨source, table, key, -⟩ := plain _ ht
  obtain ⟨sameSource, sameTable, sameKey⟩ := Builder.Join.serves_iff.1 serves
  obtain ⟨n, name⟩ := h.name_of_mem_joins hj
  have target : isIdentifier targetAlias := by decide
  rw [Join.IsPlain, sameSource, sameTable, sameKey, name]
  exact ⟨table, Builder.isIdentifier_numberedName n, key, target, source⟩

theorem isPlainLeaf (h : p.Writes q) (fits : p.Fits) {leaf : Predicate}
    (hl : leaf ∈ q.predicate.leaves) : leaf.IsPlainLeaf := by
  obtain ⟨t, ht, spells⟩ := p.exists_spells_of_mem_leaves h.spells hl
  have target : isIdentifier targetAlias := by decide
  cases t with
  | never =>
    subst spells
    trivial
  | nullCheck field negated =>
    subst spells
    exact ⟨target, plain _ ht⟩
  | compare site op value =>
    obtain ⟨column, name, rfl, located, -⟩ := spells
    exact ⟨h.isPlain_column (plain _ ht) located, (fits _ ht).1⟩

theorem isPlain (h : p.Writes q) (fits : p.Fits) (table : isIdentifier q.table) : q.IsPlain :=
  ⟨table, fun _ hj => h.isPlain_join plain hj, fun _ hl => h.isPlainLeaf plain fits hl⟩

end Writes

theorem isPlain_query {p : Plan} {name : String} (fits : p.Fits) (plain : ∀ t ∈ p.tests, t.IsPlain)
    (table : isIdentifier name) : (p.query name).IsPlain :=
  (p.writes_query name).isPlain plain fits ((p.table_query name).symm ▸ table)

end Plan

/-- A compiler all of whose names are identifiers: those of its tables and columns were checked with
their configuration, and those of its associations have to be. -/
structure Compiler.IsPlain (c : Compiler) : Prop where
  accepted : c.config.IsAccepted
  columns : c.metadata = (c.config : MetadataResolver)
  associations : ∀ field op a, c.strategies.resolve? field op = some (.associationContains a) →
    a.IsPlain

namespace Compiler.IsPlain
variable {c : Compiler}

theorem isOf (h : c.IsPlain) : Compiler.IsOf { c with strategies := c.config.registry } c.config :=
  ⟨rfl, h.columns, rfl⟩

theorem isIdentifier_of_names (h : c.IsPlain) {name : String} (named : c.config.Names name) :
    isIdentifier name :=
  have ⟨_, valid⟩ := h.accepted
  Config.isIdentifier_of_names valid named

theorem isIdentifier_table (h : c.IsPlain) {target : String} {e : Entity}
    (entity : c.config.entity target = .ok e) : isIdentifier e.table :=
  h.isIdentifier_of_names (h.isOf.names_table entity)

theorem isPlain_test (h : c.IsPlain) {target : String} {e : Entity} {d : ConditionDefinition}
    {t : Test} (made : c.term (c.target target e) d = .ok (.test t)) : t.IsPlain := by
  obtain ⟨condition, -, made⟩ := bind_eq_ok.1 made
  obtain ⟨u, tested, made⟩ := bind_eq_ok.1 made
  cases made
  obtain ⟨⟨op, value⟩, -, tested⟩ := bind_eq_ok.1 tested
  obtain ⟨m, found, tested⟩ := bind_eq_ok.1 tested
  have field : isIdentifier m.field := h.isIdentifier_of_names (h.isOf.names_field found)
  split at tested
  next =>
    cases tested
    exact Test.isPlain_plain field op value
  next s resolved =>
    refine Strategy.isPlain_test field (fun a own => ?_) tested
    exact h.associations _ _ a (own ▸ resolved)

theorem isPlain_targetQuery (h : c.IsPlain) {g : Group} {target : String} {q : Query}
    (compiled : c.targetQuery g target = .ok q) : q.IsPlain := by
  obtain ⟨e, entity, -⟩ := bind_eq_ok.1 compiled
  obtain ⟨p, planned, rfl⟩ := (targetQuery_eq_ok entity).1 compiled
  refine Plan.isPlain_query (plan_fits g planned) (fun t ht => ?_) (h.isIdentifier_table entity)
  obtain ⟨d, made⟩ := exists_term_of_mem_tests g planned ht
  exact h.isPlain_test made

theorem ofConfig {config : Config} (accepted : config.IsAccepted) (now : Time.Instant) :
    (Compiler.ofConfig config now).IsPlain := by
  obtain ⟨given, valid⟩ := accepted
  obtain ⟨⟨⟩, -, checked⟩ := bind_eq_ok.1 valid
  obtain ⟨⟨⟩, strategies, checked⟩ := bind_eq_ok.1 checked
  cases checked
  exact ⟨⟨given, valid⟩, rfl, fun _ _ _ found => Config.isPlain_of_registry strategies found⟩

end Compiler.IsPlain
end Helpdesk
