import Helpdesk.Proofs.Rule.Erasure
import Helpdesk.Proofs.Rule.Plain

/-! Which compiled rules can be bound. A statement binds the items of a list one by one, and no item may
be a list again. Compilation asks whether a value is a list where one is due, and does not look at its
items; so a list that holds a list compiles, and no database can run it (`binds_iff`). -/

namespace Helpdesk
open Store

def Value.IsFlat (v : Value) : Prop := ∀ item ∈ v.items, item.isList = false

instance (v : Value) : Decidable v.IsFlat :=
  inferInstanceAs (Decidable (∀ item ∈ v.items, item.isList = false))

theorem Value.isFlat_of_isList {v : Value} (h : v.isList = false) : v.IsFlat := by
  cases v with
  | list items => cases h
  | _ => exact fun item hi => List.mem_singleton.1 hi ▸ h

def ConditionDefinition.operand (d : ConditionDefinition) : Value :=
  match d.parameters.operator.bind Operator.ofName? with
  | some op => if op.takesValue then d.parameters.value.getD .null else .null
  | none => .null

def Test.IsFlat (t : Test) : Prop := ∀ value ∈ t.value?, value.IsFlat

theorem Value.isFlat_of_takesList {op : Operator} {value : Value}
    (fits : op.takesList = value.isList) (single : op.takesList = false) : value.IsFlat :=
  isFlat_of_isList (fits.symm.trans single)

theorem Test.isFlat_plain {op : Operator} {value : Value} (fits : op.takesList = value.isList)
    (field : String) :
    (Test.plain field op value).IsFlat ↔ value.IsFlat := by
  cases op with
  | isNull => exact iff_of_true (fun _ => nofun) (Value.isFlat_of_takesList fits rfl)
  | isNotNull => exact iff_of_true (fun _ => nofun) (Value.isFlat_of_takesList fits rfl)
  | _ => exact ⟨fun flat => flat value rfl, fun flat v hv => Option.some.inj hv ▸ flat⟩

theorem Test.isFlat_oneOfTexts (field : String) (texts : List String) :
    (Test.oneOfTexts field texts).IsFlat := by
  cases texts with
  | nil => exact fun _ => nofun
  | cons s rest =>
    have fits : Operator.oneOf.takesList = (Value.ofTexts (s :: rest)).isList := rfl
    refine (isFlat_plain fits field).2 fun item hi => ?_
    obtain ⟨text, -, rfl⟩ := List.mem_map.1 hi
    rfl

namespace Condition

theorem operand_of_resolve {registry : ConditionRegistry} {target : Target} {d : ConditionDefinition}
    {c : Condition} (h : resolve registry d target = .ok c) :
    c.operator.takesList = c.value.isList ∧ c.value = d.operand := by
  have fits := resolve_fits h
  obtain ⟨kind, fieldType, -, -, allowed, shaped⟩ := resolve_eq_ok h
  have given := resolveValue_eq_ok shaped
  constructor
  · cases valued : c.operator.takesValue with
    | true => exact fits valued
    | false =>
      rw [valued] at given
      have single : c.operator.takesList = false := by
        rw [← Bool.not_eq_true]
        exact fun list => absurd (Operator.takesValue_of_takesList list) (by simp [valued])
      rw [single, given]
      rfl
  · have operator : d.parameters.operator.bind Operator.ofName? = some c.operator := by
      unfold resolveOperator at allowed
      split at allowed
      · cases allowed
      next name named =>
        split at allowed
        · cases allowed
        next op known =>
          obtain ⟨m, -, allowed⟩ := bind_eq_ok.1 allowed
          split at allowed
          · cases allowed
            rw [named, Option.bind_some, known]
          · cases allowed
    rw [ConditionDefinition.operand, operator, given]

end Condition

namespace Strategy

theorem isFlat_searchValue {field : String} {op : Operator} {value sought : Value}
    (fits : op.takesList = value.isList) (h : searchValue field op value = .ok sought) :
    sought.IsFlat ↔ value.IsFlat := by
  unfold searchValue at h
  split at h
  next =>
    obtain ⟨s, -, rfl⟩ := map_eq_ok.1 h
    exact iff_of_true (Value.isFlat_of_isList rfl) (Value.isFlat_of_takesList fits rfl)
  next =>
    obtain ⟨s, -, rfl⟩ := map_eq_ok.1 h
    exact iff_of_true (Value.isFlat_of_isList rfl) (Value.isFlat_of_takesList fits rfl)
  next =>
    cases h
    rfl

theorem isList_of_userNumber_ok {field : String} {account : Option Account} {value number : Value}
    (h : userNumber field account value = .ok number) : value.isList = false := by
  cases value with
  | list items => cases h
  | _ => rfl

theorem isFlat_userNumbers {field : String} {account : Option Account} {value numbers : Value}
    (h : userNumbers field account value = .ok numbers) : numbers.IsFlat ↔ value.IsFlat := by
  unfold userNumbers at h
  split at h
  next items =>
    obtain ⟨found, looked, rfl⟩ := map_eq_ok.1 h
    refine (forall_mem_iff_of_forall₂ (mapM_eq_ok_iff.1 looked) fun item number same => ?_).symm
    exact iff_of_true (isList_of_userNumber_ok same) (isList_of_userNumber same)
  next =>
    exact iff_of_true (Value.isFlat_of_isList (isList_of_userNumber h))
      (Value.isFlat_of_isList (isList_of_userNumber_ok h))

theorem takesList_of_keep? {op : Operator} {keep : Int64 → Int64 → Bool} (h : keep? op = some keep) :
    op.takesList = false := by
  cases op <;> first | rfl | cases h

/-- What a strategy compares with has a list among its items just when the given value has one. -/
theorem isFlat_test {s : Strategy} {field : String} {op : Operator} {value : Value}
    {priorities : PriorityTable} {t : Test} (fits : op.takesList = value.isList)
    (h : s.test field op value priorities = .ok t) : t.IsFlat ↔ value.IsFlat := by
  obtain rfl | ⟨join, sought, rfl, -, found, rfl⟩ | ⟨account, numbers, rfl, -, found, rfl⟩ |
    ⟨keep, texts, rfl, ordering, -, rfl⟩ := test_eq_ok h
  · exact Test.isFlat_plain fits field
  · rw [← isFlat_searchValue fits found]
    exact ⟨fun flat => flat sought rfl, fun flat v hv => Option.some.inj hv ▸ flat⟩
  · have fits' : op.takesList = numbers.isList := fits.trans (isList_of_userNumbers found).symm
    rw [Test.isFlat_plain fits' field, isFlat_userNumbers found]
  · exact iff_of_true (Test.isFlat_oneOfTexts field texts)
      (Value.isFlat_of_takesList fits (takesList_of_keep? ordering))

end Strategy

namespace Compiler
variable {c : Compiler} {target : Target}

theorem isFlat_comparison {condition : Condition} {op : Operator} {value : Value}
    (fits : condition.operator.takesList = condition.value.isList)
    (h : c.comparison target condition = .ok (op, value)) :
    op.takesList = value.isList ∧ (value.IsFlat ↔ condition.value.IsFlat) := by
  rw [comparison] at h
  split at h
  · split at h
    · cases h
    next mirror =>
      obtain ⟨moment, ago, h⟩ := bind_eq_ok.1 h
      cases h
      have single := isList_of_hoursAgo ago
      have ordering : condition.operator.takesList = false := by
        cases op : condition.operator <;> first | rfl | (rw [op] at mirror; cases mirror)
      exact ⟨(Operator.takesList_of_timeMirror? mirror).trans single.symm,
        iff_of_true (Value.isFlat_of_isList single) (Value.isFlat_of_takesList fits ordering)⟩
  · cases h
    exact ⟨fits, Iff.rfl⟩

theorem isFlat_term {d : ConditionDefinition} {t : Test} (h : c.term target d = .ok (.test t)) :
    t.IsFlat ↔ d.operand.IsFlat := by
  obtain ⟨condition, resolved, h⟩ := bind_eq_ok.1 h
  obtain ⟨u, tested, h⟩ := bind_eq_ok.1 h
  cases h
  obtain ⟨fits, operand⟩ := Condition.operand_of_resolve resolved
  obtain ⟨⟨op, value⟩, compared, tested⟩ := bind_eq_ok.1 tested
  obtain ⟨m, -, tested⟩ := bind_eq_ok.1 tested
  obtain ⟨fits', same⟩ := isFlat_comparison fits compared
  rw [← operand, ← same]
  split at tested
  · cases tested
    exact Test.isFlat_plain fits' m.field
  · exact Strategy.isFlat_test fits' tested

theorem exists_test_of_term {d : ConditionDefinition} {p : Plan} (h : c.term target d = .ok p) :
    ∃ t, p = .test t := by
  obtain ⟨condition, -, h⟩ := bind_eq_ok.1 h
  obtain ⟨t, -, h⟩ := bind_eq_ok.1 h
  cases h
  exact ⟨t, rfl⟩

theorem forall₂_of_terms {ds : List ConditionDefinition} {ps : List Plan}
    (h : ds.mapM (c.term target) = .ok ps) :
    List.Forall₂ (fun d t => c.term target d = .ok (.test t)) ds (Plan.testsOf ps) := by
  have terms := mapM_eq_ok_iff.1 h
  clear h
  induction terms with
  | nil => exact .nil
  | cons made _ ih =>
    obtain ⟨t, rfl⟩ := exists_test_of_term made
    exact .cons made ih

mutual
theorem forall₂_of_plan : (g : Group) → {p : Plan} → c.plan target g = .ok p →
    List.Forall₂ (fun d t => c.term target d = .ok (.test t)) g.effective p.tests
  | ⟨connector, conditions, []⟩, p, h => by
    obtain ⟨connector, -, h⟩ := bind_eq_ok.1 h
    obtain ⟨ps, terms, h⟩ := bind_eq_ok.1 h
    cases h
    rw [Group.effective_leaf]
    exact forall₂_of_terms terms
  | ⟨connector, conditions, g :: gs⟩, p, h => by
    obtain ⟨connector, -, h⟩ := bind_eq_ok.1 h
    obtain ⟨first, planned, h⟩ := bind_eq_ok.1 h
    obtain ⟨rest, others, h⟩ := bind_eq_ok.1 h
    cases h
    rw [Group.effective_node]
    exact List.rel_append (forall₂_of_plan g planned) (forall₂_of_plans gs others)

theorem forall₂_of_plans : (gs : List Group) → {ps : List Plan} → c.plans target gs = .ok ps →
    List.Forall₂ (fun d t => c.term target d = .ok (.test t)) (Group.effectiveOf gs)
      (Plan.testsOf ps)
  | [], ps, h => by
    cases h
    exact .nil
  | g :: gs, ps, h => by
    obtain ⟨first, planned, h⟩ := bind_eq_ok.1 h
    obtain ⟨rest, others, h⟩ := bind_eq_ok.1 h
    cases h
    rw [Group.effectiveOf_cons]
    exact List.rel_append (forall₂_of_plan g planned) (forall₂_of_plans gs others)
end

end Compiler

namespace Store

theorem table_ne_boundList (s : Store) (name : String) : s.table name ≠ .error .boundList := by
  intro h
  rw [table] at h
  split at h <;> cases h

theorem ranges_ne_boundList (s : Store) (table : String) (joins : List Join) :
    s.ranges table joins ≠ .error .boundList := by
  intro h
  rcases bind_eq_error.1 h with missing | ⟨first, -, h⟩
  · exact s.table_ne_boundList table missing
  · rcases bind_eq_error.1 h with others | ⟨rest, -, h⟩
    · have faulty := fault?_eq_some_iff.2 others
      rw [fault?_mapM] at faulty
      obtain ⟨j, -, faulty⟩ := List.exists_of_findSome?_eq_some faulty
      rcases bind_eq_error.1 (fault?_eq_some_iff.1 faulty) with missing | ⟨t, -, h⟩
      · exact s.table_ne_boundList j.table missing
      · cases h
    · cases h

theorem selectRows_ne_boundList (s : Store) {st : Statement}
    (singles : ∀ v ∈ st.parameters, v.isList = false) : s.selectRows st ≠ .error .boundList := by
  intro h
  rw [selectRows] at h
  split at h
  · cases h
  · rcases bind_eq_error.1 h with ranges | ⟨scope, -, h⟩
    · exact s.ranges_ne_boundList _ _ ranges
    rcases bind_eq_error.1 h with columns | ⟨⟨⟩, -, h⟩
    · rw [checkColumns] at columns
      split at columns <;> cases columns
    rcases bind_eq_error.1 h with bound | ⟨cells, -, h⟩
    · rw [bindAll_eq_ok.2 ⟨singles, rfl⟩] at bound
      cases bound
    rcases bind_eq_error.1 h with missing | ⟨t, -, h⟩
    · exact s.table_ne_boundList _ missing
    · cases h

theorem outcome_eq_storage {α : Type} {r : Result α} {fault : StoreFault} :
    outcome r = .error (.storage fault) ↔ r = .error fault := by
  cases r <;> simp [outcome]

theorem runText_ne_boundList (s : Store) (text : String) {values : List Value}
    (singles : ∀ v ∈ values, v.isList = false) : s.runText text values ≠ .error .boundList := by
  rw [runText]
  split
  · exact s.selectRows_ne_boundList singles
  · exact fun h => StoreFault.noConfusion (Except.error.inj h)

theorem singles_of_runText {s : Store} {text : String} {values : List Value}
    {found : Table × List Row} (h : s.runText text values = .ok found) :
    ∀ v ∈ values, v.isList = false := by
  rw [runText] at h
  split at h
  · obtain ⟨t, pairs, -, -, -, -, singles, -⟩ := selectRows_eq_ok.1 h
    exact singles
  · cases h

theorem queryRows_eq {s : Store} {q : Query} {st : Statement} (h : q.statement = .ok st) :
    s.queryRows q = outcome (s.runText st.toSql st.parameters) := by
  simp only [queryRows, h, bind, Except.bind]

end Store

namespace Compiler
variable {c : Compiler} {q : Query}

theorem parameters_isList_iff {g : Group} {target : String} {st : Statement}
    (h : c.targetQuery g target = .ok q) (hs : q.statement = .ok st) :
    (∀ v ∈ st.parameters, v.isList = false) ↔ ∀ d ∈ g.effective, d.operand.IsFlat := by
  rw [targetQuery_eq] at h
  obtain ⟨e, -, h⟩ := bind_eq_ok.1 h
  obtain ⟨p, planned, h⟩ := bind_eq_ok.1 h
  cases h
  rw [(p.writes_query e.table).parameters_iff (plan_fits g planned) hs]
  exact (forall_mem_iff_of_forall₂ (forall₂_of_plan g planned) fun d t made =>
    (isFlat_term made).symm).symm

/-- A compiled rule has a statement, and the database has cells for all of its parameters just when no
condition that counts compares with a list in a list. Such a rule is never refused for a list; any other
one compiles as well, and finds nothing on any database. -/
theorem binds_iff {rule : Rule} (h : c.ruleQuery rule = .ok q) : ∃ st, q.statement = .ok st ∧
    ((∀ v ∈ st.parameters, (Cell.ofValue? v).isSome) ↔
      ∀ d ∈ rule.grouping.effective, d.operand.IsFlat) ∧
    ((∀ d ∈ rule.grouping.effective, d.operand.IsFlat) →
      ∀ s : Store, s.execute q ≠ .error (.storage .boundList)) ∧
    ((∃ d ∈ rule.grouping.effective, ¬ d.operand.IsFlat) →
      ∀ (s : Store) (records : List Record), s.execute q ≠ .ok records) := by
  obtain ⟨⟨st, hs, -⟩, -⟩ := statement_of_compiled (.inr ⟨rule, h⟩)
  have flat := parameters_isList_iff h hs
  have cells (v : Value) : (Cell.ofValue? v).isSome ↔ v.isList = false := by
    cases v <;> simp [Cell.ofValue?, Value.isList]
  refine ⟨st, hs, ?_, fun flats s refused => ?_, fun nested s records found => ?_⟩
  · simp only [cells]
    exact flat
  · rcases bind_eq_error.1 refused with run | ⟨found, -, refused⟩
    · rw [Store.queryRows_eq hs, outcome_eq_storage] at run
      exact s.runText_ne_boundList _ (flat.2 flats) run
    · cases refused
  · obtain ⟨rows, run, -⟩ := bind_eq_ok.1 found
    rw [Store.queryRows_eq hs, outcome_eq_ok] at run
    have singles := singles_of_runText run
    obtain ⟨d, hd, list⟩ := nested
    exact list (flat.1 singles d hd)

end Compiler

namespace NestedList

def rule : Rule where
  name := "nested"
  target := "ticket"
  grouping := ⟨"and", [⟨"status", .binary "in" (.list [.list [.text "new"]])⟩], []⟩

def compiler : Compiler := .ofConfig .helpdesk .epoch

/-- The rule compiles under a configuration that was validated, and a database refuses its list. -/
theorem execute_nested : Config.helpdesk.validate = .ok .helpdesk ∧
    ∃ q st, compiler.ruleQuery rule = .ok q ∧ q.statement = .ok st ∧
      (∃ v ∈ st.parameters, Cell.ofValue? v = none) ∧
      fresh.execute q = .error (.storage .boundList) := by
  have plain : compiler.IsPlain := .ofConfig Config.isAccepted_helpdesk .epoch
  obtain ⟨q, compiled, written⟩ : ∃ q, compiler.ruleQuery rule = .ok q ∧ q.statement =
      .ok ⟨"tickets", [], .among (Builder.column "status") .oneOf [1], [.list [.text "new"]]⟩ :=
    ⟨_, rfl, rfl⟩
  have refused : fresh.queryRows q = .error (.storage .boundList) := by
    rw [queryRows_of_isPlain (plain.isPlain_targetQuery compiled), written]
    rfl
  exact ⟨rfl, q, _, compiled, written, ⟨_, List.mem_singleton.2 rfl, rfl⟩,
    bind_eq_error.2 (.inl refused)⟩

def unbranched : Rule where
  name := "unbranched"
  target := "ticket"
  grouping := ⟨"and", [⟨"status", .binary "in" (.ofTexts ["new", "open"])⟩,
    ⟨"branch", .binary "is_null" (.list [.list []])⟩], []⟩

theorem binds_unbranched : ∃ q st, compiler.ruleQuery unbranched = .ok q ∧ q.statement = .ok st ∧
    (∀ v ∈ st.parameters, (Cell.ofValue? v).isSome) ∧
    ∀ s : Store, s.execute q ≠ .error (.storage .boundList) := by
  have compiled : ∃ q, compiler.ruleQuery unbranched = .ok q := ⟨_, rfl⟩
  obtain ⟨q, h⟩ := compiled
  obtain ⟨st, hs, cells, bound, -⟩ := Compiler.binds_iff h
  have flat : ∀ d ∈ unbranched.grouping.effective, d.operand.IsFlat := by decide
  exact ⟨q, st, h, hs, cells.2 flat, bound flat⟩

end NestedList
end Helpdesk
