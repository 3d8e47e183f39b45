import Helpdesk.Proofs.Rule.Parts
import Helpdesk.Proofs.Rule.Single

/-! Rules that ask for membership in a list. A cell is unknown to be outside of a list that holds a null,
unless it is inside; so `not_in` finds what `in` leaves over as long as no item is null, and finds nothing
at all when one is (`notOneOf_complements_oneOf`). -/

namespace Helpdesk

namespace Store

theorem Truth.or_eq_false_iff {a b : Truth} :
    Truth.or a b = some false ↔ a = some false ∧ b = some false := by
  rcases a with _ | _ | _ <;> rcases b with _ | _ | _ <;> decide

theorem Truth.any_eq_false_iff {ts : List Truth} :
    Truth.any ts = some false ↔ ∀ t ∈ ts, t = some false := by
  induction ts with
  | nil => simp
  | cons t ts ih => rw [any_cons, or_eq_false_iff, ih, List.forall_mem_cons]

theorem Truth.not_eq_true_iff {a : Truth} : Truth.not a = some true ↔ a = some false := by
  rcases a with _ | _ | _ <;> decide

namespace Cell
variable {a b : Affinity} {x y : Cell} {ys : List Cell}

theorem amongTruth_eq_any : amongTruth a x ys = Truth.any (ys.map (compareTruth .eq a .none x)) :=
  List.foldr_map.symm

theorem amongTruth_eq_true_iff :
    amongTruth a x ys = some true ↔ ∃ y ∈ ys, compareTruth .eq a .none x y = some true := by
  rw [amongTruth_eq_any, Truth.any_eq_true_iff, List.mem_map]

theorem amongTruth_eq_false_iff :
    amongTruth a x ys = some false ↔ ∀ y ∈ ys, compareTruth .eq a .none x y = some false := by
  rw [amongTruth_eq_any, Truth.any_eq_false_iff, List.forall_mem_map]

theorem compareTruth_null : compareTruth .eq a b x .null = none := by
  cases x <;> rfl

theorem compareTruth_ne_none (hx : x ≠ .null) (hy : y ≠ .null) :
    compareTruth .eq a b x y ≠ none := by
  have there : ¬ (x.isNull = true ∨ y.isNull = true) := by
    cases x <;> cases y <;> simp_all [isNull]
  rw [compareTruth, compareAs?, if_neg there]
  exact Option.some_ne_none _

theorem amongTruth_eq_false_iff_ne_true (hx : x ≠ .null) (hys : ∀ y ∈ ys, y ≠ .null) :
    amongTruth a x ys = some false ↔ amongTruth a x ys ≠ some true := by
  rw [amongTruth_eq_false_iff, ne_eq, amongTruth_eq_true_iff]
  simp only [not_exists, not_and]
  refine forall₂_congr fun y hy => ?_
  have known := compareTruth_ne_none (a := a) (b := .none) hx (hys y hy)
  rcases h : compareTruth .eq a .none x y with _ | _ | _ <;> simp_all

end Cell
end Store

open Store

def Value.IsUnknown (v : Value) : Prop := v = .null ∨ v = .real .nan

theorem Value.isUnknown_iff {v : Value} (single : v.isList = false) :
    v.IsUnknown ↔ Cell.ofValue v = .null := by
  cases v with
  | list items => cases single
  | real d => cases d <;> simp [IsUnknown, Cell.ofValue, Cell.ofValue?, Cell.admitted]
  | _ => simp [IsUnknown, Cell.ofValue, Cell.ofValue?, Cell.admitted]

namespace Compiler
variable {c : Compiler} {target : Target} {property : String} {op : Operator} {v : Value}
  {d : ConditionDefinition} {m : FieldMetadata}

theorem isDatetime_of_term {p : Plan} (list : op.takesList)
    (accepted : Condition.resolve c.conditions d target = .ok ⟨property, op, v⟩)
    (h : c.term target d = .ok p) : c.config.isDatetime target.name property = false := by
  obtain ⟨condition, resolved, h⟩ := bind_eq_ok.1 h
  obtain ⟨t, tested, -⟩ := bind_eq_ok.1 h
  obtain rfl : _ = condition := Except.ok.inj (accepted.symm.trans resolved)
  obtain ⟨compared, ok, -⟩ := bind_eq_ok.1 tested
  have mirror : op.timeMirror? = none := by
    cases op <;> first | rfl | cases list
  rw [comparison] at ok
  split at ok
  next => simp only [mirror, reduceCtorEq] at ok
  next timeless => exact Bool.not_eq_true _ ▸ timeless

theorem term_of_plain (accepted : Condition.resolve c.conditions d target = .ok ⟨property, op, v⟩)
    (metadata : target.metadata property = .ok m) (plain : c.strategies.resolve? m.field op = none)
    (timeless : c.config.isDatetime target.name property = false) :
    c.term target d = .ok (.test (.plain m.field op v)) := by
  refine bind_eq_ok.2 ⟨_, accepted, bind_eq_ok.2 ⟨_, ?_, rfl⟩⟩
  refine bind_eq_ok.2 ⟨(op, v), ?_, bind_eq_ok.2 ⟨m, metadata, ?_⟩⟩
  · rw [comparison, timeless]
    rfl
  · rw [plain]

end Compiler

section Lists
variable {s : Store} {c : Compiler} {target : String} {e : Entity} {t : Table} {property : String}
  {m : FieldMetadata} {items : List Value}

theorem Plan.runs_of_list {op op' : Operator} {field : String} {value : Value}
    (h : (Plan.test (.compare (.own field) op value)).Runs s t) :
    (Plan.test (.compare (.own field) op' value)).Runs s t := by
  have same : (Test.compare (.own field) op' value).sites =
      (Test.compare (.own field) op value).sites := by
    cases value with
    | list items => cases items <;> rfl
    | _ => rfl
  obtain ⟨words, -, values⟩ := h.tests _ (List.mem_singleton.2 rfl)
  refine runs_test ⟨?_, nofun, values⟩ ?_
  · exact fun site hs => words site (same ▸ hs)
  · exact fun site hs => h.looked site (by rw [looked]; exact same ▸ hs)

theorem Test.truth_oneOf {field : String} {row : Row} :
    (Test.plain field .oneOf (.list items)).truth s t row = some true ↔
      Cell.amongTruth (t.cellIn (some row) field).1 (t.cellIn (some row) field).2
        (items.map Cell.ofValue) = some true :=
  Iff.rfl

theorem Test.truth_notOneOf {field : String} {row : Row} :
    (Test.plain field .notOneOf (.list items)).truth s t row = some true ↔
      Cell.amongTruth (t.cellIn (some row) field).1 (t.cellIn (some row) field).2
        (items.map Cell.ofValue) = some false :=
  Truth.not_eq_true_iff

theorem exists_term_of_runs (entity : c.config.entity target = .ok e)
    (table : s.table? e.table = some t) {g : Group} {d : ConditionDefinition} (only : g.IsOnly d)
    (runs : ∃ found, s.targetRows c g target = .ok found) :
    ∃ p, c.term (c.target target e) d = .ok p := by
  obtain ⟨-, p, planned, -⟩ := (targetRows_iff entity table).1 runs
  obtain ⟨connector, plan⟩ := Compiler.plan_of_only (c.target target e) only
  rw [plan] at planned
  obtain ⟨p, made, -⟩ := map_eq_ok.1 planned
  exact ⟨p, made⟩

/-- Among the rows that have a cell in the column, `not_in` finds those that `in` does not find, as long
as no item of the list is unknown. With an unknown item it finds no row at all. -/
theorem notOneOf_complements_oneOf (entity : c.config.entity target = .ok e)
    (table : s.table? e.table = some t)
    (metadata : (c.target target e).metadata property = .ok m)
    (plain : c.strategies.resolve? m.field .oneOf = none ∧
      c.strategies.resolve? m.field .notOneOf = none)
    {d d' : ConditionDefinition} {g g' : Group} (only : g.IsOnly d) (only' : g'.IsOnly d')
    (accepted : Condition.resolve c.conditions d (c.target target e) =
      .ok ⟨property, .oneOf, .list items⟩)
    (accepted' : Condition.resolve c.conditions d' (c.target target e) =
      .ok ⟨property, .notOneOf, .list items⟩)
    (runs : (∃ found, s.targetRows c g target = .ok found) ∨
      ∃ found, s.targetRows c g' target = .ok found) :
    ∃ inside outside, s.targetRows c g target = .ok (t, inside) ∧
      s.targetRows c g' target = .ok (t, outside) ∧
      ((∀ item ∈ items, ¬ item.IsUnknown) → ∀ row ∈ t.rows,
        (t.cellIn (some row) m.field).2 ≠ .null → (row ∈ outside ↔ row ∉ inside)) ∧
      ((∃ item ∈ items, item.IsUnknown) → outside = []) := by
  have timeless : c.config.isDatetime (c.target target e).name property = false := by
    rcases runs with runs | runs
    · obtain ⟨p, made⟩ := exists_term_of_runs entity table only runs
      exact Compiler.isDatetime_of_term rfl accepted made
    · obtain ⟨p, made⟩ := exists_term_of_runs entity table only' runs
      exact Compiler.isDatetime_of_term rfl accepted' made
  have wanted {found : Table × List Row} : s.targetRows c g target = .ok found ↔ _ :=
    targetRows_of_only entity table only
      (Compiler.term_of_plain accepted metadata plain.1 timeless) Plan.joinsAtMostOne_own
  have unwanted {found : Table × List Row} : s.targetRows c g' target = .ok found ↔ _ :=
    targetRows_of_only entity table only'
      (Compiler.term_of_plain accepted' metadata plain.2 timeless) Plan.joinsAtMostOne_own
  obtain ⟨word, there⟩ : Statement.isReserved e.table = false ∧
      (Plan.test (.compare (.own m.field) .oneOf (.list items))).Runs s t := by
    rcases runs with ⟨found, h⟩ | ⟨found, h⟩
    · exact ⟨(wanted.1 h).1, (wanted.1 h).2.1⟩
    · exact ⟨(unwanted.1 h).1, Plan.runs_of_list (unwanted.1 h).2.1⟩
  have singles : ∀ item ∈ items, item.isList = false :=
    (there.tests _ (List.mem_singleton.2 rfl)).values _ rfl
  refine ⟨_, _, wanted.2 ⟨word, there, rfl⟩, unwanted.2 ⟨word, Plan.runs_of_list there, rfl⟩,
    fun known row hr hx => ?_, fun ⟨item, hi, unknown⟩ => ?_⟩
  · have cells : ∀ y ∈ items.map Cell.ofValue, y ≠ .null := by
      rw [List.forall_mem_map]
      exact fun item hi => mt (Value.isUnknown_iff (singles item hi)).2 (known item hi)
    rw [mem_inOrder, mem_inOrder, List.mem_filter, List.mem_filter, beq_iff_eq, beq_iff_eq,
      Test.truth_notOneOf, Test.truth_oneOf]
    simp only [hr, true_and]
    exact Cell.amongTruth_eq_false_iff_ne_true hx cells
  · refine List.eq_nil_iff_forall_not_mem.2 fun row hr => ?_
    have outside := beq_iff_eq.1 (List.mem_filter.1 (mem_inOrder.1 hr)).2
    rw [Test.truth_notOneOf, Cell.amongTruth_eq_false_iff] at outside
    have null := outside _ (List.mem_map_of_mem hi)
    rw [(Value.isUnknown_iff (singles item hi)).1 unknown, Cell.compareTruth_null] at null
    cases null

end Lists

namespace NullItem

def byStatus (operator : String) (items : List Value) : Group :=
  ⟨"and", [⟨"status", .binary operator (.list items)⟩], []⟩

/-- Neither rule finds an open ticket, if one of the states is null. -/
theorem targetRows_null : Config.helpdesk.validate = .ok .helpdesk ∧
    TwoParts.store.targetRows TwoParts.compiler (byStatus "in" [.null, .text "new"]) "ticket" =
      .ok (TwoParts.tickets, [TwoParts.ticket 1 "new" .null]) ∧
    TwoParts.store.targetRows TwoParts.compiler (byStatus "not_in" [.null, .text "new"]) "ticket" =
      .ok (TwoParts.tickets, []) ∧
    TwoParts.ticket 5 "open" .null ∈ TwoParts.tickets.rows ∧
    (TwoParts.tickets.cellIn (some (TwoParts.ticket 5 "open" .null)) "status").2 ≠ .null := by
  refine ⟨rfl, rfl, rfl, by decide, by decide⟩

/-- Without a null the rules share the tickets among them. -/
theorem targetRows_new : ∃ inside outside,
    TwoParts.store.targetRows TwoParts.compiler (byStatus "in" [.text "new"]) "ticket" =
      .ok (TwoParts.tickets, inside) ∧
    TwoParts.store.targetRows TwoParts.compiler (byStatus "not_in" [.text "new"]) "ticket" =
      .ok (TwoParts.tickets, outside) ∧
    ∀ row ∈ TwoParts.tickets.rows, (TwoParts.tickets.cellIn (some row) "status").2 ≠ .null →
      (row ∈ outside ↔ row ∉ inside) := by
  have entity : TwoParts.compiler.config.entity "ticket" = .ok Config.ticketEntity := rfl
  have only (operator : String) : (byStatus operator [.text "new"]).IsOnly
      ⟨"status", .binary operator (.list [.text "new"])⟩ := ⟨.inr rfl, rfl, rfl⟩
  have runs : ∃ found, TwoParts.store.targetRows TwoParts.compiler (byStatus "in" [.text "new"])
      "ticket" = .ok found := ⟨_, rfl⟩
  have known : ∀ item ∈ [Value.text "new"], ¬ item.IsUnknown := by
    simp [Value.IsUnknown]
  obtain ⟨inside, outside, wanted, unwanted, complement, -⟩ :=
    notOneOf_complements_oneOf (m := ⟨"status", .enum⟩) entity rfl rfl ⟨rfl, rfl⟩ (only "in")
      (only "not_in") rfl rfl (.inl runs)
  exact ⟨inside, outside, wanted, unwanted, complement known⟩

end NullItem
end Helpdesk
