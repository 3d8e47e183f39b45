import Helpdesk.Proofs.Rule.Membership
import Helpdesk.Proofs.Store.Lookup

/-! Rules that ask for priorities past a threshold. The threshold becomes the list of all priorities whose
weight stands in the relation to its own, and the list a membership of the column; so the rows that the
text of the query finds are those whose priority has such a weight (`rowsPast_by_weight`), also where no
priority has. -/

namespace Helpdesk
open Store

def Operator.Orders : Operator → Int64 → Int64 → Prop
  | .gt, w, limit => limit < w
  | .gte, w, limit => limit ≤ w
  | .lt, w, limit => w < limit
  | .lte, w, limit => w ≤ limit
  | _, _, _ => False

instance (op : Operator) (w limit : Int64) : Decidable (op.Orders w limit) :=
  match op with
  | .gt => inferInstanceAs (Decidable (limit < w))
  | .gte => inferInstanceAs (Decidable (limit ≤ w))
  | .lt => inferInstanceAs (Decidable (w < limit))
  | .lte => inferInstanceAs (Decidable (w ≤ limit))
  | .eq | .neq | .oneOf | .notOneOf | .like | .notLike | .isNull | .isNotNull =>
    inferInstanceAs (Decidable False)

/-- Two orders of which one asks for what the other leaves over. -/
def Operator.Opposite (above below : Operator) : Prop :=
  above = .gt ∧ below = .lte ∨ above = .gte ∧ below = .lt

theorem Operator.Opposite.orders_iff {above below : Operator} (h : above.Opposite below)
    (w limit : Int64) : below.Orders w limit ↔ ¬ above.Orders w limit := by
  rcases h with ⟨rfl, rfl⟩ | ⟨rfl, rfl⟩
  · exact Int64.not_lt.symm
  · exact Int64.not_le.symm

theorem Operator.Opposite.isOrdering {above below : Operator} (h : above.Opposite below) :
    above.isOrdering ∧ below.isOrdering := by
  rcases h with ⟨rfl, rfl⟩ | ⟨rfl, rfl⟩ <;> exact ⟨rfl, rfl⟩

theorem Operator.Opposite.any_iff {above below : Operator} (h : above.Opposite below)
    (weight : Option Int64) (limit : Int64) :
    ¬ (weight.any (above.Orders · limit) ∧ weight.any (below.Orders · limit)) ∧
      (weight.any (above.Orders · limit) ∨ weight.any (below.Orders · limit) ↔ weight.isSome) := by
  cases weight with
  | none => simp
  | some w =>
    simp only [Option.any_some, decide_eq_true_eq, h.orders_iff, Option.isSome_some, iff_true]
    exact ⟨and_not_self, em _⟩

theorem Strategy.exists_keep {op : Operator} (ordering : op.isOrdering) :
    ∃ keep, keep? op = some keep ∧ ∀ w limit, keep w limit = decide (op.Orders w limit) := by
  cases op with
  | gt | gte | lt | lte => exact ⟨_, rfl, fun w limit => rfl⟩
  | _ => cases ordering

namespace PriorityTable

def limit? (t : PriorityTable) (threshold : Value) : Option Int64 := threshold.text?.bind t.weight?

def past (t : PriorityTable) (op : Operator) (limit : Int64) : List String :=
  (t.entries.filter fun e => op.Orders e.2 limit).map Prod.fst

theorem mem_past {t : PriorityTable} {op : Operator} {limit : Int64} {priority : String} :
    priority ∈ t.past op limit ↔ ∃ w, t.weight? priority = some w ∧ op.Orders w limit := by
  simp only [past, List.mem_map, List.mem_filter, mem_entries, decide_eq_true_eq, weight?,
    Dict.get?_eq_some_iff]
  constructor
  · rintro ⟨⟨_, w⟩, ⟨entry, orders⟩, rfl⟩
    exact ⟨w, entry, orders⟩
  · rintro ⟨w, entry, orders⟩
    exact ⟨(priority, w), ⟨entry, orders⟩, rfl⟩

end PriorityTable

namespace Strategy
variable {field : String} {priorities : PriorityTable} {op : Operator} {value : Value}

theorem compile_of_limit?_eq_none (ordering : op.isOrdering) (h : priorities.limit? value = none)
    (b : Builder) : ∃ e, weightedRange.compile b field op value priorities = (.error e, b) ∧
      e.kind = .conditionResolution := by
  obtain ⟨keep, known, -⟩ := exists_keep ordering
  have valued : op.takesValue = true := by
    cases op <;> first | rfl | cases ordering
  simp only [compile, valued, known, Bool.not_true, Bool.false_eq_true, if_false, pastThreshold]
  rw [PriorityTable.limit?] at h
  cases named : value.text? with
  | none => exact ⟨_, rfl, rfl⟩
  | some threshold =>
    rw [named, Option.bind_some] at h
    simp only [PriorityTable.select?, h, Option.map_none]
    exact ⟨_, rfl, rfl⟩

theorem test_of_limit? {limit : Int64} (ordering : op.isOrdering)
    (h : priorities.limit? value = some limit) :
    weightedRange.test field op value priorities =
      .ok (.oneOfTexts field (priorities.past op limit)) := by
  obtain ⟨keep, known, orders⟩ := exists_keep ordering
  obtain ⟨threshold, named, weight⟩ := Option.bind_eq_some_iff.1 h
  have past : pastThreshold field priorities keep value = .ok (priorities.past op limit) := by
    simp only [pastThreshold, named, PriorityTable.select?, weight, Option.map_some, orders]
    rfl
  rw [test_weightedRange known, past]
  rfl

end Strategy

namespace Store

/-- A table that can be named in a statement, with a column of texts as the column keeps them. -/
structure HasTexts (s : Store) (name : String) (t : Table) (field : String) : Prop where
  table : s.table? name = some t
  plain : ∀ word ∈ [name, field], isIdentifier word
  words : ∀ word ∈ [name, field], Statement.isReserved word = false
  column : (t.schema.place? field).isSome
  texts : ∀ row ∈ t.rows, ∃ a p, t.cellIn (some row) field = (a, .text p) ∧
    Cell.stored a (.text p) = .text p

def Table.weight? (t : Table) (field : String) (priorities : PriorityTable) (row : Row) :
    Option Int64 :=
  match (t.cellIn (some row) field).2 with
  | .text p => priorities.weight? p
  | _ => none

def rowsPast (s : Store) (priorities : PriorityTable) (name field : String) (op : Operator)
    (threshold : Value) : Outcome (Table × List Row) :=
  match Strategy.weightedRange.compile (.selectFrom name) field op threshold priorities with
  | (.error e, _) => .error e
  | (.ok p, b) => s.queryRows (b.toQuery p)

namespace Cell

theorem not_text_of_ofNumeral? {s : String} {c : Cell} (h : ofNumeral? s = some c) (p : String) :
    c ≠ .text p ∧ c.narrow ≠ .text p := by
  have number (whole : Prop) [Decidable whole] (i : Int64) (d : Double) :
      (if whole then Cell.int i else .real d) ≠ .text p ∧
        (if whole then Cell.int i else .real d).narrow ≠ .text p := by
    split
    · exact ⟨nofun, nofun⟩
    · refine ⟨nofun, ?_⟩
      rw [narrow]
      split
      · split <;> nofun
      · nofun
  simp only [ofNumeral?, Option.map_eq_some_iff] at h
  obtain ⟨n, -, rfl⟩ := h
  exact number _ _ _

theorem order_text {p : String} {c : Cell} (h : ∀ q, c ≠ .text q) : order (.text p) c ≠ .eq := by
  cases c with
  | text q => exact absurd rfl (h q)
  | _ => exact nofun

/-- A text that a column keeps as it is equals itself there, and no other text. -/
theorem compareTruth_texts {a : Affinity} {p : String} (kept : stored a (.text p) = .text p)
    (y : String) : compareTruth .eq a .none (.text p) (.text y) = some (decide (p = y)) := by
  have texts : some (compareTexts p y == .eq) = some (decide (p = y)) := by
    rw [compareTexts_beq_eq]
  cases a with
  | text => exact texts
  | none => exact texts
  | integer =>
    have own : ofNumeral? p = none := by
      cases numeral : ofNumeral? p with
      | none => rfl
      | some c =>
        rw [stored, numeral] at kept
        exact absurd kept (not_text_of_ofNumeral? numeral p).2
    have compared : compareTruth .eq .integer .none (.text p) (.text y) =
        some (order ((ofNumeral? p).getD (.text p)) ((ofNumeral? y).getD (.text y)) == .eq) := rfl
    rw [compared, own]
    cases numeral : ofNumeral? y with
    | none => exact texts
    | some c =>
      have other : p ≠ y := by
        rintro rfl
        rw [own] at numeral
        cases numeral
      have apart := order_text (p := p) fun q => (not_text_of_ofNumeral? numeral q).1
      simp [other, apart]

end Cell

section Past
variable {s : Store} {t : Table} {name field : String} {priorities : PriorityTable} {op : Operator}
  {threshold : Value} {texts : List String}

theorem rowsPast_eq {leaf : Test}
    (made : Strategy.weightedRange.test field op threshold priorities = .ok leaf) :
    s.rowsPast priorities name field op threshold = s.queryRows ((Plan.test leaf).query name) := by
  have written :=
    Strategy.weightedRange.compile_eq (.selectFrom name) field op threshold priorities
  rw [made] at written
  rw [rowsPast]
  cases compiled : Strategy.weightedRange.compile (.selectFrom name) field op threshold priorities with
  | mk result b =>
    rw [compiled] at written
    cases result with
    | error e => cases written
    | ok p =>
      have emitted : (p, b) = leaf.emit (.selectFrom name) := Except.ok.inj written
      rw [Plan.query, Plan.emit, ← emitted]

theorem HasTexts.runs (h : s.HasTexts name t field) :
    (Plan.test (.oneOfTexts field texts)).Runs s t := by
  cases texts with
  | nil =>
    refine Plan.runs_test ⟨?_, nofun, fun _ => nofun⟩ ?_
    · exact fun _ hs => absurd hs List.not_mem_nil
    · exact fun _ hs => absurd hs List.not_mem_nil
  | cons text texts =>
    refine Plan.runs_own (h.words field (by simp)) h.column fun item hi => ?_
    obtain ⟨_, -, rfl⟩ := List.mem_map.1 hi
    rfl

theorem joinsAtMostOne_oneOfTexts : (Plan.test (.oneOfTexts field texts)).JoinsAtMostOne s t := by
  cases texts with
  | nil =>
    intro own a op value hl
    cases List.mem_singleton.1 hl
  | cons text texts => exact Plan.joinsAtMostOne_own

theorem truth_oneOfTexts_iff {row : Row} {a : Affinity} {p : String}
    (cell : t.cellIn (some row) field = (a, .text p)) (kept : Cell.stored a (.text p) = .text p) :
    (Test.oneOfTexts field texts).truth s t row = some true ↔ p ∈ texts := by
  cases texts with
  | nil => simp [Test.oneOfTexts, Test.truth]
  | cons text texts =>
    have cells : ((text :: texts).map Value.text).map Cell.ofValue =
        (text :: texts).map Cell.text := List.map_map
    change (Test.plain field .oneOf (.list ((text :: texts).map Value.text))).truth s t row =
      some true ↔ _
    rw [Test.truth_oneOf, cell, Cell.amongTruth_eq_true_iff, cells]
    constructor
    · rintro ⟨y, hy, equal⟩
      obtain ⟨q, hq, rfl⟩ := List.mem_map.1 hy
      rw [Cell.compareTruth_texts kept, Option.some.injEq, decide_eq_true_eq] at equal
      exact equal ▸ hq
    · intro hp
      exact ⟨_, List.mem_map_of_mem hp, by simp [Cell.compareTruth_texts kept]⟩

theorem fits_oneOfTexts : (Plan.test (.oneOfTexts field texts)).Fits := by
  intro leaf hl
  obtain rfl := List.mem_singleton.1 hl
  exact Test.fits_oneOfTexts field texts

theorem HasTexts.isPlain_query (h : s.HasTexts name t field) :
    ((Plan.test (.oneOfTexts field texts)).query name).IsPlain := by
  refine Plan.isPlain_query fits_oneOfTexts (fun leaf hl => ?_) (h.plain name (by simp))
  rw [List.mem_singleton.1 hl]
  exact Test.isPlain_oneOfTexts (h.plain field (by simp)) texts

theorem rowsPast_eq_filter {limit : Int64} (h : s.HasTexts name t field) (ordering : op.isOrdering)
    (known : priorities.limit? threshold = some limit) :
    s.rowsPast priorities name field op threshold =
      .ok (t, inOrder t (t.rows.filter fun row =>
        (t.weight? field priorities row).any fun w => op.Orders w limit)) := by
  obtain ⟨st, hs, run⟩ := Plan.selectRows_query fits_oneOfTexts h.table (h.words name (by simp))
    h.runs joinsAtMostOne_oneOfTexts
  rw [rowsPast_eq (Strategy.test_of_limit? ordering known), queryRows_of_isPlain h.isPlain_query]
  refine bind_eq_ok.2 ⟨st, hs, outcome_eq_ok.2 (run.trans (congrArg Except.ok ?_))⟩
  refine congrArg (fun kept => (t, inOrder t kept)) (List.filter_congr fun row hr => ?_)
  obtain ⟨a, p, cell, kept⟩ := h.texts row hr
  rw [Bool.eq_iff_iff, beq_iff_eq, Plan.truth, truth_oneOfTexts_iff cell kept,
    PriorityTable.mem_past, Table.weight?, cell, Option.any_eq_true]
  simp only [decide_eq_true_eq]

/-- A threshold that names no value of the table of priorities is refused before anything is bound. Any
other one selects by weight, on every table with texts in the column, and two opposite orders share the
rows whose priority has a weight among them. -/
theorem rowsPast_by_weight (priorities : PriorityTable) (field : String) (threshold : Value) :
    (priorities.limit? threshold = none → ∀ op : Operator, op.isOrdering → ∀ b : Builder, ∃ e,
      Strategy.weightedRange.compile b field op threshold priorities = (.error e, b) ∧
        e.kind = .conditionResolution) ∧
    ∀ limit, priorities.limit? threshold = some limit → ∀ (s : Store) (t : Table) (name : String),
      s.HasTexts name t field →
      (∀ op : Operator, op.isOrdering → s.rowsPast priorities name field op threshold =
        .ok (t, inOrder t (t.rows.filter fun row =>
          (t.weight? field priorities row).any fun w => op.Orders w limit))) ∧
      ∀ above below : Operator, above.Opposite below →
        ∃ rows rows', s.rowsPast priorities name field above threshold = .ok (t, rows) ∧
          s.rowsPast priorities name field below threshold = .ok (t, rows') ∧
          (∀ row, ¬ (row ∈ rows ∧ row ∈ rows')) ∧
          ∀ row, row ∈ rows ∨ row ∈ rows' ↔
            row ∈ t.rows ∧ (t.weight? field priorities row).isSome := by
  refine ⟨fun unknown op ordering b => Strategy.compile_of_limit?_eq_none ordering unknown b,
    fun limit known s t name h => ⟨fun op ordering => rowsPast_eq_filter h ordering known, ?_⟩⟩
  intro above below opposite
  obtain ⟨upper, lower⟩ := opposite.isOrdering
  refine ⟨_, _, rowsPast_eq_filter h upper known, rowsPast_eq_filter h lower known,
    fun row => ?_, fun row => ?_⟩
  · rw [mem_inOrder, mem_inOrder, List.mem_filter, List.mem_filter]
    rintro ⟨⟨-, more⟩, -, less⟩
    exact (opposite.any_iff _ limit).1 ⟨more, less⟩
  · rw [mem_inOrder, mem_inOrder, List.mem_filter, List.mem_filter, ← and_or_left]
    exact and_congr_right fun _ => (opposite.any_iff _ limit).2

end Past
end Store

namespace Jobs

def priorities : PriorityTable :=
  .ofEntries [("low", -5), ("high", 0), ("medium", 3), ("high", 3)]

def jobs : Table where
  schema := ⟨"jobs", [Schema.textColumn "priority"], none, false, [], []⟩
  rows := [⟨1, [.text "low"]⟩, ⟨2, [.text "high"]⟩, ⟨3, [.text "urgent"]⟩]
  lastRowid := 3

def store : Store := ⟨[jobs]⟩

theorem hasTexts : store.HasTexts "jobs" jobs "priority" where
  table := rfl
  plain := by decide
  words := by decide
  column := rfl
  texts := by
    simp only [jobs, List.forall_mem_cons]
    exact ⟨⟨_, _, rfl, rfl⟩, ⟨_, _, rfl, rfl⟩, ⟨_, _, rfl, rfl⟩, fun row hr =>
      absurd hr List.not_mem_nil⟩

/-- One job is as urgent as `medium`, none is more so, and one has a priority that is not known. -/
theorem rowsPast_medium :
    (store.rowsPast priorities "jobs" "priority" .gte (.text "medium") =
      .ok (jobs, [⟨2, [.text "high"]⟩])) ∧
    store.rowsPast priorities "jobs" "priority" .gt (.text "medium") = .ok (jobs, []) ∧
    store.rowsPast priorities "jobs" "priority" .lt (.text "medium") =
      .ok (jobs, [⟨1, [.text "low"]⟩]) ∧
    ∃ e, Strategy.weightedRange.compile (.selectFrom "jobs") "priority" .gt (.text "urgent")
      priorities = (.error e, .selectFrom "jobs") ∧ e.kind = .conditionResolution := by
  obtain ⟨-, known⟩ := rowsPast_by_weight priorities "priority" (.text "medium")
  obtain ⟨unknown, -⟩ := rowsPast_by_weight priorities "priority" (.text "urgent")
  obtain ⟨rows, -⟩ := known 3 (by decide) store jobs "jobs" hasTexts
  have kept (op : Operator) (ordering : op.isOrdering) (found : List Row)
      (same : inOrder jobs (jobs.rows.filter fun row =>
        (jobs.weight? "priority" priorities row).any fun w => op.Orders w 3) = found) :
      store.rowsPast priorities "jobs" "priority" op (.text "medium") = .ok (jobs, found) :=
    same ▸ rows op ordering
  exact ⟨kept .gte rfl _ (by decide), kept .gt rfl _ (by decide), kept .lt rfl _ (by decide),
    unknown (by decide) .gt rfl _⟩

end Jobs
end Helpdesk
