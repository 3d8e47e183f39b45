import Helpdesk.Proofs.Query.Meaning
import Helpdesk.Store.Select

/-! The truth of clauses on rows is their meaning where a comparison has the truth that its cells
have (`truth_eq_evaluate`). Folding a clause may drop columns, but it changes no truth
(`truth_fold`). -/

namespace Helpdesk
open Store

namespace Clause
variable (cellOf : Column → Affinity × Cell) (cells : List Cell)

theorem allTruth_eq (cs : List Clause) :
    allTruth cellOf cells cs = Truth.all (cs.map (truth cellOf cells)) := by
  induction cs with
  | nil => rfl
  | cons c cs ih => rw [allTruth, ih, List.map_cons, Truth.all_cons]

theorem anyTruth_eq (cs : List Clause) :
    anyTruth cellOf cells cs = Truth.any (cs.map (truth cellOf cells)) := by
  induction cs with
  | nil => rfl
  | cons c cs ih => rw [anyTruth, ih, List.map_cons, Truth.any_cons]

theorem eq_of_isFalse {c : Clause} (h : c.isFalse) : c = .fixed false := by
  cases c with
  | fixed holds => cases holds <;> first | rfl | cases h
  | _ => cases h

mutual
/-- A plainly false term makes its conjunction false on every row, whatever the columns of the
others. -/
theorem truth_fold : (c : Clause) → c.fold.truth cellOf cells = c.truth cellOf cells
  | .fixed holds => rfl
  | .all terms => by
    have same := truth_folds terms
    rw [fold]
    by_cases some_false : (folds terms).any isFalse = true
    · obtain ⟨c, hc, false_⟩ := List.any_eq_true.1 some_false
      have member : some false ∈ terms.map (truth cellOf cells) := by
        rw [← same]
        exact List.mem_map.2 ⟨c, hc, by rw [eq_of_isFalse false_, truth]⟩
      simp only [some_false, if_true]
      rw [truth, truth, allTruth_eq, Truth.all_eq_false member]
    · simp only [some_false, Bool.false_eq_true, if_false]
      rw [truth, truth, allTruth_eq, allTruth_eq, same]
  | .any terms => by rw [fold, truth, truth, anyTruth_eq, anyTruth_eq, truth_folds terms]
  | .compare c op place => rfl
  | .among c op places => rfl
  | .nullCheck c negated => rfl

theorem truth_folds : (cs : List Clause) →
    (folds cs).map (truth cellOf cells) = cs.map (truth cellOf cells)
  | [] => rfl
  | c :: cs => by rw [folds, List.map_cons, List.map_cons, truth_fold c, truth_folds cs]
end

end Clause

namespace Store

def Cell.ofValue (v : Value) : Cell := ((ofValue? v).getD .null).admitted

theorem Cell.ofValue?_eq_some_iff {v : Value} {x : Cell} :
    ofValue? v = some x ↔ v.isList = false ∧ x = (ofValue? v).getD .null := by
  cases v <;> simp [ofValue?, Value.isList, eq_comm]

theorem mapM_ofValue?_eq_some_iff {values : List Value} {cells : List Cell} :
    values.mapM Cell.ofValue? = some cells ↔
      (∀ v ∈ values, v.isList = false) ∧
        cells = values.map fun v => (Cell.ofValue? v).getD .null := by
  induction values generalizing cells with
  | nil =>
    constructor
    · rintro ⟨⟩
      exact ⟨fun v hv => absurd hv List.not_mem_nil, rfl⟩
    · rintro ⟨-, rfl⟩
      rfl
  | cons v vs ih =>
    simp only [List.mapM_cons, Option.bind_eq_bind, Option.bind_eq_some_iff, Option.pure_def,
      Option.some.injEq, Cell.ofValue?_eq_some_iff, ih, List.forall_mem_cons, List.map_cons]
    constructor
    · rintro ⟨x, ⟨single, rfl⟩, xs, ⟨singles, rfl⟩, rfl⟩
      exact ⟨⟨single, singles⟩, rfl⟩
    · rintro ⟨⟨single, singles⟩, rfl⟩
      exact ⟨_, ⟨single, rfl⟩, _, ⟨singles, rfl⟩, rfl⟩

theorem bindAll_eq_ok {values : List Value} {cells : List Cell} :
    bindAll values = .ok cells ↔
      (∀ v ∈ values, v.isList = false) ∧ cells = values.map Cell.ofValue := by
  rw [bindAll]
  cases bound : values.mapM Cell.ofValue? with
  | none =>
    simp only [reduceCtorEq, false_iff]
    rintro ⟨singles, -⟩
    rw [mapM_ofValue?_eq_some_iff.2 ⟨singles, rfl⟩] at bound
    cases bound
  | some xs =>
    obtain ⟨singles, rfl⟩ := mapM_ofValue?_eq_some_iff.1 bound
    simp only [Except.ok.injEq, List.map_map]
    exact ⟨fun h => ⟨singles, h.symm⟩, fun h => h.2.symm⟩

def Cell.valueTruth (op : Operator) (x : Affinity × Cell) : Value → Truth
  | .list items =>
    let found := amongTruth x.1 x.2 (items.map ofValue)
    if op = .oneOf then found else Truth.not found
  | value => compareTruth op x.1 .none x.2 (ofValue value)

theorem Cell.valueTruth_of_not_list (op : Operator) (x : Affinity × Cell) {v : Value}
    (h : v.isList = false) : valueTruth op x v = compareTruth op x.1 .none x.2 (ofValue v) := by
  cases v <;> first | rfl | cases h

end Store

def Atoms.ofCells (cellOf : Column → Affinity × Cell) : Atoms where
  compare column op value := Cell.valueTruth op (cellOf column) value
  nullCheck column negated := some ((cellOf column).2.isNull != negated)

theorem Atoms.comparison_ofCells (cellOf : Column → Affinity × Cell)
    (column : Column) (op : Operator)
    (value : Value) :
    (ofCells cellOf).comparison column op value = Cell.valueTruth op (cellOf column) value := by
  unfold comparison
  split
  · split
    · cases op <;> rfl
    · rfl
  · rfl

namespace Clause

theorem isList_placed {values : List Value}
    (single : ∀ v ∈ values, v.isList = false) (place : Nat) :
    (placed values place).isList = false := by
  rw [placed]
  cases found : values[place - 1]? with
  | none => rfl
  | some v => exact single v (List.mem_of_getElem? found)

theorem parameter_map_ofValue (values : List Value) (place : Nat) :
    parameter (values.map Cell.ofValue) place = Cell.ofValue (placed values place) := by
  rw [parameter, placed, List.getElem?_map]
  cases values[place - 1]? <;> rfl

mutual
theorem truth_eq_evaluate (cellOf : Column → Affinity × Cell) {values : List Value}
    (single : ∀ v ∈ values, v.isList = false) : (c : Clause) →
    c.truth cellOf (values.map Cell.ofValue) = c.evaluate (.ofCells cellOf) values
  | .fixed holds => rfl
  | .all terms => by rw [truth, evaluate, allTruth_eq, truths_eq_evaluates cellOf single terms]
  | .any terms => by rw [truth, evaluate, anyTruth_eq, truths_eq_evaluates cellOf single terms]
  | .compare c op place => by
    rw [truth, evaluate, parameter_map_ofValue]
    exact (Cell.valueTruth_of_not_list op (cellOf c) (isList_placed single place)).symm
  | .among c op places => by
    have cells : places.map (parameter (values.map Cell.ofValue)) =
        (places.map (placed values)).map Cell.ofValue := by
      rw [List.map_map]
      exact List.map_congr_left fun place _ => parameter_map_ofValue values place
    rw [truth, evaluate, cells]
    rfl
  | .nullCheck c negated => rfl

theorem truths_eq_evaluates (cellOf : Column → Affinity × Cell) {values : List Value}
    (single : ∀ v ∈ values, v.isList = false) : (cs : List Clause) →
    cs.map (truth cellOf (values.map Cell.ofValue)) = evaluates (.ofCells cellOf) values cs
  | [] => rfl
  | c :: cs => by
    rw [List.map_cons, evaluates, truth_eq_evaluate cellOf single c,
      truths_eq_evaluates cellOf single cs]
end

end Clause
end Helpdesk
