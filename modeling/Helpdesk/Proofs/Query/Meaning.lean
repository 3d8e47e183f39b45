import Helpdesk.Query.Statement
import Helpdesk.Store.Cell

/-! What predicates and clauses mean. Atoms tell the truth of single comparisons and of checks for
null, whatever it is; a predicate is evaluated with its parameters by name, a clause with its
parameters by number. The clause that a query writes for its predicate means what the predicate
means (`evaluate_clause`). -/

namespace Helpdesk
open Store (Truth)

namespace Store.Truth

def all (truths : List Truth) : Truth := truths.foldr and (some true)

def any (truths : List Truth) : Truth := truths.foldr or (some false)

@[simp] theorem all_nil : all [] = some true := rfl

@[simp] theorem any_nil : any [] = some false := rfl

@[simp] theorem all_cons (t : Truth) (ts : List Truth) : all (t :: ts) = and t (all ts) := rfl

@[simp] theorem any_cons (t : Truth) (ts : List Truth) : any (t :: ts) = or t (any ts) := rfl

theorem and_eq_true_iff {a b : Truth} : and a b = some true ↔ a = some true ∧ b = some true := by
  rcases a with _ | _ | _ <;> rcases b with _ | _ | _ <;> decide

theorem or_eq_true_iff {a b : Truth} : or a b = some true ↔ a = some true ∨ b = some true := by
  rcases a with _ | _ | _ <;> rcases b with _ | _ | _ <;> decide

theorem all_eq_true_iff {ts : List Truth} : all ts = some true ↔ ∀ t ∈ ts, t = some true := by
  induction ts with
  | nil => simp
  | cons t ts ih => simp [and_eq_true_iff, ih]

theorem any_eq_true_iff {ts : List Truth} : any ts = some true ↔ some true ∈ ts := by
  induction ts with
  | nil => simp
  | cons t ts ih => rw [any_cons, or_eq_true_iff, ih, List.mem_cons, eq_comm]

theorem all_eq_false {ts : List Truth} (h : some false ∈ ts) : all ts = some false := by
  induction ts with
  | nil => cases h
  | cons t ts ih =>
    rcases List.mem_cons.1 h with h | h
    · simp [← h, and]
    · simp [ih h, and]

end Store.Truth

/-- The truth of single comparisons and of checks for null. -/
structure Atoms where
  compare : Column → Operator → Value → Truth
  nullCheck : Column → Bool → Truth

/-- A comparison with the value of its parameter. Nothing is in an empty list, and all is outside of
it. -/
def Atoms.comparison (I : Atoms) (column : Column) (op : Operator) : Value → Truth
  | .list [] => if op.takesList then some (op != .oneOf) else I.compare column op (.list [])
  | value => I.compare column op value

theorem Atoms.comparison_of_not_list (I : Atoms) (column : Column) (op : Operator) {value : Value}
    (h : value.isList = false) : I.comparison column op value = I.compare column op value := by
  cases value <;> first | rfl | cases h

namespace Predicate

mutual
def leaves : Predicate → List Predicate
  | .all terms => leavesOf terms
  | .any terms => leavesOf terms
  | .compare column op parameter => [.compare column op parameter]
  | .nullCheck column negated => [.nullCheck column negated]

def leavesOf : List Predicate → List Predicate
  | [] => []
  | p :: ps => leaves p ++ leavesOf ps
end

mutual
def evaluate (I : Atoms) (parameter? : String → Option Value) : Predicate → Truth
  | .all terms => Truth.all (evaluates I parameter? terms)
  | .any terms => Truth.any (evaluates I parameter? terms)
  | .compare column op name => (parameter? name).bind (I.comparison column op)
  | .nullCheck column negated => I.nullCheck column negated

def evaluates (I : Atoms) (parameter? : String → Option Value) : List Predicate → List Truth
  | [] => []
  | p :: ps => evaluate I parameter? p :: evaluates I parameter? ps
end

end Predicate

namespace Clause

def placed (values : List Value) (place : Nat) : Value := values[place - 1]?.getD .null

mutual
def evaluate (I : Atoms) (values : List Value) : Clause → Truth
  | .fixed holds => some holds
  | .all terms => Truth.all (evaluates I values terms)
  | .any terms => Truth.any (evaluates I values terms)
  | .compare column op place => I.compare column op (placed values place)
  | .among column op places => I.compare column op (.list (places.map (placed values)))
  | .nullCheck column negated => I.nullCheck column negated

def evaluates (I : Atoms) (values : List Value) : List Clause → List Truth
  | [] => []
  | c :: cs => evaluate I values c :: evaluates I values cs
end

theorem evaluate_ofTerms_all (I : Atoms) (values : List Value) (cs : List Clause) :
    (ofTerms (.fixed true) .all cs).evaluate I values = Truth.all (evaluates I values cs) := by
  rcases cs with _ | ⟨c, _ | ⟨d, cs⟩⟩ <;> simp [ofTerms, evaluate, evaluates]

theorem evaluate_ofTerms_any (I : Atoms) (values : List Value) (cs : List Clause) :
    (ofTerms (.fixed false) .any cs).evaluate I values = Truth.any (evaluates I values cs) := by
  rcases cs with _ | ⟨c, _ | ⟨d, cs⟩⟩ <;> simp [ofTerms, evaluate, evaluates]

theorem placed_append (before values after : List Value) (i : Nat) (h : i < values.length) :
    placed (before ++ (values ++ after)) (before.length + i + 1) = values[i] := by
  have index : before.length + i + 1 - 1 = before.length + i := by omega
  rw [placed, index, List.getElem?_append_right (by omega), Nat.add_sub_cancel_left,
    List.getElem?_append_left h, List.getElem?_eq_getElem h]
  rfl

theorem map_placed_placesAfter (before values after : List Value) :
    (Query.placesAfter before.length values.length).map (placed (before ++ (values ++ after))) =
      values := by
  apply List.ext_getElem
  · simp [Query.placesAfter]
  · intro i _ h
    simp [Query.placesAfter, placed_append before values after i h]

end Clause

namespace Query

theorem leafClause_of_not_list (bound : Nat) (column : Column) (op : Operator) (name : String)
    {value : Value} (h : value.isList = false) :
    leafClause bound column op name value =
      if op.takesList then .error (.misfit name op)
      else .ok (.compare column op (bound + 1), [value]) := by
  cases value <;> first | rfl | cases h

theorem evaluate_leafClause (I : Atoms) (before after : List Value)
    {column : Column} {op : Operator}
    {name : String} {value : Value} {c : Clause} {values : List Value}
    (h : leafClause before.length column op name value = .ok (c, values)) :
    c.evaluate I (before ++ (values ++ after)) = I.comparison column op value := by
  by_cases plain : value.isList = false
  · rw [leafClause_of_not_list _ _ _ _ plain] at h
    split at h <;> cases h
    have place := Clause.placed_append before [value] after 0 (by simp)
    rw [Clause.evaluate, I.comparison_of_not_list column op plain]
    exact congrArg (I.compare column op) place
  · cases value with
    | list items =>
      simp only [leafClause] at h
      split at h
      next lists =>
        split at h <;> cases h
        next empty =>
          rw [List.isEmpty_iff] at empty
          simp [Clause.evaluate, Atoms.comparison, lists, empty]
        next nonempty =>
          have places := Clause.map_placed_placesAfter before values after
          cases values with
          | nil => simp at nonempty
          | cons v vs => rw [Clause.evaluate, places]; rfl
      next => cases h
    | _ => exact absurd rfl plain

mutual
/-- The clause of a predicate means what the predicate means, whatever values are bound around its
own. -/
theorem evaluate_clause (I : Atoms) (q : Query) (before after : List Value) :
    (p : Predicate) → {c : Clause} → {values : List Value} →
    q.clause before.length p = .ok (c, values) →
    c.evaluate I (before ++ (values ++ after)) = p.evaluate I q.parameter?
  | .all terms, c, values, h => by
    obtain ⟨⟨cs, vs⟩, hcs, h⟩ := bind_eq_ok.1 h
    cases h
    rw [Clause.evaluate_ofTerms_all, evaluates_clauses I q before after terms hcs,
      Predicate.evaluate]
  | .any terms, c, values, h => by
    obtain ⟨⟨cs, vs⟩, hcs, h⟩ := bind_eq_ok.1 h
    cases h
    rw [Clause.evaluate_ofTerms_any, evaluates_clauses I q before after terms hcs,
      Predicate.evaluate]
  | .nullCheck column negated, c, values, h => by
    cases h
    rfl
  | .compare column op name, c, values, h => by
    rw [clause] at h
    split at h
    · cases h
    next value bound => rw [evaluate_leafClause I before after h, Predicate.evaluate, bound]; rfl

theorem evaluates_clauses (I : Atoms) (q : Query) (before after : List Value) :
    (ps : List Predicate) → {cs : List Clause} → {values : List Value} →
    q.clauses before.length ps = .ok (cs, values) →
    Clause.evaluates I (before ++ (values ++ after)) cs = Predicate.evaluates I q.parameter? ps
  | [], cs, values, h => by
    cases h
    rfl
  | p :: ps, cs, values, h => by
    obtain ⟨⟨c, vs⟩, hc, h⟩ := bind_eq_ok.1 h
    obtain ⟨⟨ds, ws⟩, hds, h⟩ := bind_eq_ok.1 h
    cases h
    -- The terms to the right see the values of this one as bound before them.
    have head := evaluate_clause I q before (ws ++ after) p hc
    have tail := evaluates_clauses I q (before ++ vs) after ps
      (by rw [List.length_append]; exact hds)
    rw [Clause.evaluates, Predicate.evaluates, ← head, ← tail]
    simp only [List.append_assoc]
end

theorem evaluate_statement (I : Atoms) {q : Query} {st : Statement} (h : q.statement = .ok st) :
    st.clause.evaluate I st.parameters = q.predicate.evaluate I q.parameter? := by
  obtain ⟨⟨c, values⟩, hc, h⟩ := bind_eq_ok.1 h
  cases h
  simpa using evaluate_clause I q [] [] q.predicate hc

end Query
end Helpdesk
