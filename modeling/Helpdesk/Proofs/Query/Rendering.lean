import Helpdesk.Config
import Helpdesk.Proofs.Query.Meaning
import Helpdesk.Proofs.Query.Token

/-! Statements are read back from their text. Where all names are identifiers, a clause that a query
writes is read back as it was (`reads_of_isReadable`), and a statement is read back with its table
and its joins (`ofText?_toSql`); so its condition means what the predicate of the query means
(`condition_ofText?_means_predicate`). -/

namespace Helpdesk

def Column.IsPlain (c : Column) : Prop := isIdentifier c.qualifier ∧ isIdentifier c.field

instance : DecidablePred Column.IsPlain := fun _ => inferInstanceAs (Decidable (_ ∧ _))

def Join.IsPlain (j : Join) : Prop :=
  isIdentifier j.table ∧ isIdentifier j.name ∧ isIdentifier j.key ∧ j.source.IsPlain

instance : DecidablePred Join.IsPlain := fun _ => inferInstanceAs (Decidable (_ ∧ _))

namespace Predicate

def IsPlainLeaf : Predicate → Prop
  | .compare column op _ => column.IsPlain ∧ op.takesValue
  | .nullCheck column _ => column.IsPlain
  | _ => True

instance : DecidablePred IsPlainLeaf
  | .compare _ _ _ => inferInstanceAs (Decidable (_ ∧ _))
  | .nullCheck _ _ => inferInstanceAs (Decidable (Column.IsPlain _))
  | .all _ => isTrue trivial
  | .any _ => isTrue trivial

end Predicate

structure Query.IsPlain (q : Query) : Prop where
  table : isIdentifier q.table
  joins : ∀ j ∈ q.joins, j.IsPlain
  leaves : ∀ leaf ∈ q.predicate.leaves, leaf.IsPlainLeaf

namespace Clause

mutual
/-- A clause whose text has one reading: several terms under every connector, placeholders counted
from one, and operators where they belong. -/
def IsReadable : Clause → Prop
  | .fixed _ => True
  | .all terms => 2 ≤ terms.length ∧ AreReadable terms
  | .any terms => 2 ≤ terms.length ∧ AreReadable terms
  | .compare c op place => c.IsPlain ∧ op.takesValue ∧ op.takesList = false ∧ 0 < place
  | .among c op places => c.IsPlain ∧ op.takesList ∧ places ≠ [] ∧ ∀ place ∈ places, 0 < place
  | .nullCheck c _ => c.IsPlain

def AreReadable : List Clause → Prop
  | [] => True
  | c :: cs => IsReadable c ∧ AreReadable cs
end

theorem isReadable_ofTerms {empty : Clause} {connect : List Clause → Clause} {cs : List Clause}
    (he : empty.IsReadable) (hc : 2 ≤ cs.length → (connect cs).IsReadable) (h : AreReadable cs) :
    (ofTerms empty connect cs).IsReadable := by
  rcases cs with _ | ⟨c, _ | ⟨d, cs⟩⟩
  · exact he
  · exact h.1
  · exact hc (by simp)

end Clause

namespace Query

theorem isReadable_leafClause {bound : Nat} {column : Column} {op : Operator} {name : String}
    {value : Value} {c : Clause} {values : List Value} (plain : column.IsPlain)
    (valued : op.takesValue)
    (h : leafClause bound column op name value = .ok (c, values)) : c.IsReadable := by
  by_cases scalar : value.isList = false
  · rw [leafClause_of_not_list _ _ _ _ scalar] at h
    split at h <;> cases h
    next single => exact ⟨plain, valued, Bool.not_eq_true _ ▸ single, Nat.succ_pos bound⟩
  · cases value with
    | list items =>
      simp only [leafClause] at h
      split at h
      next lists =>
        split at h <;> cases h
        next => trivial
        next nonempty =>
          refine ⟨plain, lists, ?_, fun place hp => ?_⟩
          · simpa [placesAfter, List.isEmpty_iff] using nonempty
          · obtain ⟨i, -, rfl⟩ := List.mem_map.1 hp
            exact Nat.succ_pos _
      next => cases h
    | _ => exact absurd rfl scalar

mutual
theorem isReadable_clause (q : Query) : (p : Predicate) → {bound : Nat} → {c : Clause} →
    {values : List Value} → (∀ leaf ∈ p.leaves, leaf.IsPlainLeaf) →
    q.clause bound p = .ok (c, values) → c.IsReadable
  | .all terms, bound, c, values, plain, h => by
    obtain ⟨⟨cs, vs⟩, hcs, h⟩ := bind_eq_ok.1 h
    cases h
    have readable := areReadable_clauses q terms plain hcs
    exact Clause.isReadable_ofTerms trivial (fun several => ⟨several, readable⟩) readable
  | .any terms, bound, c, values, plain, h => by
    obtain ⟨⟨cs, vs⟩, hcs, h⟩ := bind_eq_ok.1 h
    cases h
    have readable := areReadable_clauses q terms plain hcs
    exact Clause.isReadable_ofTerms trivial (fun several => ⟨several, readable⟩) readable
  | .nullCheck column negated, bound, c, values, plain, h => by
    cases h
    exact plain _ (List.mem_singleton.2 rfl)
  | .compare column op name, bound, c, values, plain, h => by
    have leaf := plain _ (List.mem_singleton.2 rfl)
    rw [clause] at h
    split at h
    · cases h
    · exact isReadable_leafClause leaf.1 leaf.2 h

theorem areReadable_clauses (q : Query) :
    (ps : List Predicate) → {bound : Nat} → {cs : List Clause} →
    {values : List Value} → (∀ leaf ∈ Predicate.leavesOf ps, leaf.IsPlainLeaf) →
    q.clauses bound ps = .ok (cs, values) → Clause.AreReadable cs
  | [], bound, cs, values, plain, h => by
    cases h
    trivial
  | p :: ps, bound, cs, values, plain, h => by
    obtain ⟨⟨c, vs⟩, hc, h⟩ := bind_eq_ok.1 h
    obtain ⟨⟨ds, ws⟩, hds, h⟩ := bind_eq_ok.1 h
    cases h
    exact ⟨isReadable_clause q p (fun leaf hl => plain leaf (List.mem_append_left _ hl)) hc,
      areReadable_clauses q ps (fun leaf hl => plain leaf (List.mem_append_right _ hl)) hds⟩
end

end Query

namespace Sql
open Predicate (joinTexts)

theorem isName_of_isIdentifier {s : String} (h : isIdentifier s) : isName s := by
  unfold isIdentifier at h
  split at h
  · cases h
  next c cs chars =>
    rw [Bool.and_eq_true] at h
    simp only [isName, chars, Bool.and_eq_true]
    exact ⟨h.1, List.all_eq_true.2 fun d hd =>
      isNameChar_of_isIdentifierChar (List.all_eq_true.1 h.2 d hd)⟩

theorem tokens_name {s : String} (h : isName s) : tokens s = [s] := by
  unfold isName at h
  split at h
  · cases h
  next c cs chars =>
    refine tokens_word (fun empty => ?_) ?_
    · rw [empty] at chars
      cases chars
    · rw [Bool.and_eq_true] at h
      rw [chars]
      exact List.all_eq_true.2 fun d hd => isWordChar_of_isNameChar (List.all_eq_true.1 h.2 d hd)

theorem tokens_identifier {s : String} (h : isIdentifier s) : tokens s = [s] :=
  tokens_name (isName_of_isIdentifier h)

theorem step_name (frame : Frame) (outer : List Frame) {token : String} (h : isName token) :
    step ⟨.operand, frame, outer⟩ token = some ⟨.qualifier token, frame, outer⟩ := by
  have open_ : token ≠ "(" := by rintro rfl; exact absurd h (by decide)
  have one : token ≠ "1" := by rintro rfl; exact absurd h (by decide)
  have zero : token ≠ "0" := by rintro rfl; exact absurd h (by decide)
  simp [step, open_, one, zero, h]

theorem tokens_column {c : Column} (h : c.IsPlain) :
    tokens c.toText = [c.qualifier, ".", c.field] := by
  rw [Column.toText, tokens_around (by decide) (by decide) (by decide), tokens_identifier h.1,
    tokens_identifier h.2]
  rfl

theorem run_column (frame : Frame) (outer : List Frame) {c : Column} (h : c.IsPlain) :
    run ⟨.operand, frame, outer⟩ (tokens c.toText) = some ⟨.column c, frame, outer⟩ := by
  have dot : step ⟨.qualifier c.qualifier, frame, outer⟩ "." =
      some ⟨.field c.qualifier, frame, outer⟩ := by simp [step]
  have field : step ⟨.field c.qualifier, frame, outer⟩ c.field =
      some ⟨.column c, frame, outer⟩ := by
    simp [step, isName_of_isIdentifier h.2]
  have qualifier := step_name frame outer (isName_of_isIdentifier h.1)
  simp only [tokens_column h, run_cons, run_nil, qualifier, dot, field,
    Option.bind_some]

def operatorWords : Operator → List String
  | .notOneOf => ["NOT", "IN"]
  | .notLike => ["NOT", "LIKE"]
  | .isNull => ["IS", "NULL"]
  | .isNotNull => ["IS", "NOT", "NULL"]
  | op => [op.sql]

theorem tokens_operator (op : Operator) : tokens (" " ++ op.sql ++ " ") = operatorWords op := by
  cases op <;> decide

theorem tokens_operator_list (op : Operator) :
    tokens (" " ++ op.sql ++ " (") = operatorWords op ++ ["("] := by
  cases op <;> decide

theorem place?_placeText {place : Nat} (h : 0 < place) :
    place? (Clause.placeText place) = some place := by
  have chars : (Clause.placeText place).toList = '?' :: Text.Decimal.ofNat place := by
    simp [Clause.placeText]
  have positive : place ≠ 0 := by omega
  simp [place?, chars, Text.Decimal.natural?_ofNat, positive]

theorem run_comparison (frame : Frame) (outer : List Frame) (c : Column) {op : Operator}
    (valued : op.takesValue) (single : op.takesList = false) :
    run ⟨.column c, frame, outer⟩ (operatorWords op) = some ⟨.comparand c op, frame, outer⟩ := by
  cases op <;> first | rfl | exact absurd valued (by decide) | exact absurd single (by decide)

theorem run_list (frame : Frame) (outer : List Frame) (c : Column) {op : Operator}
    (lists : op.takesList) :
    run ⟨.column c, frame, outer⟩ (operatorWords op ++ ["("]) =
        some ⟨.item c op [], frame, outer⟩ := by
  cases op <;> first | rfl | exact absurd lists (by decide)

theorem run_places (frame : Frame) (outer : List Frame) (c : Column) (op : Operator) :
    (places before : List Nat) → places ≠ [] → (∀ place ∈ places, 0 < place) →
    run ⟨.item c op before, frame, outer⟩ (tokens (joinTexts ", " (places.map Clause.placeText))) =
      some ⟨.listed c op (before ++ places), frame, outer⟩
  | [], _, nonempty, _ => absurd rfl nonempty
  | [place], before, _, positive => by
    simp [joinTexts, tokens_placeText, step, place?_placeText (positive place (by simp))]
  | place :: next :: places, before, _, positive => by
    have first := place?_placeText (positive place (by simp))
    have rest := run_places frame outer c op (next :: places) (before ++ [place]) (by simp)
      fun p hp => positive p (List.mem_cons_of_mem _ hp)
    rw [List.map_cons, List.map_cons, joinTexts, ← List.map_cons,
      tokens_around (by decide) (by decide) (by decide), tokens_placeText, run_append, run_append]
    · have comma : tokens ", " = [","] := by decide
      simpa [comma, step, first] using rest
    · simp

theorem run_nullCheck (frame : Frame) (outer : List Frame) {c : Column} (negated : Bool)
    (h : c.IsPlain) :
    run ⟨.operand, frame, outer⟩ (tokens (Clause.nullCheck c negated).toSql) =
      some (State.complete ⟨.operand, frame, outer⟩ (.nullCheck c negated)) := by
  have words : tokens (Predicate.nullText negated) =
      operatorWords (if negated then .isNotNull else .isNull) := by
    cases negated <;> decide
  rw [Clause.toSql, tokens_append_of_head (by cases negated <;> decide), run_append,
    run_column frame outer h, words]
  cases negated <;> rfl

theorem run_compare (frame : Frame) (outer : List Frame) {c : Column} {op : Operator} {place : Nat}
    (h : (Clause.compare c op place).IsReadable) :
    run ⟨.operand, frame, outer⟩ (tokens (Clause.compare c op place).toSql) =
      some (State.complete ⟨.operand, frame, outer⟩ (.compare c op place)) := by
  obtain ⟨plain, valued, single, positive⟩ := h
  have text : (Clause.compare c op place).toSql =
      c.toText ++ (" " ++ op.sql ++ " ") ++ Clause.placeText place := by
    simp [Clause.toSql, String.append_assoc]
  rw [text, tokens_around (by simp) (by cases op <;> decide) (by cases op <;> decide), run_append,
    run_append, run_column frame outer plain, tokens_operator, tokens_placeText]
  simp [run_comparison frame outer c valued single, step, place?_placeText positive, State.complete]

theorem run_among (frame : Frame) (outer : List Frame) {c : Column} {op : Operator}
    {places : List Nat} (h : (Clause.among c op places).IsReadable) :
    run ⟨.operand, frame, outer⟩ (tokens (Clause.among c op places).toSql) =
      some (State.complete ⟨.operand, frame, outer⟩ (.among c op places)) := by
  obtain ⟨plain, lists, nonempty, positive⟩ := h
  have text : (Clause.among c op places).toSql =
      c.toText ++ (" " ++ op.sql ++ " (") ++
        joinTexts ", " (places.map Clause.placeText) ++ ")" := by
    simp [Clause.toSql, String.append_assoc]
  have close : tokens ")" = [")"] := by decide
  rw [text, tokens_append_of_head (by decide),
    tokens_around (by simp) (by cases op <;> decide) (by cases op <;> decide), run_append,
    run_append, run_append, run_column frame outer plain, tokens_operator_list, close]
  simp [run_list frame outer c lists, run_places frame outer c op places [] nonempty positive, step,
    State.complete]

/-- A clause is read as the next condition of whichever parenthesis is open. -/
def Reads (c : Clause) : Prop :=
  ∀ frame outer, run ⟨.operand, frame, outer⟩ (tokens c.toSql) =
    some (State.complete ⟨.operand, frame, outer⟩ c)

theorem joinTexts_cons_cons (separator : String) (c d : Clause) (cs : List Clause) :
    joinTexts separator (Clause.toSqls (c :: d :: cs)) =
      c.toSql ++ separator ++ joinTexts separator (Clause.toSqls (d :: cs)) := rfl

theorem run_conjunction (alternatives : List Clause) (outer : List Frame) :
    (terms factors : List Clause) → terms ≠ [] → (∀ c ∈ terms, Reads c) →
    run ⟨.operand, ⟨alternatives, factors⟩, outer⟩
      (tokens (joinTexts " AND " (Clause.toSqls terms))) =
      some ⟨.done, ⟨alternatives, factors ++ terms⟩, outer⟩
  | [], _, nonempty, _ => absurd rfl nonempty
  | [c], factors, _, reads => by
    exact reads c (List.mem_singleton.2 rfl) ⟨alternatives, factors⟩ outer
  | c :: d :: cs, factors, _, reads => by
    have rest := run_conjunction alternatives outer (d :: cs) (factors ++ [c]) (by simp)
      fun e he => reads e (List.mem_cons_of_mem _ he)
    have connector : tokens " AND " = ["AND"] := by decide
    rw [joinTexts_cons_cons, tokens_around (by decide) (by decide) (by decide),
      run_append, run_append, reads c (by simp), connector]
    simpa [State.complete, step, stepDone] using rest

theorem run_disjunction (outer : List Frame) :
    (terms alternatives : List Clause) → (nonempty : terms ≠ []) → (∀ c ∈ terms, Reads c) →
    run ⟨.operand, ⟨alternatives, []⟩, outer⟩ (tokens (joinTexts " OR " (Clause.toSqls terms))) =
      some ⟨.done, ⟨alternatives ++ terms.dropLast, [terms.getLast nonempty]⟩, outer⟩
  | [], _, nonempty, _ => absurd rfl nonempty
  | [c], alternatives, _, reads => by
    simpa [State.complete, Clause.toSqls, joinTexts] using
      reads c (List.mem_singleton.2 rfl) ⟨alternatives, []⟩ outer
  | c :: d :: cs, alternatives, _, reads => by
    have rest := run_disjunction outer (d :: cs) (alternatives ++ [c]) (by simp)
      fun e he => reads e (List.mem_cons_of_mem _ he)
    have connector : tokens " OR " = ["OR"] := by decide
    rw [joinTexts_cons_cons, tokens_around (by decide) (by decide) (by decide),
      run_append, run_append, reads c (by simp), connector]
    simpa [State.complete, step, stepDone, Frame.conjunction, Clause.ofTerms] using rest

theorem ofTerms_of_several {empty : Clause} {connect : List Clause → Clause} {cs : List Clause}
    (h : 2 ≤ cs.length) : Clause.ofTerms empty connect cs = connect cs := by
  rcases cs with _ | ⟨c, _ | ⟨d, cs⟩⟩
  · simp at h
  · simp at h
  · rfl

theorem disjunction_of_factors {terms : List Clause} (h : 2 ≤ terms.length) :
    Frame.disjunction ⟨[], terms⟩ = .all terms := by
  rw [Frame.disjunction, Frame.conjunction, ofTerms_of_several h]
  rfl

theorem disjunction_of_alternatives {terms : List Clause} (h : 2 ≤ terms.length)
    (nonempty : terms ≠ []) :
    Frame.disjunction ⟨terms.dropLast, [terms.getLast nonempty]⟩ = .any terms := by
  have all :
      terms.dropLast ++ [Frame.conjunction ⟨terms.dropLast, [terms.getLast nonempty]⟩] = terms :=
    List.dropLast_append_getLast nonempty
  rw [Frame.disjunction, all, ofTerms_of_several h]

theorem run_parentheses (frame inner : Frame) (outer : List Frame) (text : String)
    (h : run ⟨.operand, .empty, frame :: outer⟩ (tokens text) =
      some ⟨.done, inner, frame :: outer⟩) :
    run ⟨.operand, frame, outer⟩ (tokens ("(" ++ text ++ ")")) =
      some (State.complete ⟨.operand, frame, outer⟩ inner.disjunction) := by
  have opening : tokens "(" = ["("] := by decide
  have closing : tokens ")" = [")"] := by decide
  have enter : step ⟨.operand, frame, outer⟩ "(" = some ⟨.operand, .empty, frame :: outer⟩ := by
    simp [step]
  have leave : step ⟨.done, inner, frame :: outer⟩ ")" =
      some (State.complete ⟨.done, frame, outer⟩ inner.disjunction) := by
    simp [step, stepDone]
  rw [tokens_append_of_head (by decide), tokens_append_of_getLast (by decide), run_append, opening,
    closing, List.singleton_append, run_cons, enter, Option.bind_some, h]
  simp only [Option.bind_some, run_cons, run_nil, leave]
  rfl

mutual
theorem reads_of_isReadable : (c : Clause) → c.IsReadable → Reads c
  | .fixed holds, _ => by
    intro frame outer
    have token : tokens (Clause.fixed holds).toSql = [if holds then "1" else "0"] := by
      cases holds <;> decide
    rw [token]
    cases holds <;> simp [step]
  | .all terms, h => by
    intro frame outer
    have nonempty : terms ≠ [] := by rintro rfl; exact absurd h.1 (by decide)
    have inner := run_conjunction [] (frame :: outer) terms [] nonempty
      (reads_of_areReadable terms h.2)
    rw [Clause.toSql, run_parentheses frame _ outer _ inner, List.nil_append,
      disjunction_of_factors h.1]
  | .any terms, h => by
    intro frame outer
    have nonempty : terms ≠ [] := by rintro rfl; exact absurd h.1 (by decide)
    have inner := run_disjunction (frame :: outer) terms [] nonempty
      (reads_of_areReadable terms h.2)
    rw [Clause.toSql, run_parentheses frame _ outer _ inner, List.nil_append,
      disjunction_of_alternatives h.1]
  | .compare c op place, h => fun frame outer => run_compare frame outer h
  | .among c op places, h => fun frame outer => run_among frame outer h
  | .nullCheck c negated, h => fun frame outer => run_nullCheck frame outer negated h

theorem reads_of_areReadable : (cs : List Clause) → Clause.AreReadable cs → ∀ c ∈ cs, Reads c
  | [], _ => fun _ hc => absurd hc List.not_mem_nil
  | c :: cs, h => fun d hd => by
    rcases List.mem_cons.1 hd with here | there
    · exact here ▸ reads_of_isReadable c h.1
    · exact reads_of_areReadable cs h.2 d there
end

theorem tokens_spelled {parts : List (String × String)}
    (h : ∀ p ∈ parts, p.1 ≠ "" ∧ p.1.toList.head?.all isLoose ∧ p.1.toList.getLast?.all isLoose ∧
      isIdentifier p.2) :
    tokens (String.join (parts.map fun p => p.1 ++ p.2)) =
      parts.flatMap fun p => tokens p.1 ++ [p.2] := by
  induction parts with
  | nil => decide
  | cons p parts ih =>
    obtain ⟨nonempty, first, last, word⟩ := h p List.mem_cons_self
    have rest := ih fun q hq => h q (List.mem_cons_of_mem _ hq)
    have loose : (String.join (parts.map fun p => p.1 ++ p.2)).toList.head?.all isLoose := by
      cases parts with
      | nil => decide
      | cons q qs =>
        obtain ⟨nonempty, first, -⟩ := h q (by simp)
        have chars : q.1.toList ≠ [] := fun e => nonempty (String.toList_eq_nil_iff.1 e)
        rw [List.map_cons, String.join_cons, String.append_assoc, String.toList_append,
          List.head?_append_of_ne_nil _ chars]
        exact first
    rw [List.map_cons, String.join_cons, tokens_append_of_head loose, tokens_append_of_getLast last,
      tokens_identifier word, rest, List.flatMap_cons]

def joinParts (j : Join) : List (String × String) :=
  [(" LEFT JOIN ", j.table), (" AS ", j.name), (" ON ", j.name), (".", j.key),
    (" = ", j.source.qualifier), (".", j.source.field)]

theorem toText_eq_joinParts (j : Join) :
    " " ++ j.toText = String.join ((joinParts j).map fun p => p.1 ++ p.2) := by
  have text : j.toText = "LEFT JOIN " ++ j.table ++ " AS " ++ j.name ++ " ON " ++
      j.name ++ "." ++ j.key ++
      " = " ++ (j.source.qualifier ++ "." ++ j.source.field) := rfl
  have lead : " " ++ "LEFT JOIN " = " LEFT JOIN " := by decide
  simp only [joinParts, List.map_cons, List.map_nil, String.join_cons, String.join_nil,
    String.append_empty, text, ← String.append_assoc, lead]

def joinTokens (j : Join) : List String :=
  ["LEFT", "JOIN", j.table, "AS", j.name, "ON", j.name, ".", j.key, "=", j.source.qualifier, ".",
    j.source.field]

theorem tokens_join {j : Join} (h : j.IsPlain) : tokens (" " ++ j.toText) = joinTokens j := by
  obtain ⟨table, name, key, source⟩ := h
  have left : tokens " LEFT JOIN " = ["LEFT", "JOIN"] := by decide
  have as : tokens " AS " = ["AS"] := by decide
  have on : tokens " ON " = ["ON"] := by decide
  have dot : tokens "." = ["."] := by decide
  have equals : tokens " = " = ["="] := by decide
  rw [toText_eq_joinParts, tokens_spelled]
  · simp only [joinParts, joinTokens, List.flatMap_cons, List.flatMap_nil, left,
      as, on, dot, equals, List.cons_append, List.nil_append]
  · intro p hp
    simp only [joinParts, List.mem_cons, List.not_mem_nil, or_false] at hp
    have loose (s : String) (h : s ∈ [" LEFT JOIN ", " AS ", " ON ", ".", " = "]) :
        s ≠ "" ∧ s.toList.head?.all isLoose ∧ s.toList.getLast?.all isLoose := by
      revert s
      decide
    rcases hp with rfl | rfl | rfl | rfl | rfl | rfl
    all_goals
      refine ⟨(loose _ (by simp)).1, (loose _ (by simp)).2.1, (loose _ (by simp)).2.2, ?_⟩
      first | exact table | exact name | exact key | exact source.1 | exact source.2

theorem head_joins (joins : List Join) :
    (String.join (joins.map fun j => " " ++ j.toText)).toList.head?.all isLoose := by
  cases joins with
  | nil => decide
  | cons j joins =>
    rw [List.map_cons, String.join_cons, String.append_assoc, String.toList_append,
      List.head?_append_of_ne_nil _ (by decide)]
    decide

theorem tokens_joins {joins : List Join} (h : ∀ j ∈ joins, j.IsPlain) :
    tokens (String.join (joins.map fun j => " " ++ j.toText)) = joins.flatMap joinTokens := by
  induction joins with
  | nil => decide
  | cons j joins ih =>
    have rest := ih fun k hk => h k (List.mem_cons_of_mem _ hk)
    rw [List.map_cons, String.join_cons, tokens_append_of_head (head_joins joins), rest,
      List.flatMap_cons, tokens_join (h j List.mem_cons_self)]

theorem joins?_flatMap (joins : List Join) (rest : List String) :
    joins? (joins.flatMap joinTokens ++ "WHERE" :: rest) = some (joins, rest) := by
  induction joins with
  | nil => rfl
  | cons j joins ih =>
    rw [List.flatMap_cons, joinTokens]
    simp [joins?, ih]

theorem condition?_toSql {c : Clause} (h : c.IsReadable) :
    condition? (tokens c.toSql ++ ["ORDER", "BY", targetAlias, ".", "rowid"]) = some c := by
  have read := reads_of_isReadable c h .empty []
  rw [condition?, State.start, run_append, read]
  simp [State.complete, Frame.empty, step, stepDone, Frame.disjunction,
    Frame.conjunction, Clause.ofTerms]

theorem toSql_eq (st : Statement) :
    st.toSql = "SELECT t.* FROM " ++ st.table ++ " AS t" ++
      String.join (st.joins.map fun j => " " ++ j.toText) ++ " WHERE " ++ st.clause.toSql ++
      " ORDER BY t.rowid" := by
  have text : st.toSql = "SELECT " ++ targetAlias ++ ".* FROM " ++ st.table ++
      " AS " ++ targetAlias ++ String.join (st.joins.map fun j => " " ++ j.toText) ++ " WHERE " ++
      st.clause.toSql ++ " ORDER BY " ++ targetAlias ++ ".rowid" := rfl
  have select : "SELECT t.* FROM " = "SELECT " ++ targetAlias ++ ".* FROM " := by decide
  have as : " AS t" = " AS " ++ targetAlias := by decide
  have order : " ORDER BY t.rowid" = " ORDER BY " ++ targetAlias ++ ".rowid" := by decide
  rw [text, select, as, order]
  simp only [String.append_assoc]

theorem tokens_toSql {st : Statement} (table : isIdentifier st.table)
    (joins : ∀ j ∈ st.joins, j.IsPlain) :
    tokens st.toSql = "SELECT" :: "t" :: "." :: "*" :: "FROM" :: st.table :: "AS" :: "t" ::
      (st.joins.flatMap joinTokens ++ "WHERE" ::
        (tokens st.clause.toSql ++ ["ORDER", "BY", targetAlias, ".", "rowid"])) := by
  have select : tokens "SELECT t.* FROM " = ["SELECT", "t", ".", "*", "FROM"] := by decide
  have as : tokens " AS t" = ["AS", "t"] := by decide
  have condition : tokens " WHERE " = ["WHERE"] := by decide
  have order : tokens " ORDER BY t.rowid" = ["ORDER", "BY", targetAlias, ".", "rowid"] := by decide
  rw [toSql_eq, tokens_append_of_head (by decide), order,
    tokens_around (by decide) (by decide) (by decide), condition,
    tokens_append_of_head (head_joins st.joins), tokens_joins joins,
    tokens_append_of_head (by decide), as, tokens_append_of_getLast (by decide), select,
    tokens_identifier table]
  simp only [List.append_assoc, List.cons_append, List.nil_append]

theorem ofText?_toSql {st : Statement} (table : isIdentifier st.table)
    (joins : ∀ j ∈ st.joins, j.IsPlain)
    (clause : st.clause.IsReadable) :
    Selection.ofText? st.toSql = some ⟨st.table, st.joins, st.clause⟩ := by
  rw [Selection.ofText?, tokens_toSql table joins, Selection.ofTokens?, joins?_flatMap]
  simp [condition?_toSql clause]

end Sql

namespace Query

/-- The text of a query is read as a selection from its tables, and the condition that is read means
what the predicate means, whatever the single comparisons mean. -/
theorem condition_ofText?_means_predicate {q : Query} {st : Statement} (plain : q.IsPlain)
    (h : q.statement = .ok st) :
    ∃ condition, Sql.Selection.ofText? st.toSql = some ⟨q.table, q.joins, condition⟩ ∧
      ∀ I : Atoms, condition.evaluate I st.parameters = q.predicate.evaluate I q.parameter? := by
  have means := fun I => evaluate_statement I h
  obtain ⟨⟨c, values⟩, hc, h⟩ := bind_eq_ok.1 h
  cases h
  have readable := isReadable_clause q q.predicate plain.leaves hc
  exact ⟨c, Sql.ofText?_toSql plain.table plain.joins readable, means⟩

def branchedOrOpen : Query where
  table := "tickets"
  joins := [⟨"branches", "j1", "id", ⟨"t", "branch"⟩⟩]
  predicate := .any [.compare ⟨"j1", "name"⟩ .oneOf "name_1",
    .all [.all [.compare ⟨"t", "status"⟩ .eq "status_2"], .compare ⟨"t", "key"⟩ .notOneOf "key_3",
      .nullCheck ⟨"t", "assignee"⟩ true]]
  parameters := [⟨"name_1", .ofTexts ["North", "South"]⟩, ⟨"status_2", .text "new"⟩,
    ⟨"key_3", .list []⟩]

theorem branchedOrOpen_means_predicate : ∃ st condition, branchedOrOpen.statement = .ok st ∧
    Sql.Selection.ofText? st.toSql = some ⟨branchedOrOpen.table, branchedOrOpen.joins, condition⟩ ∧
      ∀ I : Atoms, condition.evaluate I st.parameters =
        branchedOrOpen.predicate.evaluate I branchedOrOpen.parameter? := by
  have plain : branchedOrOpen.IsPlain := ⟨by decide, by decide, by decide⟩
  obtain ⟨condition, read, means⟩ := condition_ofText?_means_predicate plain rfl
  exact ⟨_, condition, rfl, read, means⟩

end Query
end Helpdesk
