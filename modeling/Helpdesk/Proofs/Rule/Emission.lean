import Helpdesk.Proofs.Query.Meaning
import Helpdesk.Proofs.Rule.Plan
import Mathlib.Data.List.Nodup

/-! How plans are written down. A builder numbers its parameters and its joins in the order in which
they come (`Numbered`), so no two of them share a name, and what it holds stays as it is
(`Precedes`). The predicate that is written then spells the plan under the names of the finished
query (`emit_spells`), and it mentions every parameter once, in the order of the parameters
(`parameters_emit`). -/

namespace Helpdesk

namespace Predicate

def reference? : Predicate → Option String
  | .compare _ _ name => some name
  | _ => none

def column? : Predicate → Option Column
  | .compare column _ _ => some column
  | .nullCheck column _ => some column
  | _ => none

def references (p : Predicate) : List String := p.leaves.filterMap reference?

def columns (p : Predicate) : List Column := p.leaves.filterMap column?

theorem leaves_combine (connector : Connector) (ps : List Predicate) :
    (connector.combine ps).leaves = leavesOf ps := by
  cases connector <;> rfl

end Predicate

namespace Builder

theorem toList_numberedName (stem : String) (n : Nat) :
    (numberedName stem n).toList = stem.toList ++ Text.Decimal.ofNat n := by
  simp [numberedName]

theorem ofNat_injective {m n : Nat} (h : Text.Decimal.ofNat m = Text.Decimal.ofNat n) : m = n := by
  have read := congrArg Text.Decimal.natural? h
  rw [Text.Decimal.natural?_ofNat, Text.Decimal.natural?_ofNat] at read
  exact Option.some.inj read

theorem numberedName_injective {stem : String} {m n : Nat}
    (h : numberedName stem m = numberedName stem n) : m = n := by
  have chars := congrArg String.toList h
  rw [toList_numberedName, toList_numberedName] at chars
  exact ofNat_injective (List.append_cancel_left chars)

theorem number_of_parameterName {field field' : String} {m n : Nat}
    (h : numberedName (field ++ "_") m = numberedName (field' ++ "_") n) : m = n := by
  have behind (field : String) (n : Nat) :
      (numberedName (field ++ "_") n).toList.reverse.takeWhile Text.Decimal.isDigit =
        (Text.Decimal.ofNat n).reverse := by
    have underscore : Text.Decimal.isDigit '_' = false := by decide
    rw [toList_numberedName, List.reverse_append, String.toList_append, List.reverse_append,
      List.takeWhile_append_of_pos]
    · simp [underscore]
    · exact fun c hc => Text.Decimal.isDigit_of_mem_ofNat (List.mem_reverse.1 hc)
  have same := behind field m
  rw [h, behind field' n] at same
  exact (ofNat_injective (List.reverse_injective same)).symm

structure Numbered (b : Builder) : Prop where
  joins : ∀ i (h : i < b.joins.length), b.joins[i].name = numberedName "j" (i + 1)
  parameters : ∀ i (h : i < b.parameters.length),
    ∃ field, b.parameters[i].name = numberedName (field ++ "_") (i + 1)

theorem numbered_selectFrom (table : String) : (selectFrom table).Numbered :=
  ⟨fun _ h => absurd h (Nat.not_lt_zero _), fun _ h => absurd h (Nat.not_lt_zero _)⟩

namespace Numbered
variable {b : Builder}

theorem bind (h : b.Numbered) (field : String) (value : Value) :
    (b.bind field value).2.Numbered := by
  refine ⟨h.joins, fun i hi => ?_⟩
  simp only [parameters_bind, List.length_append, List.length_singleton] at hi ⊢
  by_cases old : i < b.parameters.length
  · rw [List.getElem_append_left old]
    exact h.parameters i old
  · obtain rfl : i = b.parameters.length := by omega
    exact ⟨field, by simp [Builder.bind]⟩

theorem leftJoin (h : b.Numbered) (field : String) (a : Association) :
    (b.leftJoin field a).2.Numbered := by
  unfold Builder.leftJoin
  split
  · exact h
  · refine ⟨fun i hi => ?_, h.parameters⟩
    simp only [List.length_append, List.length_singleton] at hi ⊢
    by_cases old : i < b.joins.length
    · rw [List.getElem_append_left old]
      exact h.joins i old
    · obtain rfl : i = b.joins.length := by omega
      simp

theorem nodup_parameters (h : b.Numbered) : (b.parameters.map Parameter.name).Nodup := by
  rw [List.Nodup, List.pairwise_iff_getElem]
  intro i j hi hj less same
  simp only [List.getElem_map, List.length_map] at hi hj same
  obtain ⟨field, first⟩ := h.parameters i hi
  obtain ⟨field', second⟩ := h.parameters j hj
  have number := number_of_parameterName (first ▸ second ▸ same)
  omega

theorem nodup_joins (h : b.Numbered) : (b.joins.map Join.name).Nodup := by
  rw [List.Nodup, List.pairwise_iff_getElem]
  intro i j hi hj less same
  simp only [List.getElem_map, List.length_map] at hi hj same
  rw [h.joins i hi, h.joins j hj] at same
  have number := numberedName_injective same
  omega

end Numbered

structure Precedes (b later : Builder) : Prop where
  table : b.table = later.table
  joins : b.joins <+: later.joins
  parameters : b.parameters <+: later.parameters

namespace Precedes
variable {a b c : Builder}

theorem refl (b : Builder) : b.Precedes b := ⟨rfl, List.prefix_rfl, List.prefix_rfl⟩

theorem trans (first : a.Precedes b) (second : b.Precedes c) : a.Precedes c :=
  ⟨first.table.trans second.table, first.joins.trans second.joins,
    first.parameters.trans second.parameters⟩

end Precedes

theorem precedes_bind (b : Builder) (field : String) (value : Value) :
    b.Precedes (b.bind field value).2 :=
  ⟨rfl, List.prefix_rfl, List.prefix_append _ _⟩

theorem precedes_leftJoin (b : Builder) (field : String) (a : Association) :
    b.Precedes (b.leftJoin field a).2 := by
  unfold leftJoin
  split
  · exact .refl b
  · exact ⟨rfl, List.prefix_append _ _, List.prefix_rfl⟩

theorem precedes_locate (b : Builder) (site : Site) : b.Precedes (b.locate site).2 := by
  cases site with
  | own field => exact .refl b
  | joined field a => exact precedes_leftJoin b field a

theorem Numbered.locate {b : Builder} (h : b.Numbered) (site : Site) :
    (b.locate site).2.Numbered := by
  cases site with
  | own field => exact h
  | joined field a => exact h.leftJoin field a

theorem parameters_locate (b : Builder) (site : Site) :
    (b.locate site).2.parameters = b.parameters := by
  cases site with
  | own field => rfl
  | joined field a => exact parameters_leftJoin b field a

end Builder

namespace Plan

mutual
/-- What every single test does to a builder, again and again, the whole plan does. -/
theorem emit_closed {M : Builder → Builder → Prop} (refl : ∀ b, M b b)
    (trans : ∀ {a b c}, M a b → M b c → M a c) :
    (p : Plan) → (∀ t ∈ p.tests, ∀ b, M b (t.emit b).2) → ∀ b, M b (p.emit b).2
  | .test t, step, b => step t (List.mem_singleton.2 rfl) b
  | .group _ terms, step, b => emits_closed refl trans terms step b

theorem emits_closed {M : Builder → Builder → Prop} (refl : ∀ b, M b b)
    (trans : ∀ {a b c}, M a b → M b c → M a c) :
    (ps : List Plan) → (∀ t ∈ testsOf ps, ∀ b, M b (t.emit b).2) → ∀ b, M b (emits ps b).2
  | [], _, b => refl b
  | p :: ps, step, b => by
    have first := emit_closed refl trans p (fun t ht => step t (List.mem_append_left _ ht)) b
    have rest := emits_closed refl trans ps
      (fun t ht => step t (List.mem_append_right _ ht)) (p.emit b).2
    exact trans first rest
end

end Plan

namespace Test

theorem precedes_emit (t : Test) (b : Builder) : b.Precedes (t.emit b).2 := by
  cases t with
  | never => exact .refl b
  | nullCheck field negated => exact .refl b
  | compare site op value =>
    exact (b.precedes_locate site).trans (Builder.precedes_bind _ site.field value)

theorem numbered_emit (t : Test) {b : Builder} (h : b.Numbered) : (t.emit b).2.Numbered := by
  cases t with
  | never => exact h
  | nullCheck field negated => exact h
  | compare site op value => exact (h.locate site).bind site.field value

end Test

namespace Plan

theorem precedes_emit (p : Plan) (b : Builder) : b.Precedes (p.emit b).2 :=
  p.emit_closed .refl .trans (fun t _ => t.precedes_emit) b

theorem precedes_emits (ps : List Plan) (b : Builder) : b.Precedes (emits ps b).2 :=
  emits_closed .refl .trans ps (fun t _ => t.precedes_emit) b

theorem table_query (p : Plan) (table : String) : (p.query table).table = table :=
  (p.precedes_emit (.selectFrom table)).table.symm

theorem numbered_emit (p : Plan) {b : Builder} (h : b.Numbered) : (p.emit b).2.Numbered :=
  p.emit_closed (M := fun b c => b.Numbered → c.Numbered) (fun _ => id)
    (fun first second => second ∘ first) (fun t _ _ => t.numbered_emit) b h

end Plan

def Test.value? : Test → Option Value
  | .compare _ _ value => some value
  | _ => none

def Plan.values (p : Plan) : List Value := p.tests.filterMap Test.value?

theorem Test.parameters_emit (t : Test) (b : Builder) : ∃ new,
    (t.emit b).2.parameters = b.parameters ++ new ∧ new.map Parameter.value = t.value?.toList ∧
      new.map Parameter.name = (t.emit b).1.references := by
  cases t with
  | never => exact ⟨[], by simp [emit], rfl, rfl⟩
  | nullCheck field negated => exact ⟨[], by simp [emit], rfl, rfl⟩
  | compare site op value =>
    exact ⟨[⟨((b.locate site).2.bind site.field value).1, value⟩],
      by simp [emit, Builder.parameters_locate], rfl, rfl⟩

namespace Plan

mutual
theorem parameters_emit : (p : Plan) → (b : Builder) → ∃ new,
    (p.emit b).2.parameters = b.parameters ++ new ∧ new.map Parameter.value = p.values ∧
      new.map Parameter.name = (p.emit b).1.references
  | .test t, b => by
    obtain ⟨new, parameters, values, names⟩ := t.parameters_emit b
    refine ⟨new, parameters, ?_, names⟩
    rw [values, Plan.values, tests]
    cases t <;> rfl
  | .group connector terms, b => by
    obtain ⟨new, parameters, values, names⟩ := parameters_emits terms b
    refine ⟨new, parameters, values, ?_⟩
    rw [names, emit, Predicate.references, Predicate.leaves_combine]

theorem parameters_emits : (ps : List Plan) → (b : Builder) → ∃ new,
    (emits ps b).2.parameters = b.parameters ++ new ∧
      new.map Parameter.value = (testsOf ps).filterMap Test.value? ∧
      new.map Parameter.name = (Predicate.leavesOf (emits ps b).1).filterMap Predicate.reference?
  | [], b => ⟨[], by simp [emits], rfl, rfl⟩
  | p :: ps, b => by
    obtain ⟨new, parameters, values, names⟩ := parameters_emit p b
    obtain ⟨more, parameters', values', names'⟩ := parameters_emits ps (p.emit b).2
    refine ⟨new ++ more, ?_, ?_, ?_⟩
    · rw [emits, parameters', parameters, List.append_assoc]
    · rw [List.map_append, values, values', testsOf, List.filterMap_append, Plan.values]
    · rw [List.map_append, names, names', emits, Predicate.leavesOf, List.filterMap_append,
        Predicate.references]
end

end Plan

theorem Query.parameter?_of_mem {q : Query} (nodup : (q.parameters.map Parameter.name).Nodup)
    {p : Parameter} (h : p ∈ q.parameters) : q.parameter? p.name = some p.value := by
  have unique : ∀ ps : List Parameter, (ps.map Parameter.name).Nodup → p ∈ ps →
      ps.find? (fun o => o.name == p.name) = some p := by
    intro ps
    induction ps with
    | nil => exact fun _ h => absurd h List.not_mem_nil
    | cons o os ih =>
      intro nodup h
      rw [List.map_cons, List.nodup_cons] at nodup
      rcases List.mem_cons.1 h with rfl | later
      · simp
      · have other : o.name ≠ p.name := fun same => nodup.1 (same ▸ List.mem_map_of_mem later)
        rw [List.find?_cons_of_neg (by simpa using other)]
        exact ih nodup.2 later
  rw [parameter?, unique q.parameters nodup h]
  rfl

def Site.column? (joins : List Join) : Site → Option Column
  | .own field => some (Builder.column field)
  | .joined field a =>
    (joins.find? fun j => Builder.Join.serves j (Builder.column field) a).map fun j =>
      ⟨j.name, a.display⟩

/-- The name that a join is given is that of the first join that serves. -/
theorem Builder.find?_leftJoin (b : Builder) (field : String) (a : Association) :
    ∃ j, (b.leftJoin field a).2.joins.find? (fun j => Join.serves j (column field) a) = some j ∧
      j.name = (b.leftJoin field a).1 := by
  unfold leftJoin
  split
  next j found => exact ⟨j, found, rfl⟩
  next missing =>
    refine ⟨⟨a.table, numberedName "j" (b.joins.length + 1), a.key, column field⟩, ?_, rfl⟩
    rw [List.find?_append, missing]
    simp [Join.serves]

theorem Builder.column?_locate (b : Builder) (site : Site) {joins : List Join}
    (h : (b.locate site).2.joins <+: joins) : site.column? joins = some (b.locate site).1 := by
  cases site with
  | own field => rfl
  | joined field a =>
    obtain ⟨j, found, name⟩ := b.find?_leftJoin field a
    rw [Site.column?, h.find?_eq_some found, Option.map_some, name]
    rfl

/-- A predicate spells a test when it compares the column of its site with a parameter of its
value. -/
def Test.Spells (q : Query) : Test → Predicate → Prop
  | .never, x => x = .never
  | .nullCheck field negated, x => x = .nullCheck (Builder.column field) negated
  | .compare site op value, x => ∃ column name, x = .compare column op name ∧
      site.column? q.joins = some column ∧ q.parameter? name = some value

namespace Plan

mutual
/-- A predicate spells a plan when it has its shape and spells its tests. -/
def Spells (q : Query) : Plan → Predicate → Prop
  | .test t, x => t.Spells q x
  | .group connector terms, x => ∃ xs, x = connector.combine xs ∧ Spell q terms xs

def Spell (q : Query) : List Plan → List Predicate → Prop
  | [], xs => xs = []
  | p :: ps, xs => ∃ y ys, xs = y :: ys ∧ Spells q p y ∧ Spell q ps ys
end

end Plan

theorem Test.emit_spells {final : Builder} (numbered : final.Numbered) (x : Predicate) (t : Test)
    (b : Builder) (h : (t.emit b).2.Precedes final) : t.Spells (final.toQuery x) (t.emit b).1 := by
  cases t with
  | never => rfl
  | nullCheck field negated => rfl
  | compare site op value =>
    have joins := ((b.locate site).2.precedes_bind site.field value).trans h
    refine ⟨_, _, rfl, b.column?_locate site joins.joins, ?_⟩
    have member : ⟨((b.locate site).2.bind site.field value).1, value⟩ ∈ final.parameters := by
      refine h.parameters.subset ?_
      simp [emit]
    exact Query.parameter?_of_mem (q := final.toQuery x) numbered.nodup_parameters member

namespace Plan

mutual
theorem emit_spells {final : Builder} (numbered : final.Numbered) (x : Predicate) :
    (p : Plan) → (b : Builder) → (p.emit b).2.Precedes final →
    p.Spells (final.toQuery x) (p.emit b).1
  | .test t, b, h => t.emit_spells numbered x b h
  | .group _ terms, b, h => ⟨_, rfl, emits_spell numbered x terms b h⟩

theorem emits_spell {final : Builder} (numbered : final.Numbered) (x : Predicate) :
    (ps : List Plan) → (b : Builder) → (emits ps b).2.Precedes final →
    Spell (final.toQuery x) ps (emits ps b).1
  | [], _, _ => rfl
  | p :: ps, b, h =>
    ⟨_, _, rfl, emit_spells numbered x p b ((precedes_emits ps (p.emit b).2).trans h),
      emits_spell numbered x ps (p.emit b).2 h⟩
end

theorem serves_of_mem_joins (p : Plan) {b : Builder} {j : Join} (h : j ∈ (p.emit b).2.joins) :
    j ∈ b.joins ∨ ∃ field a op value, Test.compare (.joined field a) op value ∈ p.tests ∧
      Builder.Join.serves j (Builder.column field) a := by
  refine p.emit_closed (M := fun b c => ∀ j ∈ c.joins, j ∈ b.joins ∨ ∃ field a op value,
    Test.compare (.joined field a) op value ∈ p.tests ∧
      Builder.Join.serves j (Builder.column field) a)
    (fun _ _ => .inl) (fun first second j hj => (second j hj).elim (first j) .inr) ?_ b j h
  intro t ht b j hj
  cases t with
  | never => exact .inl hj
  | nullCheck field negated => exact .inl hj
  | compare site op value =>
    cases site with
    | own field => exact .inl hj
    | joined field a =>
      simp only [Test.emit, Builder.locate, Builder.joins_bind, Builder.leftJoin] at hj
      split at hj
      · exact .inl hj
      · rcases List.mem_append.1 hj with old | new
        · exact .inl old
        · rw [List.mem_singleton.1 new]
          exact .inr ⟨field, a, op, value, ht, by simp [Builder.Join.serves]⟩

/-- What is known of a query that was written for a plan. -/
structure Writes (p : Plan) (q : Query) : Prop where
  spells : p.Spells q q.predicate
  /-- The predicate mentions every parameter once, in the order of the parameters. -/
  references : q.predicate.references = q.parameters.map Parameter.name
  values : q.parameters.map Parameter.value = p.values
  numbered : Builder.Numbered ⟨q.table, q.joins, q.parameters⟩
  joins : ∀ j ∈ q.joins, ∃ field a op value, Test.compare (.joined field a) op value ∈ p.tests ∧
    Builder.Join.serves j (Builder.column field) a

theorem writes_query (p : Plan) (table : String) : p.Writes (p.query table) := by
  have numbered := p.numbered_emit (Builder.numbered_selectFrom table)
  obtain ⟨new, parameters, values, names⟩ := p.parameters_emit (.selectFrom table)
  have all : (p.query table).parameters = new := parameters
  refine ⟨p.emit_spells numbered _ _ (.refl _), ?_, ?_, numbered, fun j hj => ?_⟩
  · rw [all]
    exact names.symm
  · rw [all, values]
  · exact (p.serves_of_mem_joins hj).resolve_left List.not_mem_nil

end Plan
end Helpdesk
