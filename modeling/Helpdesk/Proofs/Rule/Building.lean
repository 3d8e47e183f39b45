import Helpdesk.Proofs.Rule.Emission

/-! Builders in use. Values are bound, associations are joined and conditions are compiled one after
another, and some of them fail on the way. All that ever happens to the builder is that a value is bound
or an association is joined (`Grows`). So its names tell everything apart that it holds (`NamesApart`),
and what a call has returned means the same in the query that is built in the end (`kept_of_run`). -/

namespace Helpdesk
namespace Builder

inductive Call
  | bind (field : String) (value : Value)
  | join (field : String) (a : Association)
  | compare (field : String) (op : Operator) (value : Value)
  | compile (s : Strategy) (field : String) (op : Operator) (value : Value)
    (priorities : PriorityTable)

def Call.after (b : Builder) : Call → Builder
  | .bind field value => (b.bind field value).2
  | .join field a => (b.leftJoin field a).2
  | .compare field op value => (b.compare field op value).2
  | .compile s field op value priorities => (s.compile b field op value priorities).2

def run (table : String) (calls : List Call) : Builder := calls.foldl Call.after (selectFrom table)

/-- A builder that comes from another one by binding values and joining associations. -/
inductive Grows (b : Builder) : Builder → Prop
  | refl : Grows b b
  | bind {c : Builder} (field : String) (value : Value) (h : Grows b c) : Grows b (c.bind field value).2
  | join {c : Builder} (field : String) (a : Association) (h : Grows b c) :
    Grows b (c.leftJoin field a).2

namespace Grows
variable {a b c : Builder}

theorem trans (first : a.Grows b) (second : b.Grows c) : a.Grows c := by
  induction second with
  | refl => exact first
  | bind field value _ ih => exact ih.bind field value
  | join field a _ ih => exact ih.join field a

theorem precedes (h : a.Grows b) : a.Precedes b := by
  induction h with
  | refl => exact .refl a
  | bind field value _ ih => exact ih.trans (precedes_bind _ field value)
  | join field a _ ih => exact ih.trans (precedes_leftJoin _ field a)

theorem numbered (h : a.Grows b) (old : a.Numbered) : b.Numbered := by
  induction h with
  | refl => exact old
  | bind field value _ ih => exact ih.bind field value
  | join field a _ ih => exact ih.leftJoin field a

end Grows

theorem grows_compare (b : Builder) (field : String) (op : Operator) (value : Value) :
    b.Grows (b.compare field op value).2 := by
  cases op with
  | isNull | isNotNull => exact .refl
  | _ => exact .bind field value .refl

def JoinsApart (b : Builder) : Prop := (b.joins.map fun j => (j.source, j.table, j.key)).Nodup

theorem Grows.joinsApart {b c : Builder} (h : b.Grows c) (old : b.JoinsApart) : c.JoinsApart := by
  induction h with
  | refl => exact old
  | bind field value _ ih => exact ih
  | join field a _ ih =>
    unfold leftJoin
    split
    · exact ih
    next missing =>
      rw [JoinsApart, List.map_append, List.nodup_append]
      refine ⟨ih, List.nodup_singleton _, fun k hk l hl same => ?_⟩
      obtain ⟨j, hj, rfl⟩ := List.mem_map.1 hk
      rw [List.map_singleton, List.mem_singleton] at hl
      have serves : Join.serves j (column field) a = true := by
        obtain ⟨source, table, key⟩ : j.source = column field ∧ j.table = a.table ∧ j.key = a.key := by
          simpa using same.trans hl
        simp [Join.serves, source, table, key]
      exact List.find?_eq_none.1 missing j hj serves

end Builder

theorem Test.grows_emit (t : Test) (b : Builder) : b.Grows (t.emit b).2 := by
  cases t with
  | never => exact .refl
  | nullCheck field negated => exact .refl
  | compare site op value =>
    have located : b.Grows (b.locate site).2 := by
      cases site with
      | own field => exact .refl
      | joined field a => exact .join field a .refl
    exact located.bind site.field value

namespace Strategy
variable {s : Strategy} {b : Builder} {field : String} {op : Operator} {value : Value}
  {priorities : PriorityTable}

theorem compile_ok {p : Predicate} (h : (s.compile b field op value priorities).1 = .ok p) :
    ∃ t, s.test field op value priorities = .ok t ∧ (t.emit b).1 = p ∧
      (t.emit b).2 = (s.compile b field op value priorities).2 := by
  have same := s.compile_eq b field op value priorities
  generalize s.compile b field op value priorities = result at same h
  obtain ⟨_, after⟩ := result
  cases h
  obtain ⟨t, made, emitted⟩ := map_eq_ok.1 same.symm
  exact ⟨t, made, congrArg Prod.fst emitted, congrArg Prod.snd emitted⟩

theorem compile_error {e : Fault} (h : (s.compile b field op value priorities).1 = .error e) :
    b.Grows (s.compile b field op value priorities).2 ∧
      (s.compile b field op value priorities).2.parameters = b.parameters := by
  unfold compile at h ⊢
  by_cases unary : (!op.takesValue) = true
  · rw [if_pos unary] at h
    cases h
  rw [if_neg unary] at h ⊢
  cases s with
  | associationContains join =>
    dsimp only at h ⊢
    cases sought : searchValue field op value with
    | ok v =>
      rw [sought] at h
      cases h
    | error f => exact ⟨.join field join .refl, Builder.parameters_leftJoin b field join⟩
  | identityLookup account =>
    dsimp only at h ⊢
    cases numbers : userNumbers field account value with
    | ok v =>
      rw [numbers] at h
      cases h
    | error f => exact ⟨.refl, rfl⟩
  | weightedRange =>
    dsimp only at h ⊢
    cases ordering : keep? op with
    | none =>
      rw [ordering] at h
      cases h
    | some keep =>
      simp only [ordering] at h ⊢
      cases past : pastThreshold field priorities keep value with
      | error f => exact ⟨.refl, rfl⟩
      | ok texts =>
        rw [past] at h
        cases texts <;> cases h

theorem grows_compile (s : Strategy) (b : Builder) (field : String) (op : Operator) (value : Value)
    (priorities : PriorityTable) : b.Grows (s.compile b field op value priorities).2 := by
  cases outcome : (s.compile b field op value priorities).1 with
  | error e => exact (compile_error outcome).1
  | ok p =>
    obtain ⟨t, -, -, after⟩ := compile_ok outcome
    exact after ▸ t.grows_emit b

end Strategy

namespace Builder

theorem Call.grows (call : Call) (b : Builder) : b.Grows (call.after b) := by
  cases call with
  | bind field value => exact .bind field value .refl
  | join field a => exact .join field a .refl
  | compare field op value => exact b.grows_compare field op value
  | compile s field op value priorities => exact s.grows_compile b field op value priorities

theorem grows_foldl (b : Builder) (calls : List Call) : b.Grows (calls.foldl Call.after b) := by
  induction calls generalizing b with
  | nil => exact .refl
  | cons call calls ih => exact (call.grows b).trans (ih (call.after b))

theorem numbered_run (table : String) (calls : List Call) : (run table calls).Numbered :=
  (grows_foldl (selectFrom table) calls).numbered (numbered_selectFrom table)

/-- Names and joins that tell apart all that a builder holds. -/
structure NamesApart (b : Builder) : Prop where
  parameters : (b.parameters.map Parameter.name).Nodup
  joins : b.JoinsApart
  aliases : b.joins.map Join.name =
    (List.range b.joins.length).map fun i => "j" ++ toString (i + 1)
  notTarget : targetAlias ∉ b.joins.map Join.name

theorem numberedName_eq (stem : String) (n : Nat) : numberedName stem n = stem ++ toString n := by
  rw [numberedName, Text.Decimal.ofNat, Nat.toString_eq_ofList_toDigits]

theorem namesApart_run (table : String) (calls : List Call) : (run table calls).NamesApart := by
  have numbered := numbered_run table calls
  have apart := (grows_foldl (selectFrom table) calls).joinsApart List.nodup_nil
  refine ⟨numbered.nodup_parameters, apart, ?_, fun target => ?_⟩
  · refine List.ext_getElem (by simp) fun i hi _ => ?_
    simp only [List.length_map] at hi
    simp [numbered.joins i hi, numberedName_eq]
  · obtain ⟨j, hj, name⟩ := List.mem_map.1 target
    obtain ⟨i, hi, rfl⟩ := List.getElem_of_mem hj
    rw [numbered.joins i hi] at name
    have chars := congrArg String.toList name
    rw [toList_numberedName] at chars
    exact absurd (List.cons.inj chars).1 (by decide)

/-- What a call to a builder returned is true of a query that was built later. -/
def Call.Kept (b : Builder) (q : Query) : Call → Prop
  | .bind field value => q.parameter? (b.bind field value).1 = some value
  | .join field a => ∃ j ∈ q.joins, j.name = (b.leftJoin field a).1 ∧
      j.source = column field ∧ j.table = a.table ∧ j.key = a.key
  | .compare field op value => (Test.plain field op value).Spells q (b.compare field op value).1
  | .compile s field op value priorities =>
    match (s.compile b field op value priorities).1 with
    | .ok p => ∃ t, s.test field op value priorities = .ok t ∧ t.Spells q p
    | .error _ => (s.compile b field op value priorities).2.parameters = b.parameters

theorem Call.kept (call : Call) (b : Builder) {final : Builder} (numbered : final.Numbered)
    (h : (call.after b).Precedes final) (x : Predicate) : call.Kept b (final.toQuery x) := by
  cases call with
  | bind field value =>
    refine Query.parameter?_of_mem (q := final.toQuery x) (p := ⟨(b.bind field value).1, value⟩)
      numbered.nodup_parameters (h.parameters.subset ?_)
    simp [after]
  | join field a =>
    obtain ⟨j, found, name⟩ := b.find?_leftJoin field a
    refine ⟨j, h.joins.subset (List.mem_of_find?_eq_some found), name, ?_⟩
    simpa [Join.serves, and_assoc] using List.find?_some found
  | compare field op value =>
    rw [after, ← Test.emit_plain] at h
    rw [Kept, ← Test.emit_plain]
    exact Test.emit_spells numbered x _ b h
  | compile s field op value priorities =>
    rw [Kept]
    split
    next p compiled =>
      obtain ⟨t, made, rfl, last⟩ := Strategy.compile_ok compiled
      exact ⟨t, made, t.emit_spells numbered x b (last ▸ h)⟩
    next e refused => exact (Strategy.compile_error refused).2

/-- However a builder is used, its names never clash. Nothing that it holds is changed, removed or moved
by a later call, and what a call has returned means in the final query what it meant then. -/
theorem kept_of_run (table : String) (calls : List Call) (x : Predicate) :
    (run table calls).NamesApart ∧
      (∀ p ∈ (run table calls).parameters,
        ((run table calls).toQuery x).parameter? p.name = some p.value) ∧
      ∀ before call rest, calls = before ++ call :: rest →
        (run table before).Precedes (call.after (run table before)) ∧
        (call.after (run table before)).Precedes (run table calls) ∧
        call.Kept (run table before) ((run table calls).toQuery x) := by
  have numbered := numbered_run table calls
  refine ⟨namesApart_run table calls, fun p hp => Query.parameter?_of_mem numbered.nodup_parameters hp,
    fun before call rest split => ?_⟩
  have later : (call.after (run table before)).Precedes (run table calls) := by
    have parts : run table calls = rest.foldl Call.after (call.after (run table before)) := by
      rw [split, run, List.foldl_append]
      rfl
    exact parts ▸ (grows_foldl _ rest).precedes
  exact ⟨(call.grows _).precedes, later, call.kept _ numbered later x⟩

/-- The field of one parameter is the name of another one, and a search that is refused leaves its join. -/
example :
    let branches : Association := ⟨"branches", "id", "name"⟩
    let b := run "tickets" [.bind "a" (.int 1), .bind "a_1" (.int 2),
      .compile (.associationContains branches) "branch" .like .null .standard, .join "branch" branches]
    b.parameters.map Parameter.name = ["a_1", "a_1_2"] ∧ b.joins.map Join.name = ["j1"] := by decide

end Builder
end Helpdesk
