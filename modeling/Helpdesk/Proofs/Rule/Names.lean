import Helpdesk.Proofs.Rule.Emission
import Helpdesk.Proofs.Strategy

/-! The names in the queries of a configuration. Tables, columns and associations come from the
configuration and from nowhere else (`isNamed_of_mem_tests`), and in a configuration that was
validated they are all identifiers (`isIdentifier_of_names`). -/

namespace Helpdesk

def Association.IsPlain (a : Association) : Prop :=
  isIdentifier a.table ∧ isIdentifier a.key ∧ isIdentifier a.display

instance : DecidablePred Association.IsPlain := fun _ => inferInstanceAs (Decidable (_ ∧ _))

namespace Config

/-- The names that a configuration has for statements: those of its tables and columns, and those of
the associations in its strategies. -/
inductive Names (c : Config) : String → Prop
  | table {target : String} {e : Entity} (h : (target, e) ∈ c.targets.entries) : Names c e.table
  | column {target property : String} {e : Entity} {m : FieldMetadata}
      (h : (target, e) ∈ c.targets.entries) (hm : (property, m) ∈ e.fields.entries) :
      Names c m.field
  | association {field name : String} {op : Operator} {a : Association}
      (h : c.registry.resolve? field op = some (.associationContains a))
      (hn : name ∈ [a.table, a.key, a.display]) : Names c name

theorem checkIdentifier_eq_ok {place value : String} {u : Unit} :
    checkIdentifier place value = .ok u ↔ isIdentifier value := by
  rw [checkIdentifier]
  split <;> simp_all

theorem isIdentifier_of_checkFields {target : String} {fields : List (String × FieldMetadata)}
    {u : Unit} (h : checkFields target fields = .ok u) :
    ∀ f ∈ fields, isIdentifier (withColumn f.1 f.2).field := by
  induction fields with
  | nil => exact fun f hf => absurd hf List.not_mem_nil
  | cons f fields ih =>
    obtain ⟨_, first, h⟩ := bind_eq_ok.1 h
    exact List.forall_mem_cons.2 ⟨checkIdentifier_eq_ok.1 first, ih h⟩

theorem isIdentifier_of_checkTargets {seen : List (String × String)}
    {targets : List (String × Entity)} {u : Unit} (h : checkTargets seen targets = .ok u) :
    ∀ t ∈ targets, isIdentifier t.2.table ∧
      ∀ f ∈ t.2.fields.entries, isIdentifier (withColumn f.1 f.2).field := by
  induction targets generalizing seen with
  | nil => exact fun t ht => absurd ht List.not_mem_nil
  | cons t targets ih =>
    rw [checkTargets] at h
    split at h
    · cases h
    · obtain ⟨_, table, h⟩ := bind_eq_ok.1 h
      obtain ⟨_, fields, h⟩ := bind_eq_ok.1 h
      exact List.forall_mem_cons.2
        ⟨⟨checkIdentifier_eq_ok.1 table, isIdentifier_of_checkFields fields⟩, ih h⟩

theorem isPlain_of_checkStrategies {entries : List StrategyEntry} {u : Unit}
    (h : checkStrategies entries = .ok u) :
    ∀ e ∈ entries, ∀ a, e.strategy = .associationContains a → a.IsPlain := by
  induction entries with
  | nil => exact fun e he => absurd he List.not_mem_nil
  | cons e entries ih =>
    obtain ⟨_, first, h⟩ := bind_eq_ok.1 h
    refine List.forall_mem_cons.2 ⟨fun a ha => ?_, ih h⟩
    obtain ⟨_, _, first⟩ := bind_eq_ok.1 first
    rw [ha] at first
    obtain ⟨_, table, first⟩ := bind_eq_ok.1 first
    obtain ⟨_, key, display⟩ := bind_eq_ok.1 first
    exact ⟨checkIdentifier_eq_ok.1 table, checkIdentifier_eq_ok.1 key,
      checkIdentifier_eq_ok.1 display⟩

theorem isPlain_of_registry {c : Config} {u : Unit} (h : checkStrategies (c.strategies.getD []) = .ok u)
    {field : String} {op : Operator} {a : Association}
    (ha : c.registry.resolve? field op = some (.associationContains a)) : a.IsPlain := by
  rw [registry] at ha
  split at ha
  next entries own =>
    obtain ⟨e, he, made⟩ := StrategyRegistry.exists_entry_of_resolve? ha
    rw [own] at h
    exact isPlain_of_checkStrategies h e he a made
  next =>
    obtain ⟨e, he, made⟩ := StrategyRegistry.exists_entry_of_resolve? ha
    have branches : ∀ e' : StrategyEntry, e'.strategy = .associationContains ⟨"branches", "id", "name"⟩ →
        e'.strategy = .associationContains a → a.IsPlain := by
      intro e' first second
      cases first.symm.trans second
      decide
    simp only [List.mem_cons, List.not_mem_nil, or_false] at he
    rcases he with rfl | rfl | rfl | rfl | rfl | rfl | rfl
    all_goals first | exact branches _ rfl made | cases made

theorem isIdentifier_of_names {given c : Config} (valid : given.validate = .ok c) {name : String}
    (h : c.Names name) : isIdentifier name := by
  obtain ⟨_, targets, valid⟩ := bind_eq_ok.1 valid
  obtain ⟨_, strategies, valid⟩ := bind_eq_ok.1 valid
  cases valid
  have checked := isIdentifier_of_checkTargets targets
  have entries {target : String} {e : Entity} (he : (target, e) ∈ given.withColumns.targets.entries) :
      ∃ e₀, (target, e₀) ∈ given.targets.entries ∧
        e = { e₀ with fields := e₀.fields.mapWithKey withColumn } := by
    obtain ⟨⟨target₀, e₀⟩, h₀, same⟩ := List.mem_map.1 he
    cases same
    exact ⟨e₀, h₀, rfl⟩
  cases h with
  | table he =>
    obtain ⟨e₀, h₀, rfl⟩ := entries he
    exact (checked _ h₀).1
  | column he hm =>
    obtain ⟨e₀, h₀, rfl⟩ := entries he
    obtain ⟨⟨property, m₀⟩, hm₀, same⟩ := List.mem_map.1 hm
    cases same
    exact (checked _ h₀).2 _ hm₀
  | association ha hn =>
    obtain ⟨table, key, display⟩ := isPlain_of_registry strategies ha
    simp only [List.mem_cons, List.not_mem_nil, or_false] at hn
    rcases hn with rfl | rfl | rfl
    · exact table
    · exact key
    · exact display

end Config

def Site.IsNamed (c : Config) : Site → Prop
  | .own field => c.Names field
  | .joined field a => c.Names field ∧ c.Names a.table ∧ c.Names a.key ∧ c.Names a.display

def Test.IsNamed (c : Config) : Test → Prop
  | .never => True
  | .nullCheck field _ => c.Names field
  | .compare site _ _ => site.IsNamed c

theorem Test.isNamed_plain {c : Config} {field : String} (h : c.Names field) (op : Operator)
    (value : Value) : (Test.plain field op value).IsNamed c := by
  cases op <;> exact h

theorem Strategy.isNamed_test {c : Config} {s : Strategy} {field : String} {op op' : Operator}
    {value : Value} {priorities : PriorityTable} {t : Test} (hf : c.Names field)
    (hs : c.registry.resolve? field op' = some s)
    (h : s.test field op value priorities = .ok t) : t.IsNamed c := by
  obtain rfl | ⟨join, sought, rfl, -, -, rfl⟩ | ⟨account, numbers, rfl, -, -, rfl⟩ |
    ⟨keep, texts, rfl, -, -, rfl⟩ := test_eq_ok h
  · exact Test.isNamed_plain hf op value
  · exact ⟨hf, .association hs (by simp), .association hs (by simp), .association hs (by simp)⟩
  · exact Test.isNamed_plain hf op numbers
  · cases texts with
    | nil => trivial
    | cons text texts => exact Test.isNamed_plain hf .oneOf _

namespace Compiler

/-- A compiler that takes entities, columns and strategies from one configuration. Priorities,
conditions and the time may be any. -/
structure IsOf (c : Compiler) (config : Config) : Prop where
  ofEntities : c.config = config
  ofColumns : c.metadata = (config : MetadataResolver)
  ofStrategies : c.strategies = config.registry

variable {c : Compiler} {config : Config}

theorem IsOf.names_table (h : c.IsOf config) {name : String} {e : Entity}
    (entity : c.config.entity name = .ok e) : config.Names e.table := by
  rw [h.ofEntities, Config.entity] at entity
  split at entity
  next found => cases entity; exact .table (Dict.mem_of_get? found)
  next => cases entity

theorem IsOf.names_field (h : c.IsOf config) {name property : String} {e : Entity}
    {m : FieldMetadata} (hm : (c.target name e).metadata property = .ok m) : config.Names m.field := by
  rw [Target.metadata, target, h.ofColumns] at hm
  dsimp only at hm
  split at hm
  next found =>
    cases hm
    obtain ⟨⟨name', entity⟩, isClass, field⟩ := Option.bind_eq_some_iff.1 found
    exact .column (List.mem_of_find?_eq_some isClass) (Dict.mem_of_get? field)
  next => cases hm

theorem IsOf.isNamed_term (h : c.IsOf config) {name : String} {e : Entity}
    {d : ConditionDefinition} {t : Test} (made : c.term (c.target name e) d = .ok (.test t)) :
    t.IsNamed config := by
  obtain ⟨condition, _, made⟩ := bind_eq_ok.1 made
  obtain ⟨u, tested, made⟩ := bind_eq_ok.1 made
  cases made
  obtain ⟨⟨op, value⟩, _, tested⟩ := bind_eq_ok.1 tested
  obtain ⟨m, found, tested⟩ := bind_eq_ok.1 tested
  have field := h.names_field found
  rw [h.ofStrategies] at tested
  split at tested
  next => cases tested; exact Test.isNamed_plain field op value
  next s resolved => exact Strategy.isNamed_test field resolved tested

theorem IsOf.isNamed_of_mem_tests (h : c.IsOf config) {name : String} {e : Entity} {g : Group}
    {p : Plan} (planned : c.plan (c.target name e) g = .ok p) : ∀ t ∈ p.tests, t.IsNamed config := by
  intro t ht
  obtain ⟨d, made⟩ := exists_term_of_mem_tests g planned ht
  exact h.isNamed_term made

end Compiler
end Helpdesk
