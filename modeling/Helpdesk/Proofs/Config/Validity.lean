import Helpdesk.Proofs.Config.Document

/-! Which configurations are valid. Validation takes exactly the configurations whose classes are told
apart and whose names are plain (`IsSound`), and all that it changes are columns that were left out
(`Fills`). What it returns it takes again as it is, and there every target is found by its class
(`validate_iff_isSound`). -/

namespace Helpdesk

/-- A name of letters, digits and underscores of ASCII, at least one, with no digit in front. -/
structure IsPlainName (s : String) : Prop where
  nonempty : s ≠ ""
  chars : ∀ c ∈ s.toList, 'a' ≤ c ∧ c ≤ 'z' ∨ 'A' ≤ c ∧ c ≤ 'Z' ∨ '0' ≤ c ∧ c ≤ '9' ∨ c = '_'
  first : ∀ c, s.toList.head? = some c → ¬ ('0' ≤ c ∧ c ≤ '9')

theorem isIdentifier_iff {s : String} : isIdentifier s ↔ IsPlainName s := by
  have digit (c : Char) : c.isDigit = true ↔ '0' ≤ c ∧ c ≤ '9' :=
    Bool.and_eq_true_iff.trans (and_congr decide_eq_true_iff decide_eq_true_iff)
  have lower (c : Char) : c.isLower = true ↔ 'a' ≤ c ∧ c ≤ 'z' :=
    Bool.and_eq_true_iff.trans (and_congr decide_eq_true_iff decide_eq_true_iff)
  have upper (c : Char) : c.isUpper = true ↔ 'A' ≤ c ∧ c ≤ 'Z' := decide_eq_true_iff
  have inside (c : Char) : (c.isAlphanum || c == '_') = true ↔
      'a' ≤ c ∧ c ≤ 'z' ∨ 'A' ≤ c ∧ c ≤ 'Z' ∨ '0' ≤ c ∧ c ≤ '9' ∨ c = '_' := by
    have parts : (c.isAlphanum || c == '_') =
        (c.isUpper || c.isLower || c.isDigit || c == '_') := rfl
    rw [parts, Bool.or_eq_true, Bool.or_eq_true, Bool.or_eq_true, beq_iff_eq, upper, lower, digit,
      or_assoc, or_assoc, or_left_comm]
  rw [isIdentifier]
  split
  next empty =>
    have nothing : s = "" := String.toList_eq_nil_iff.1 empty
    exact iff_of_false Bool.false_ne_true fun plain => plain.nonempty nothing
  next c cs chars =>
    simp only [Bool.and_eq_true, Bool.not_eq_true', ← Bool.not_eq_true, digit, List.all_eq_true, inside]
    rw [← chars]
    refine ⟨fun ⟨first, all⟩ => ⟨fun nothing => ?_, all, fun d hd => ?_⟩, fun plain =>
      ⟨plain.first c (by rw [chars, List.head?_cons]), plain.chars⟩⟩
    · rw [nothing] at chars
      cases chars
    · rw [chars, List.head?_cons] at hd
      exact Option.some.inj hd ▸ first

def FieldMetadata.columnOf (m : FieldMetadata) (property : String) : String :=
  if m.field = "" then property else m.field

structure StrategyEntry.IsPlain (e : StrategyEntry) : Prop where
  field : IsPlainName e.field
  join : ∀ a, e.strategy = .associationContains a →
    IsPlainName a.table ∧ IsPlainName a.key ∧ IsPlainName a.display

namespace Config

/-- A configuration that tells its classes apart and has plain names only. -/
structure IsSound (c : Config) : Prop where
  classes : ∀ m n d e, c.target? m = some d → c.target? n = some e → d.className = e.className → m = n
  tables : ∀ n e, c.target? n = some e → IsPlainName e.table
  columns : ∀ n e property m, c.target? n = some e → e.fields.get? property = some m →
    IsPlainName (m.columnOf property)
  strategies : ∀ entries, c.strategies = some entries → ∀ e ∈ entries, e.IsPlain

/-- The second configuration is the first one with the columns filled in that it left out. -/
structure Fills (c filled : Config) : Prop where
  priorities : filled.priorities = c.priorities
  strategies : filled.strategies = c.strategies
  others : ∀ n, c.target? n = none → filled.target? n = none
  targets : ∀ n e, c.target? n = some e → ∃ f, filled.target? n = some f ∧
    f.className = e.className ∧ f.table = e.table ∧ ∀ property,
      f.fields.get? property = (e.fields.get? property).map fun m =>
        { m with field := m.columnOf property }

theorem withColumn_eq (property : String) (m : FieldMetadata) :
    withColumn property m = { m with field := m.columnOf property } := by
  by_cases left : m.field = ""
  · simp [withColumn, FieldMetadata.columnOf, left]
  · simp [withColumn, FieldMetadata.columnOf, left, String.isEmpty_iff]

theorem fills_withColumns (c : Config) : c.Fills c.withColumns where
  priorities := rfl
  strategies := rfl
  others n none := by
    rw [target?] at none ⊢
    rw [withColumns, Dict.get?_mapWithKey, none]
    rfl
  targets n e found := by
    rw [target?] at found
    refine ⟨e.withColumns, ?_, rfl, rfl, fun property => ?_⟩
    · rw [target?, withColumns, Dict.get?_mapWithKey, found]
      rfl
    · rw [Entity.withColumns, Dict.get?_mapWithKey]
      exact congrArg (Option.map · _) (funext fun m => withColumn_eq property m)

section Checks
variable {u : Unit}

theorem checkFields_eq_ok {target : String} {fields : List (String × FieldMetadata)} :
    checkFields target fields = .ok u ↔ ∀ f ∈ fields, isIdentifier (withColumn f.1 f.2).field := by
  refine ⟨isIdentifier_of_checkFields, fun plain => ?_⟩
  induction fields with
  | nil => rfl
  | cons f fields ih =>
    obtain ⟨first, others⟩ := List.forall_mem_cons.1 plain
    exact bind_eq_ok.2 ⟨(), checkIdentifier_eq_ok.2 first, ih others⟩

theorem checkTargets_eq_ok {seen : List (String × String)} {targets : List (String × Entity)} :
    checkTargets seen targets = .ok u ↔
      ((targets.Pairwise fun s t => s.2.className ≠ t.2.className) ∧
        ∀ t ∈ targets, seen.lookup t.2.className = none) ∧
      ∀ t ∈ targets, isIdentifier t.2.table ∧
        ∀ f ∈ t.2.fields.entries, isIdentifier (withColumn f.1 f.2).field := by
  refine ⟨fun h => ⟨classes_of_checkTargets h, isIdentifier_of_checkTargets h⟩, ?_⟩
  rintro ⟨⟨apart, unseen⟩, plain⟩
  induction targets generalizing seen with
  | nil => rfl
  | cons t targets ih =>
    obtain ⟨differs, apart⟩ := List.pairwise_cons.1 apart
    obtain ⟨new, unseen⟩ := List.forall_mem_cons.1 unseen
    obtain ⟨⟨table, fields⟩, plain⟩ := List.forall_mem_cons.1 plain
    rw [checkTargets, new]
    refine bind_eq_ok.2 ⟨(), checkIdentifier_eq_ok.2 table,
      bind_eq_ok.2 ⟨(), checkFields_eq_ok.2 fields, ih plain apart fun s hs => ?_⟩⟩
    rw [List.lookup_cons, beq_false_of_ne (differs s hs).symm]
    exact unseen s hs

theorem checkIdentifier_iff {place value : String} :
    checkIdentifier place value = .ok u ↔ IsPlainName value :=
  checkIdentifier_eq_ok.trans isIdentifier_iff

theorem checkStrategy_eq_ok {e : StrategyEntry} : checkStrategy e = .ok u ↔ e.IsPlain := by
  constructor
  · intro h
    obtain ⟨_, field, h⟩ := bind_eq_ok.1 h
    refine ⟨checkIdentifier_iff.1 field, fun a made => ?_⟩
    rw [made] at h
    obtain ⟨_, table, h⟩ := bind_eq_ok.1 h
    obtain ⟨_, key, display⟩ := bind_eq_ok.1 h
    exact ⟨checkIdentifier_iff.1 table, checkIdentifier_iff.1 key, checkIdentifier_iff.1 display⟩
  · intro plain
    refine bind_eq_ok.2 ⟨(), checkIdentifier_iff.2 plain.field, ?_⟩
    split
    next a made =>
      obtain ⟨table, key, display⟩ := plain.join a made
      exact bind_eq_ok.2 ⟨(), checkIdentifier_iff.2 table,
        bind_eq_ok.2 ⟨(), checkIdentifier_iff.2 key, checkIdentifier_iff.2 display⟩⟩
    next => rfl

theorem checkStrategies_eq_ok {entries : List StrategyEntry} :
    checkStrategies entries = .ok u ↔ ∀ e ∈ entries, e.IsPlain := by
  induction entries with
  | nil => exact iff_of_true rfl fun e he => absurd he List.not_mem_nil
  | cons e entries ih =>
    rw [List.forall_mem_cons, ← ih, ← checkStrategy_eq_ok (u := ())]
    exact bind_eq_ok.trans ⟨fun ⟨_, first, others⟩ => ⟨first, others⟩,
      fun ⟨first, others⟩ => ⟨(), first, others⟩⟩

end Checks

theorem checkTargets_iff {c : Config} {u : Unit} : checkTargets [] c.targets.entries = .ok u ↔
    (∀ m n d e, c.target? m = some d → c.target? n = some e → d.className = e.className → m = n) ∧
      (∀ n e, c.target? n = some e → IsPlainName e.table) ∧
      ∀ n e property m, c.target? n = some e → e.fields.get? property = some m →
        IsPlainName (m.columnOf property) := by
  simp only [checkTargets_eq_ok, target?, Dict.get?_eq_some_iff, isIdentifier_iff, withColumn_eq]
  constructor
  · rintro ⟨⟨apart, -⟩, plain⟩
    refine ⟨fun m n d e hm hn same => ?_, fun n e hn => (plain _ hn).1,
      fun n e property m hn hm => (plain _ hn).2 _ hm⟩
    have nodup : (c.targets.entries.map fun t => t.2.className).Nodup := List.pairwise_map.2 apart
    exact congrArg Prod.fst (List.inj_on_of_nodup_map nodup hm hn same)
  · rintro ⟨classes, tables, columns⟩
    refine ⟨⟨?_, fun _ _ => rfl⟩, fun t ht => ⟨tables _ _ ht, fun f hf => columns _ _ _ _ ht hf⟩⟩
    refine List.Pairwise.imp_of_mem (fun {s t} hs ht before same => ?_) c.targets.increasing
    have name := classes _ _ _ _ hs ht same
    rw [name] at before
    exact String.lt_irrefl _ before

theorem validate_eq_ok {c accepted : Config} :
    c.validate = .ok accepted ↔ c.IsSound ∧ accepted = c.withColumns := by
  have strategies : checkStrategies (c.strategies.getD []) = .ok () ↔
      ∀ entries, c.strategies = some entries → ∀ e ∈ entries, e.IsPlain := by
    rw [checkStrategies_eq_ok]
    cases c.strategies <;> simp
  constructor
  · intro h
    obtain ⟨_, targets, h⟩ := bind_eq_ok.1 h
    obtain ⟨_, entries, h⟩ := bind_eq_ok.1 h
    cases h
    obtain ⟨classes, tables, columns⟩ := checkTargets_iff.1 targets
    exact ⟨⟨classes, tables, columns, strategies.1 entries⟩, rfl⟩
  · rintro ⟨sound, rfl⟩
    exact bind_eq_ok.2 ⟨(), checkTargets_iff.2 ⟨sound.classes, sound.tables, sound.columns⟩,
      bind_eq_ok.2 ⟨(), strategies.2 sound.strategies, rfl⟩⟩

/-- Validation takes the sound configurations and no others. It fills in the columns that were left out
and changes nothing else; what it has returned it returns again. There the class of a target leads to
the target, and to what the target says of its properties. -/
theorem validate_iff_isSound (c : Config) : ((∃ accepted, c.validate = .ok accepted) ↔ c.IsSound) ∧
    ∀ accepted, c.validate = .ok accepted → c.Fills accepted ∧ accepted.validate = .ok accepted ∧
      ∀ n e, accepted.target? n = some e → accepted.targetByClass e.className = .ok n ∧
        ∀ property, accepted.metadata? e.className property = e.fields.get? property := by
  refine ⟨⟨fun ⟨_, valid⟩ => (validate_eq_ok.1 valid).1, fun sound =>
    ⟨_, validate_eq_ok.2 ⟨sound, rfl⟩⟩⟩, fun accepted valid => ?_⟩
  have kept : accepted.IsAccepted := ⟨c, valid⟩
  refine ⟨?_, kept.validate, fun n e found => ?_⟩
  · rw [(validate_eq_ok.1 valid).2]
    exact fills_withColumns c
  · have entity : accepted.entity n = .ok e := entity_eq_ok.2 found
    refine ⟨?_, fun property => kept.metadata?_of_entity entity⟩
    rw [targetByClass, kept.classTarget?_of_entity entity]

end Config
end Helpdesk
