import Helpdesk.Proofs.Config.Classes
import Helpdesk.Proofs.Document.Codec

/-! Configurations and their documents. Every configuration is read back from its document
(`Config.codec`): what a configuration may leave out is written so that it is found again. What
validation has filled in, it does not change a second time (`IsAccepted.validate`). So a configuration
that was loaded is loaded again from the JSON that is written for it (`load_again`). -/

namespace Helpdesk
open Document Document.Reader

theorem Operator.codec : Codec Operator.read Operator.toDocument 0 := codec_named ofName?_name

theorem Account.codec : Codec Account.read Account.toDocument 0 := codec_named ofName?_name

theorem FieldType.codec : Codec FieldType.read FieldType.toDocument 0 := codec_named ofName?_name

theorem Association.codec : Codec Association.read Association.toDocument 1 :=
  ⟨fun _ => rfl, fun _ _ _ => rfl⟩

theorem PriorityTable.codec : Codec PriorityTable.read PriorityTable.toDocument 1 where
  exact t := codec_int64.dict.exact t.weights
  read o room t := congrArg (Option.map mk) (codec_int64.dict.read o room t.weights)

theorem FieldMetadata.codec : Codec FieldMetadata.read FieldMetadata.toDocument 1 where
  exact m := by
    rw [toDocument]
    split <;> rfl
  read o room m := by
    obtain ⟨field, fieldType⟩ := m
    have column := codec_text.read o room field
    have kind := FieldType.codec.read o room fieldType
    by_cases empty : field = ""
    · have fields : fields? ["field", "type"] o (toDocument ⟨field, fieldType⟩) =
          some [.absent, .given fieldType.toDocument] := by
        rw [toDocument, if_pos (by simpa using empty)]
        rfl
      simp_all [read]
    · have fields : fields? ["field", "type"] o (toDocument ⟨field, fieldType⟩) =
          some [.given (.text field), .given fieldType.toDocument] := by
        rw [toDocument, if_neg (by simpa using empty)]
        rfl
      simp_all [read]

theorem Entity.codec : Codec Entity.read Entity.toDocument 3 where
  exact e := by
    have fields := FieldMetadata.codec.dict.exact e.fields
    simpa [toDocument, isExact, membersExact] using fields
  read o room e := by
    have members : fields? ["class", "table", "fields"] o e.toDocument =
        some [.given (.text e.className), .given (.text e.table),
          .given (.table (e.fields.entries.map fun f => (f.1, f.2.toDocument)))] := rfl
    have className := codec_text.read o (room + 2) e.className
    have table := codec_text.read o (room + 2) e.table
    have fields := FieldMetadata.codec.dict.read o room e.fields
    simp_all [read]

/-! ## Strategies -/

theorem Strategy.ofMembers?_toMembers (numbered : Bool) (room : Nat) (s : Strategy) :
    ofMembers? numbered (room + 1) s.toMembers = some s := by
  rcases s with join | (_ | account) | _
  case identityLookup.some => cases account <;> rfl
  all_goals rfl

namespace StrategyEntry

def ownMembers (e : StrategyEntry) : List (String × Document) :=
  ("field", .text e.field) :: Document.optional "operator" Operator.toDocument e.operator

theorem filter_isOwn (e : StrategyEntry) :
    (e.ownMembers ++ e.strategy.toMembers).filter isOwn = e.ownMembers := by
  have own : e.ownMembers.filter isOwn = e.ownMembers := by
    rw [ownMembers]
    cases e.operator <;> rfl
  have others : e.strategy.toMembers.filter isOwn = [] := by
    rcases e.strategy with join | (_ | account) | _ <;> rfl
  rw [List.filter_append, own, others, List.append_nil]

theorem filter_not_isOwn (e : StrategyEntry) :
    (e.ownMembers ++ e.strategy.toMembers).filter (fun m => !isOwn m) = e.strategy.toMembers := by
  have own : e.ownMembers.filter (fun m => !isOwn m) = [] := by
    rw [ownMembers]
    cases e.operator <;> rfl
  have others : e.strategy.toMembers.filter (fun m => !isOwn m) = e.strategy.toMembers := by
    rcases e.strategy with join | (_ | account) | _ <;> rfl
  rw [List.filter_append, own, others, List.nil_append]

theorem fields?_ownMembers (e : StrategyEntry) (o : Origin) :
    fields? ownNames o (.table e.ownMembers) =
      some [.given (.text e.field), .written Operator.toDocument e.operator] := by
  rw [ownMembers]
  cases e.operator <;> rfl

theorem codec : Codec read toDocument 2 where
  exact e := by
    obtain ⟨field, operator, strategy⟩ := e
    cases operator <;> rcases strategy with join | (_ | account) | _ <;> rfl
  read o room e := by
    have document : e.toDocument = .table (e.ownMembers ++ e.strategy.toMembers) := rfl
    have strategy := e.strategy.ofMembers?_toMembers (o == .json) room
    have field := codec_text.read o (room + 1) e.field
    have operator := Field.orElse_written (a := e.operator) fun op _ =>
      Operator.codec.option (fun _ => nofun) o (room + 1) op
    rw [document, read, filter_isOwn, filter_not_isOwn, fields?_ownMembers, strategy]
    simp_all

end StrategyEntry

namespace Config

theorem fields?_toDocument (c : Config) (o : Origin) :
    fields? ["priority", "targets", "strategies"] o c.toDocument =
      some [.given c.priorities.toDocument,
        .given (.table (c.targets.entries.map fun e => (e.1, e.2.toDocument))),
        .written (fun es => .list (es.map StrategyEntry.toDocument)) c.strategies] := by
  rw [toDocument]
  cases c.strategies <;> rfl

theorem codec : Codec Config.read Config.toDocument 5 where
  exact c := by
    have priorities := PriorityTable.codec.exact c.priorities
    have targets := Entity.codec.dict.exact c.targets
    refine membersExact_iff.2 (List.forall_mem_append.2 ⟨by simp [priorities, targets], ?_⟩)
    cases c.strategies with
    | none => exact fun m hm => absurd hm List.not_mem_nil
    | some entries =>
      exact List.forall_mem_singleton.2 (StrategyEntry.codec.list.exact entries)
  read o room c := by
    have priorities := PriorityTable.codec.read o (room + 3) c.priorities
    have targets := Entity.codec.dict.read o room c.targets
    have strategies := Field.orElse_written (a := c.strategies) fun entries _ =>
      StrategyEntry.codec.list.option (fun _ => nofun) o (room + 1) entries
    rw [Config.read, fields?_toDocument]
    simp_all

/-! ## Filling in twice -/

end Config

def Entity.withColumns (e : Entity) : Entity :=
  { e with fields := e.fields.mapWithKey Config.withColumn }

namespace Config

theorem withColumn_withColumn (property : String) (m : FieldMetadata) :
    withColumn property (withColumn property m) = withColumn property m := by
  by_cases empty : m.field.isEmpty
  · have filled : withColumn property m = { m with field := property } := if_pos empty
    rw [filled]
    exact ite_self _
  · have filled : withColumn property m = m := if_neg empty
    rw [filled, filled]

theorem checkFields_withColumn (target : String) (fields : List (String × FieldMetadata)) :
    checkFields target (fields.map fun f => (f.1, withColumn f.1 f.2)) =
      checkFields target fields := by
  induction fields with
  | nil => rfl
  | cons f fields ih => rw [List.map_cons, checkFields, checkFields, withColumn_withColumn, ih]

theorem checkTargets_withColumns (seen : List (String × String))
    (targets : List (String × Entity)) :
    checkTargets seen (targets.map fun t => (t.1, t.2.withColumns)) = checkTargets seen targets := by
  induction targets generalizing seen with
  | nil => rfl
  | cons t targets ih =>
    have className : t.2.withColumns.className = t.2.className := rfl
    have table : t.2.withColumns.table = t.2.table := rfl
    have fields : checkFields t.1 t.2.withColumns.fields.entries =
        checkFields t.1 t.2.fields.entries := checkFields_withColumn t.1 t.2.fields.entries
    rw [List.map_cons, checkTargets, checkTargets]
    simp only [className, table, fields, ih]

theorem withColumns_withColumns (c : Config) : c.withColumns.withColumns = c.withColumns := by
  have entity (e : Entity) : e.withColumns.withColumns = e.withColumns := by
    have fields : e.withColumns.withColumns.fields = e.withColumns.fields := by
      refine Dict.ext_entries ?_
      simp only [Entity.withColumns, Dict.mapWithKey, List.map_map, Function.comp_def,
        withColumn_withColumn]
    exact congrArg (fun fields => { e with fields := fields }) fields
  have targets : c.withColumns.withColumns.targets = c.withColumns.targets := by
    refine Dict.ext_entries ?_
    change ((c.targets.entries.map fun t => (t.1, t.2.withColumns)).map fun t =>
      (t.1, t.2.withColumns)) = c.targets.entries.map fun t => (t.1, t.2.withColumns)
    simp only [List.map_map, Function.comp_def, entity]
  exact congrArg (fun targets => { c with targets := targets }) targets

theorem IsAccepted.validate {c : Config} (accepted : c.IsAccepted) : c.validate = .ok c := by
  obtain ⟨given, valid⟩ := accepted
  obtain ⟨u, targets, valid⟩ := bind_eq_ok.1 valid
  obtain ⟨v, strategies, valid⟩ := bind_eq_ok.1 valid
  cases valid
  refine bind_eq_ok.2 ⟨u, ?_, bind_eq_ok.2 ⟨v, strategies, ?_⟩⟩
  · exact (checkTargets_withColumns [] given.targets.entries).trans targets
  · rw [withColumns_withColumns]

/-- A configuration that was loaded is loaded again, as it is, from the JSON file with its document. -/
theorem load_again {c : Config} {file : File}
    (returned : (∃ source, load source = .ok c) ∨ ∃ s, ofToml s = .ok c)
    (written : file.HoldsJson c.toDocument) : load file = .ok c := by
  have accepted : c.IsAccepted := by
    rcases returned with ⟨source, loaded⟩ | ⟨s, loaded⟩
    all_goals
      obtain ⟨given, -, valid⟩ := bind_eq_ok.1 loaded
      exact ⟨given, valid⟩
  exact bind_eq_ok.2 ⟨c, codec.load (by decide) written, accepted.validate⟩

end Config

namespace Tasks

def given : Config where
  priorities := ⟨Dict.empty⟩
  targets := Dict.ofList [("task", ⟨"Task", "tasks",
    Dict.ofList [("title", ⟨"", .text⟩), ("due", ⟨"due_at", .datetime⟩)]⟩)]
  strategies := some [⟨"title", some .notLike, .associationContains ⟨"titles", "id", "name"⟩⟩,
    ⟨"owner", none, .identityLookup (some .oro)⟩, ⟨"owner", some .eq, .identityLookup none⟩]

def config : Config := given.withColumns

def file (name : String) (c : Config) : File := ⟨name, some (Text.Utf8.encode c.toDocument.toJson)⟩

theorem load_tasks : Config.load (file "given.json" given) = .ok config ∧
    Config.load (file "desk.d/tasks.json" config) = .ok config := by
  have accepted : given.validate = .ok config := rfl
  have loaded : Config.load (file "given.json" given) = .ok config :=
    bind_eq_ok.2 ⟨given, Config.codec.load (by decide) ⟨by decide, rfl⟩, accepted⟩
  exact ⟨loaded, Config.load_again (.inl ⟨_, loaded⟩) ⟨by decide, rfl⟩⟩

end Tasks
end Helpdesk
