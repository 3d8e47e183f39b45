import Helpdesk.Proofs.Audit
import Helpdesk.Proofs.Document.Codec
import Helpdesk.Proofs.Rule.Alike

/-! Rules and their documents. A rule whose values are plain is read back from its document, but for
the values that are null: they are read as if they had been left out (`Group.read_toDocument`). No
compiler tells a value of null from none (`Compiler.term_withoutNull`), so the rule that is loaded
compiles as the one that was written (`load_written`). -/

namespace Helpdesk
open Document Document.Reader

theorem Document.depthMembers_le_iff {ms : List (String × Document)} {n : Nat} :
    depthMembers ms ≤ n ↔ ∀ m ∈ ms, m.2.depth ≤ n := by
  induction ms with
  | nil => simp [depthMembers]
  | cons m ms ih => rw [depthMembers, Nat.max_le, ih, List.forall_mem_cons]

theorem Document.room_of_table {ms : List (String × Document)} {room : Nat}
    (enough : depth (.table ms) ≤ room) : ∃ n, room = n + 1 ∧ ∀ m ∈ ms, m.2.depth ≤ n := by
  cases room with
  | zero => exact absurd enough (Nat.not_succ_le_zero _)
  | succ n => exact ⟨n, rfl, depthMembers_le_iff.1 (Nat.le_of_succ_le_succ enough)⟩

theorem Document.room_of_list {ds : List Document} {room : Nat} (enough : depth (.list ds) ≤ room) :
    ∃ n, room = n + 1 ∧ ∀ d ∈ ds, d.depth ≤ n := by
  cases room with
  | zero => exact absurd enough (Nat.not_succ_le_zero _)
  | succ n => exact ⟨n, rfl, depthItems_le_iff.1 (Nat.le_of_succ_le_succ enough)⟩

namespace ConditionParameters

def isPlain (p : ConditionParameters) : Bool := p.value.all Value.isPlain

def withoutNull (p : ConditionParameters) : ConditionParameters :=
  { p with value := p.value.filter fun v => !v.isNull }

theorem fields?_toDocument (p : ConditionParameters) (o : Origin) :
    fields? ["property", "operator", "value"] o p.toDocument =
      some [.written .text p.property, .written .text p.operator,
        .written Value.toDocument p.value] := by
  obtain ⟨property, operator, value⟩ := p
  cases property <;> cases operator <;> cases value <;> rfl

theorem option_toDocument {v : Value} {room : Nat} (o : Origin) (plain : v.isPlain)
    (enough : v.toDocument.depth ≤ room) :
    option Value.read o room v.toDocument = some (if !v.isNull then some v else none) := by
  have read := v.read_toDocument o room plain enough
  cases v with
  | null => rfl
  | real d => cases plain
  | moment t => cases plain
  | _ => exact congrArg (Option.map some) read

theorem isExact_toDocument {p : ConditionParameters} (plain : p.isPlain) : p.toDocument.isExact := by
  obtain ⟨property, operator, value⟩ := p
  have exact (v : Value) (given : value = some v) : v.toDocument.isExact := by
    subst given
    exact v.isExact_toDocument plain
  refine membersExact_iff.2 (List.forall_mem_append.2 ⟨List.forall_mem_append.2 ⟨?_, ?_⟩, ?_⟩)
  · cases property <;> simp [Document.optional, isExact]
  · cases operator <;> simp [Document.optional, isExact]
  · cases value <;> simp [Document.optional, exact]

theorem read_toDocument {p : ConditionParameters} {room : Nat} (o : Origin) (plain : p.isPlain)
    (enough : p.toDocument.depth ≤ room) : read o room p.toDocument = some p.withoutNull := by
  obtain ⟨room, rfl, levels⟩ := room_of_table enough
  have text (s : Option String) :
      (Field.written .text s).orElse none (option text o room) = some s := by
    cases s <;> rfl
  have found (v : Value) (given : v ∈ p.value) : option Value.read o room v.toDocument =
      some (if !v.isNull then some v else none) := by
    rw [Option.mem_def] at given
    refine option_toDocument o ?_ (levels ("value", v.toDocument) ?_)
    · simpa [isPlain, given] using plain
    · simp [given, Document.optional]
  have value : (Field.written Value.toDocument p.value).orElse none (option Value.read o room) =
      some p.withoutNull.value := by
    rw [Field.orElse_written found, withoutNull]
    cases p.value <;> rfl
  rw [read, fields?_toDocument]
  simp_all [withoutNull]

end ConditionParameters

namespace ConditionDefinition

def isPlain (d : ConditionDefinition) : Bool := d.parameters.isPlain

def withoutNull (d : ConditionDefinition) : ConditionDefinition :=
  { d with parameters := d.parameters.withoutNull }

theorem isExact_toDocument {d : ConditionDefinition} (plain : d.isPlain) : d.toDocument.isExact := by
  have parameters := d.parameters.isExact_toDocument plain
  simp [toDocument, isExact, membersExact, parameters]

theorem read_toDocument {d : ConditionDefinition} {room : Nat} (o : Origin) (plain : d.isPlain)
    (enough : d.toDocument.depth ≤ room) : read o room d.toDocument = some d.withoutNull := by
  obtain ⟨room, rfl, levels⟩ := room_of_table enough
  have fields : fields? ["type", "parameters"] o d.toDocument =
      some [.given (.text d.conditionType), .given d.parameters.toDocument] := rfl
  have conditionType := codec_text.read o room d.conditionType
  have parameters := d.parameters.read_toDocument o plain
    (levels ("parameters", d.parameters.toDocument) (by simp))
  rw [read, fields]
  simp_all [withoutNull]

end ConditionDefinition

namespace Group

mutual
def isPlain : Group → Bool
  | ⟨_, conditions, children⟩ => conditions.all ConditionDefinition.isPlain && arePlain children

def arePlain : List Group → Bool
  | [] => true
  | g :: gs => isPlain g && arePlain gs
end

def withoutNulls (g : Group) : Group := g.mapConditions ConditionDefinition.withoutNull

def listMember (key : String) : List Document → List (String × Document)
  | [] => []
  | items => [(key, .list items)]

def listField : List Document → Field
  | [] => .absent
  | items => .given (.list items)

theorem toDocument_eq (g : Group) :
    g.toDocument = .table (("connector", .text g.connector) ::
      (listMember "conditions" (g.conditions.map ConditionDefinition.toDocument) ++
        listMember "children" (toDocuments g.children))) := by
  obtain ⟨connector, conditions, children⟩ := g
  cases conditions <;> cases children <;> rfl

theorem fields?_toDocument (g : Group) (o : Origin) :
    fields? ["connector", "conditions", "children"] o g.toDocument =
      some [.given (.text g.connector),
        listField (g.conditions.map ConditionDefinition.toDocument),
        listField (toDocuments g.children)] := by
  obtain ⟨connector, conditions, children⟩ := g
  cases conditions <;> cases children <;> rfl

theorem isExact_listMember (key : String) {items : List Document} (exact : areExact items) :
    membersExact (listMember key items) := by
  cases items with
  | nil => rfl
  | cons d ds => exact Bool.and_eq_true_iff.2 ⟨exact, rfl⟩

mutual
theorem isExact_toDocument : (g : Group) → g.isPlain → g.toDocument.isExact
  | ⟨connector, conditions, children⟩, plain => by
    obtain ⟨own, below⟩ := Bool.and_eq_true_iff.1 plain
    have conditionsExact : areExact (conditions.map ConditionDefinition.toDocument) :=
      areExact_iff.2 (List.forall_mem_map.2 fun d hd =>
        d.isExact_toDocument (List.all_eq_true.1 own d hd))
    have childrenExact := areExact_toDocuments children below
    rw [toDocument_eq, isExact, membersExact]
    have members := List.forall_mem_append.2
      ⟨membersExact_iff.1 (isExact_listMember "conditions" conditionsExact),
        membersExact_iff.1 (isExact_listMember "children" childrenExact)⟩
    exact Bool.and_eq_true_iff.2 ⟨rfl, membersExact_iff.2 members⟩

theorem areExact_toDocuments : (gs : List Group) → arePlain gs → areExact (toDocuments gs)
  | [], _ => rfl
  | g :: gs, plain => by
    obtain ⟨first, others⟩ := Bool.and_eq_true_iff.1 plain
    exact Bool.and_eq_true_iff.2 ⟨isExact_toDocument g first, areExact_toDocuments gs others⟩
end

/-! Where a group has children, reading goes on two levels below, in the list of the children. So the
definition is opened as it stands, for each of the two cases. -/

section Read
variable {o : Origin} {room : Nat} {d : Document} {connector conditions : Field}

theorem read_of_absent
    (fields : fields? ["connector", "conditions", "children"] o d =
      some [connector, conditions, .absent]) :
    read o (room + 1) d = (do
      let connector ← connector.required (text o room)
      let conditions ← conditions.orElse [] (list ConditionDefinition.read o room)
      some ⟨connector, conditions, []⟩) := by
  delta read
  change (fields? ["connector", "conditions", "children"] o d).bind _ = _
  rw [fields]
  rfl

theorem read_of_children {items : List Document}
    (fields : fields? ["connector", "conditions", "children"] o d =
      some [connector, conditions, .given (.list items)]) :
    read o (room + 2) d = (do
      let connector ← connector.required (text o (room + 1))
      let conditions ← conditions.orElse [] (list ConditionDefinition.read o (room + 1))
      let children ← items.mapM (read o room)
      some ⟨connector, conditions, children⟩) := by
  delta read
  change (fields? ["connector", "conditions", "children"] o d).bind _ = _
  rw [fields]
  rfl

end Read

theorem read_conditions {conditions : List ConditionDefinition} {room : Nat} (o : Origin)
    (plain : ∀ d ∈ conditions, d.isPlain)
    (levels : ∀ m ∈ listMember "conditions" (conditions.map ConditionDefinition.toDocument),
      m.2.depth ≤ room) :
    (listField (conditions.map ConditionDefinition.toDocument)).orElse []
      (list ConditionDefinition.read o room) =
        some (conditions.map ConditionDefinition.withoutNull) := by
  cases conditions with
  | nil => rfl
  | cons d ds =>
    obtain ⟨room, rfl, below⟩ := room_of_list (levels _ List.mem_cons_self)
    exact mapM_map_eq_pure fun d hd => d.read_toDocument o (plain d hd)
      (below _ (List.mem_map_of_mem hd))

mutual
theorem read_toDocument (o : Origin) : (g : Group) → (room : Nat) → g.isPlain →
    g.toDocument.depth ≤ room → read o room g.toDocument = some g.withoutNulls
  | ⟨connector, conditions, children⟩, room, plain, enough => by
    obtain ⟨own, below⟩ := Bool.and_eq_true_iff.1 plain
    rw [toDocument_eq] at enough
    obtain ⟨room, rfl, levels⟩ := room_of_table enough
    obtain ⟨conditionLevels, childLevels⟩ :=
      List.forall_mem_append.1 (List.forall_mem_cons.1 levels).2
    have conditionsRead := read_conditions o (List.all_eq_true.1 own) conditionLevels
    cases children with
    | nil =>
      rw [read_of_absent (fields?_toDocument _ o), conditionsRead]
      rfl
    | cons g gs =>
      obtain ⟨room, rfl, inside⟩ := room_of_list (childLevels _ List.mem_cons_self)
      have childrenRead := mapM_read_toDocuments o (g :: gs) room below (depthItems_le_iff.2 inside)
      rw [read_of_children (fields?_toDocument _ o), conditionsRead, childrenRead]
      rfl

theorem mapM_read_toDocuments (o : Origin) : (gs : List Group) → (room : Nat) → arePlain gs →
    depthItems (toDocuments gs) ≤ room →
    (toDocuments gs).mapM (read o room) = some (mapAllConditions ConditionDefinition.withoutNull gs)
  | [], _, _, _ => rfl
  | g :: gs, room, plain, enough => by
    obtain ⟨first, others⟩ := Bool.and_eq_true_iff.1 plain
    obtain ⟨here, behind⟩ := Nat.max_le.1 enough
    rw [toDocuments, List.mapM_cons, read_toDocument o g room first here,
      mapM_read_toDocuments o gs room others behind]
    rfl
end

end Group

/-! ## What compilation sees of a null -/

namespace Condition

/-- A null is missing where a value is needed, as no value is. -/
theorem resolveValue_withoutNull (property : String) (op : Operator) (fieldType : FieldType)
    (p : ConditionParameters) :
    resolveValue property op fieldType p.withoutNull.value =
      resolveValue property op fieldType p.value := by
  obtain ⟨_, _, value⟩ := p
  cases value with
  | none => rfl
  | some v => cases v <;> rfl

theorem resolve_withoutNull (registry : ConditionRegistry) (d : ConditionDefinition)
    (target : Target) : resolve registry d.withoutNull target = resolve registry d target := by
  have property (kind : ConditionKind) :
      resolveProperty d.conditionType d.parameters.withoutNull kind =
        resolveProperty d.conditionType d.parameters kind := by
    cases kind <;> rfl
  have operator (property : String) :
      resolveOperator d.conditionType property d.parameters.withoutNull target =
        resolveOperator d.conditionType property d.parameters target := rfl
  simp only [resolve, ConditionDefinition.withoutNull, property, operator, resolveValue_withoutNull]

end Condition

theorem Compiler.term_withoutNull (c : Compiler) (target : Target) (d : ConditionDefinition) :
    c.term target d.withoutNull = c.term target d := by
  rw [term, term, Condition.resolve_withoutNull]

theorem Group.alike_withoutNulls (g : Group) : g.withoutNulls.Alike g :=
  alike_of_plan fun c target => Compiler.plan_mapConditions (c.term_withoutNull target) g

/-! ## Rules -/

namespace Rule

def isPlain (r : Rule) : Bool := r.grouping.isPlain

def withoutNulls (r : Rule) : Rule := { r with grouping := r.grouping.withoutNulls }

theorem isExact_toDocument {r : Rule} (plain : r.isPlain) : r.toDocument.isExact := by
  have grouping := r.grouping.isExact_toDocument plain
  simp [toDocument, isExact, membersExact, grouping]

theorem read_toDocument {r : Rule} {room : Nat} (o : Origin) (plain : r.isPlain)
    (enough : r.toDocument.depth ≤ room) : read o room r.toDocument = some r.withoutNulls := by
  obtain ⟨room, rfl, levels⟩ := room_of_table enough
  have fields : fields? ["name", "target", "grouping"] o r.toDocument =
      some [.given (.text r.name), .given (.text r.target), .given r.grouping.toDocument] := rfl
  have name := codec_text.read o room r.name
  have target := codec_text.read o room r.target
  have grouping := r.grouping.read_toDocument o room plain
    (levels ("grouping", r.grouping.toDocument) (by simp))
  rw [read, fields]
  simp_all [withoutNulls]

/-- A rule is loaded from the JSON file with its document, but for its values of null, and it compiles
as it did with them. -/
theorem load_written {r : Rule} {file : File} (plain : r.isPlain)
    (enough : r.toDocument.depth ≤ jsonRoom) (written : file.HoldsJson r.toDocument) :
    load file = .ok r.withoutNulls ∧ (∀ c : Compiler, c.ruleQuery r.withoutNulls = c.ruleQuery r) ∧
      r.withoutNulls.grouping.Alike r.grouping :=
  have alike := r.grouping.alike_withoutNulls
  ⟨written.load (isExact_toDocument plain) (read_toDocument .json plain enough),
    fun c => alike.query c r.target, alike⟩

end Rule

namespace Unassigned

def rule (value : Option Value) : Rule :=
  ⟨"über \"\\\n\x01", "ticket", ⟨"and", [], [
    ⟨"or", [⟨"assignee", ⟨none, some "is_null", value⟩⟩, ⟨"status", ⟨none, some "eq", value⟩⟩], []⟩,
    ⟨"and", [⟨"field", ⟨some "status", some "in",
      some (.list [.text "né\t", .null, .bool true, .list [.int (-5)]])⟩⟩], []⟩]⟩⟩

def file : File :=
  ⟨"rules/unassigned.json", some (Text.Utf8.encode (rule (some .null)).toDocument.toJson)⟩

theorem load_unassigned : Rule.load file = .ok (rule none) ∧
    ∀ c : Compiler, c.ruleQuery (rule none) = c.ruleQuery (rule (some .null)) := by
  have written : file.HoldsJson (rule (some .null)).toDocument := ⟨by decide, rfl⟩
  have loaded := Rule.load_written rfl (by decide) written
  exact ⟨loaded.1, loaded.2.1⟩

end Unassigned
end Helpdesk
