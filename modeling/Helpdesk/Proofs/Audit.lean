import Helpdesk.Audit
import Helpdesk.Proofs.Document.Json

/-! Diffs are read back from their JSON text (`diffs_of_toJson`), if no double and no moment is
among their values and the text has no more levels than JSON may have. -/

namespace Helpdesk
open Document (depth depthItems depthMembers)

theorem Document.depthItems_le_iff {ds : List Document} {n : Nat} :
    depthItems ds ≤ n ↔ ∀ d ∈ ds, d.depth ≤ n := by
  induction ds with
  | nil => simp [depthItems]
  | cons d ds ih => rw [depthItems, Nat.max_le, ih, List.forall_mem_cons]

namespace Value

mutual
def isPlain : Value → Bool
  | .real _ => false
  | .moment _ => false
  | .list items => arePlain items
  | _ => true

def arePlain : List Value → Bool
  | [] => true
  | v :: vs => isPlain v && arePlain vs
end

theorem inWholeRange_toInt (i : Int64) : Document.inWholeRange i.toInt := by
  have low := i.le_toInt
  have high := i.toInt_lt
  exact Document.inWholeRange_iff.2 (by omega)

theorem ofWhole_toInt (i : Int64) : ofWhole i.toInt = .int i := by
  rw [ofWhole, if_pos (Bits64.fitsSigned_toInt i), Int64.ofInt_toInt]

mutual
theorem isExact_toDocument : ∀ v : Value, v.isPlain → v.toDocument.isExact
  | .null, _ => rfl
  | .bool _, _ => rfl
  | .int i, _ => inWholeRange_toInt i
  | .text _, _ => rfl
  | .list items, plain => areExact_toDocuments items plain
  | .real _, plain => by cases plain
  | .moment _, plain => by cases plain

theorem areExact_toDocuments : ∀ vs : List Value, arePlain vs →
    Document.areExact (toDocuments vs)
  | [], _ => rfl
  | v :: vs, plain => by
    obtain ⟨first, others⟩ := Bool.and_eq_true_iff.1 plain
    exact Bool.and_eq_true_iff.2 ⟨isExact_toDocument v first, areExact_toDocuments vs others⟩
end

mutual
theorem read_toDocument (o : Document.Origin) : ∀ (v : Value) (room : Nat), v.isPlain →
    depth v.toDocument ≤ room → read o room v.toDocument = some v
  | .null, room, _, _ => by cases room <;> rfl
  | .bool b, room, _, _ => by cases room <;> rfl
  | .int i, room, _, _ => by
    have whole : read o room (Value.int i).toDocument = some (ofWhole i.toInt) := by
      cases room <;> rfl
    rw [whole, ofWhole_toInt]
  | .text s, room, _, _ => by cases room <;> rfl
  | .list items, 0, _, enough => absurd enough (Nat.not_succ_le_zero _)
  | .list items, room + 1, plain, enough => by
    have parts := mapM_read_toDocuments o items room plain (Nat.le_of_succ_le_succ enough)
    rw [toDocument, read, parts, Option.map_some]
  | .real _, _, plain, _ => by cases plain
  | .moment _, _, plain, _ => by cases plain

theorem mapM_read_toDocuments (o : Document.Origin) : ∀ (vs : List Value) (room : Nat),
    arePlain vs → depthItems (toDocuments vs) ≤ room →
    (toDocuments vs).mapM (read o room) = some vs
  | [], _, _, _ => rfl
  | v :: vs, room, plain, enough => by
    obtain ⟨first, others⟩ := Bool.and_eq_true_iff.1 plain
    obtain ⟨here, behind⟩ := Nat.max_le.1 enough
    rw [toDocuments, List.mapM_cons, read_toDocument o v room first here,
      mapM_read_toDocuments o vs room others behind]
    rfl
end

end Value

namespace FieldDiff
open Document.Reader

def isPlain (d : FieldDiff) : Bool := d.old.isPlain && d.new.isPlain

theorem isExact_toDocument {d : FieldDiff} (h : d.isPlain) : d.toDocument.isExact := by
  obtain ⟨old, new⟩ := Bool.and_eq_true_iff.1 h
  simp only [toDocument, Document.isExact, Document.membersExact, Value.isExact_toDocument _ old,
    Value.isExact_toDocument _ new, Bool.and_self]

theorem read_toDocument {d : FieldDiff} {room : Nat} (h : d.isPlain)
    (enough : depth d.toDocument ≤ room) : read .json room d.toDocument = some d := by
  obtain ⟨old, new⟩ := Bool.and_eq_true_iff.1 h
  cases room with
  | zero => exact absurd enough (Nat.not_succ_le_zero _)
  | succ room =>
    have levels : depth d.old.toDocument ≤ room ∧ depth d.new.toDocument ≤ room := by
      simp only [toDocument, depth, depthMembers] at enough
      omega
    have fields : fields? ["field", "old", "new"] .json d.toDocument =
        some [.given (.text d.field), .given d.old.toDocument, .given d.new.toDocument] := rfl
    have oldRead := Value.read_toDocument .json d.old room old levels.1
    have newRead := Value.read_toDocument .json d.new room new levels.2
    rw [read, fields]
    change (do
      let old ← Value.read .json room d.old.toDocument
      let new ← Value.read .json room d.new.toDocument
      some (FieldDiff.mk d.field old new)) = some d
    rw [oldRead, newRead]
    rfl

end FieldDiff

namespace AuditEntry

theorem isExact_diffsDocument {diffs : List FieldDiff} (plain : ∀ d ∈ diffs, d.isPlain) :
    (diffsDocument diffs).isExact :=
  Document.areExact_iff.2 <| List.forall_mem_map.2 fun d hd =>
    FieldDiff.isExact_toDocument (plain d hd)

theorem read_diffsDocument {diffs : List FieldDiff} {room : Nat} (plain : ∀ d ∈ diffs, d.isPlain)
    (enough : depth (diffsDocument diffs) ≤ room) :
    Document.Reader.list FieldDiff.read .json room (diffsDocument diffs) = some diffs := by
  cases room with
  | zero => exact absurd enough (Nat.not_succ_le_zero _)
  | succ room =>
    have parts : depthItems (diffs.map FieldDiff.toDocument) ≤ room :=
      Nat.le_of_succ_le_succ enough
    have levels := List.forall_mem_map.1 (Document.depthItems_le_iff.1 parts)
    exact mapM_map_eq_self fun d hd => FieldDiff.read_toDocument (plain d hd) (levels d hd)

theorem diffs_of_toJson {diffs : List FieldDiff} (plain : ∀ d ∈ diffs, d.isPlain)
    (enough : depth (diffsDocument diffs) ≤ Document.jsonRoom) :
    (Document.ofJson? (diffsDocument diffs).toJson).bind
      (Document.Reader.ofJson (Document.Reader.list FieldDiff.read)) = some diffs := by
  rw [Document.ofJson?_toJson (isExact_diffsDocument plain)]
  exact read_diffsDocument plain enough

end AuditEntry

end Helpdesk
