import Helpdesk.Document.File
import Helpdesk.Proofs.Dict
import Helpdesk.Proofs.Document.Json
import Helpdesk.Proofs.Text.Utf8

/-! Values that are written as documents and read back. `Codec` says that a reader finds every value
again in what a writer makes of it; lists and maps keep that of their items (`Codec.list`,
`Codec.dict`), and a file that holds the JSON text of a value is loaded as the value (`Codec.load`). -/

namespace Helpdesk

namespace Document
open Reader

namespace Reader.Field
variable {α : Type} (d : Document) (standard : α) (r : Document → Option α)

@[simp] theorem required_given : (given d).required r = r d := rfl

@[simp] theorem orElse_given : (given d).orElse standard r = r d := rfl

@[simp] theorem orElse_absent : absent.orElse standard r = some standard := rfl

def written (f : α → Document) : Option α → Field
  | none => .absent
  | some a => .given (f a)

theorem orElse_written {β : Type} {f : α → Document} {a : Option α}
    {read : Document → Option (Option β)} {g : α → Option β}
    (back : ∀ b ∈ a, read (f b) = some (g b)) : (written f a).orElse none read = some (a.bind g) := by
  cases a with
  | none => rfl
  | some b => exact back b rfl

end Reader.Field

/-- The reader finds every value again in what is written for it, with room for a number of levels. JSON
text loses nothing of what is written. -/
structure Codec {α : Type} (r : Reader α) (write : α → Document) (levels : Nat) : Prop where
  exact : ∀ a, (write a).isExact
  read : ∀ o room a, r o (room + levels) (write a) = some a

section Codecs
variable {α : Type} {r : Reader α} {write : α → Document} {levels : Nat}

theorem codec_text : Codec Reader.text .text 0 := ⟨fun _ => rfl, fun _ _ _ => rfl⟩

theorem codec_int64 : Codec Reader.int64 ofInt64 0 where
  exact i := inWholeRange_iff.2 (by have := i.le_toInt; have := i.toInt_lt; omega)
  read o room i := by
    simp only [ofInt64, int64, Bits64.fitsSigned_toInt, if_true, Int64.ofInt_toInt]

theorem codec_named {name : α → String} {ofName? : String → Option α}
    (back : ∀ a, ofName? (name a) = some a) : Codec (named ofName?) (fun a => .text (name a)) 0 :=
  ⟨fun _ => rfl, fun o room a => by cases room <;> exact back a⟩

theorem Codec.list (codec : Codec r write levels) :
    Codec (Reader.list r) (fun as => .list (as.map write)) (levels + 1) where
  exact _ := areExact_iff.2 (List.forall_mem_map.2 fun a _ => codec.exact a)
  read o room _ := mapM_map_eq_self fun a _ => codec.read o room a

theorem Codec.dict (codec : Codec r write levels) :
    Codec (Reader.dict r) (fun d => .table (d.entries.map fun e => (e.1, write e.2)))
      (levels + 1) where
  exact _ := membersExact_iff.2 (List.forall_mem_map.2 fun e _ => codec.exact e.2)
  read o room d := by
    have entries : (d.entries.map fun e => (e.1, write e.2)).mapM (fun m =>
        (r o (room + levels) m.2).map fun a => (m.1, a)) = some d.entries :=
      mapM_map_eq_self fun e _ => by rw [codec.read]; rfl
    have whole : (some d.entries).map Dict.ofList = some d := by
      rw [Option.map_some, Dict.ofList_entries]
    exact (congrArg (Option.map Dict.ofList) entries).trans whole

theorem Codec.option (codec : Codec r write levels) (notNull : ∀ a, write a ≠ .null) (o : Origin)
    (room : Nat) (a : α) : Reader.option r o (room + levels) (write a) = some (some a) := by
  have read : Reader.option r o (room + levels) (write a) =
      (r o (room + levels) (write a)).map some := by
    have here := notNull a
    cases found : write a
    case null => exact absurd found here
    all_goals rfl
  rw [read, codec.read, Option.map_some]

end Codecs

structure File.HoldsJson (file : File) (d : Document) : Prop where
  extension : extensionOf file.name = ['j', 's', 'o', 'n']
  content : file.content = some (Text.Utf8.encode d.toJson)

theorem File.HoldsJson.load {file : File} {d : Document} (written : file.HoldsJson d)
    (exact : d.isExact) {α : Type} {r : Reader α} {a : α} (read : ofJson r d = some a) :
    file.load r = .ok a := by
  have content : file.content.bind Text.Utf8.decode? = some d.toJson := by
    rw [written.content]
    exact Text.Utf8.decode?_encode d.toJson
  have notToml : extensionOf file.name ≠ ['t', 'o', 'm', 'l'] := by
    rw [written.extension]
    decide
  rw [File.load, content]
  simp only [if_neg notToml, if_pos written.extension, ofJsonText, ofJson?_toJson exact,
    Option.bind_some, read]

theorem Codec.load {α : Type} {r : Reader α} {write : α → Document} {levels : Nat}
    (codec : Codec r write levels) (enough : levels ≤ jsonRoom) {file : File} {a : α}
    (written : file.HoldsJson (write a)) : file.load r = .ok a := by
  refine written.load (codec.exact a) ?_
  have read := codec.read .json (jsonRoom - levels) a
  rwa [Nat.sub_add_cancel enough] at read

end Document
end Helpdesk
