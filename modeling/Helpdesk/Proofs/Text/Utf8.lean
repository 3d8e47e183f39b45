import Helpdesk.Text.Utf8
import Mathlib.Data.List.Basic

/-! Every text is read back from its bytes (`decode?_encode`): the bytes of a character are one
well-formed part, whatever follows them. -/

namespace Helpdesk.Text.Utf8

section Bytes

theorem toList_loop (bytes : ByteArray) (i : Nat) (before : List UInt8) :
    ByteArray.toList.loop bytes i before = before.reverse ++ bytes.data.toList.drop i := by
  fun_induction ByteArray.toList.loop bytes i before with
  | case1 i before inside ih =>
    have bound : i < bytes.data.toList.length := by simpa using inside
    have here : bytes.get! i = bytes.data.toList[i] := by
      change bytes.data[i]! = _
      rw [getElem!_pos bytes.data i (by simpa using bound), Array.getElem_toList]
    rw [ih, List.drop_eq_getElem_cons bound, here, List.reverse_cons, List.append_assoc,
      List.singleton_append]
  | case2 i before outside =>
    rw [List.drop_eq_nil_of_le (by simpa using Nat.le_of_not_lt outside), List.append_nil]

theorem encode_eq (s : String) : encode s = s.toList.flatMap String.utf8EncodeChar := by
  have bytes : s.toUTF8 = (s.toList.flatMap String.utf8EncodeChar).toByteArray := by
    conv_lhs => rw [← String.ofList_toList (s := s)]
    exact String.toByteArray_ofList
  rw [encode, bytes, ByteArray.toList, toList_loop, List.toList_data_toByteArray]
  rfl

end Bytes

section Steps
variable {b low high more : Nat} {p : Pending} (bs : List Nat)

theorem partsFrom_lead (opens : lead b = some (low, high, more)) :
    partsFrom none (b :: bs) = partsFrom (some ⟨leadBits b more, low, high, more⟩) bs := by
  have notAscii : ¬ b < 0x80 := by
    intro ascii
    have none : lead b = none := by
      unfold lead
      iterate 7 rw [if_neg (by omega)]
    rw [none] at opens
    cases opens
  rw [partsFrom, if_neg notAscii, opens]

theorem partsFrom_next {n : Nat} (six : n < 64) (inside : p.low ≤ n + 128 ∧ n + 128 ≤ p.high)
    (more : ¬ p.missing ≤ 1) :
    partsFrom (some p) ((n + 128) :: bs) =
      partsFrom (some ⟨p.value * 64 + n, 0x80, 0xBF, p.missing - 1⟩) bs := by
  have bits : (n + 128) % 64 = n := by omega
  simp only [partsFrom, if_pos inside, if_neg more, bits]

theorem partsFrom_last {n : Nat} (six : n < 64) (inside : p.low ≤ n + 128 ∧ n + 128 ≤ p.high)
    (last : p.missing ≤ 1) :
    partsFrom (some p) ((n + 128) :: bs) =
      .scalar (Char.ofNat (p.value * 64 + n)) :: partsFrom none bs := by
  have bits : (n + 128) % 64 = n := by omega
  simp only [partsFrom, if_pos inside, if_pos last, bits]

end Steps

/-! First bytes, by how many bytes follow: the bits that they contribute, and the second bytes that they
allow. -/

theorem lead_two : ∀ n < 32, 2 ≤ n →
    lead (n + 192) = some (0x80, 0xBF, 1) ∧ leadBits (n + 192) 1 = n := by decide

theorem lead_three : ∀ n < 16,
    lead (n + 224) = some (if n = 0 then 0xA0 else 0x80, if n = 13 then 0x9F else 0xBF, 2) ∧
      leadBits (n + 224) 2 = n := by decide

theorem lead_four : ∀ n < 5,
    lead (n + 240) = some (if n = 0 then 0x90 else 0x80, if n = 4 then 0x8F else 0xBF, 3) ∧
      leadBits (n + 240) 3 = n := by decide

section Sequences
variable {k l m n : Nat} (bs : List Nat)

theorem partsFrom_two (five : k < 32) (long : 2 ≤ k) (last : l < 64) :
    partsFrom none ((k + 192) :: (l + 128) :: bs) =
      .scalar (Char.ofNat (k * 64 + l)) :: partsFrom none bs := by
  obtain ⟨opens, bits⟩ := lead_two k five long
  rw [partsFrom_lead _ opens, partsFrom_last _ last ⟨by simp, by simp; omega⟩ (Nat.le_refl 1), bits]

theorem partsFrom_three (four : k < 16) (next : l < 64) (last : m < 64) (long : k = 0 → 32 ≤ l)
    (scalar : k = 13 → l < 32) :
    partsFrom none ((k + 224) :: (l + 128) :: (m + 128) :: bs) =
      .scalar (Char.ofNat ((k * 64 + l) * 64 + m)) :: partsFrom none bs := by
  obtain ⟨opens, bits⟩ := lead_three k four
  have second : (if k = 0 then 0xA0 else 0x80) ≤ l + 128 ∧
      l + 128 ≤ (if k = 13 then 0x9F else 0xBF) := by
    constructor <;> split <;> omega
  rw [partsFrom_lead _ opens, partsFrom_next _ next second (by simp),
    partsFrom_last _ last ⟨by simp, by simp; omega⟩ (Nat.le_refl 1), bits]

theorem partsFrom_four (three : k < 5) (next : l < 64) (third : m < 64) (last : n < 64)
    (long : k = 0 → 16 ≤ l) (scalar : k = 4 → l < 16) :
    partsFrom none ((k + 240) :: (l + 128) :: (m + 128) :: (n + 128) :: bs) =
      .scalar (Char.ofNat (((k * 64 + l) * 64 + m) * 64 + n)) :: partsFrom none bs := by
  obtain ⟨opens, bits⟩ := lead_four k three
  have second : (if k = 0 then 0x90 else 0x80) ≤ l + 128 ∧
      l + 128 ≤ (if k = 4 then 0x8F else 0xBF) := by
    constructor <;> split <;> omega
  rw [partsFrom_lead _ opens, partsFrom_next _ next second (by simp),
    partsFrom_next _ third ⟨by simp, by simp; omega⟩ (by simp),
    partsFrom_last _ last ⟨by simp, by simp; omega⟩ (Nat.le_refl 1), bits]

end Sequences

theorem partsFrom_character (c : Char) (bs : List Nat) :
    partsFrom none ((String.utf8EncodeChar c).map UInt8.toNat ++ bs) =
      .scalar c :: partsFrom none bs := by
  have valid : c.toNat < 0xD800 ∨ 0xDFFF < c.toNat ∧ c.toNat < 0x110000 := c.valid
  have same : Char.ofNat c.toNat = c := Char.ofNat_toNat c
  have number : c.val.toNat = c.toNat := rfl
  have byte (n : Nat) (small : n < 256) : (UInt8.ofNat n).toNat = n :=
    UInt8.toNat_ofNat_of_lt' small
  simp only [String.utf8EncodeChar, number]
  generalize c.toNat = v at valid same
  split
  · rw [List.map_singleton, List.singleton_append, byte v (by omega), partsFrom, if_pos (by omega),
      same]
  split
  · have value : v / 64 % 32 * 64 + v % 64 = v := by omega
    simp only [List.map_cons, List.map_nil, List.cons_append, List.nil_append]
    rw [byte _ (by omega), byte _ (by omega),
      partsFrom_two bs (by omega) (by omega) (by omega), value, same]
  split
  · have value : (v / 4096 % 16 * 64 + v / 64 % 64) * 64 + v % 64 = v := by omega
    simp only [List.map_cons, List.map_nil, List.cons_append, List.nil_append]
    rw [byte _ (by omega), byte _ (by omega), byte _ (by omega),
      partsFrom_three bs (by omega) (by omega) (by omega) (by omega) (by omega), value, same]
  · have value : ((v / 262144 % 8 * 64 + v / 4096 % 64) * 64 + v / 64 % 64) * 64 + v % 64 = v := by
      omega
    simp only [List.map_cons, List.map_nil, List.cons_append, List.nil_append]
    rw [byte _ (by omega), byte _ (by omega), byte _ (by omega), byte _ (by omega),
      partsFrom_four bs (by omega) (by omega) (by omega) (by omega) (by omega) (by omega), value,
      same]

theorem parts_characters (cs : List Char) :
    parts (cs.flatMap String.utf8EncodeChar) = cs.map .scalar := by
  rw [parts]
  induction cs with
  | nil => rfl
  | cons c cs ih => rw [List.flatMap_cons, List.map_append, partsFrom_character, ih, List.map_cons]

theorem decode?_encode (s : String) : decode? (encode s) = some s := by
  have scalars : (s.toList.map Part.scalar).mapM Part.scalar? = some s.toList := by
    induction s.toList with
    | nil => rfl
    | cons c cs ih => rw [List.map_cons, List.mapM_cons, ih]; rfl
  rw [decode?, encode_eq, parts_characters, scalars, Option.map_some, String.ofList_toList]

end Helpdesk.Text.Utf8
