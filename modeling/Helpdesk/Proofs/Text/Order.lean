import Helpdesk.Proofs.Text.Utf8
import Mathlib.Data.String.Basic

/-! The order of texts is that of their bytes (`encode_lt_iff`). Of two characters the one with the
smaller code has the smaller bytes, whatever follows them: a longer sequence begins with a larger byte,
and sequences of one length spell the code six bits at a time. -/

namespace Helpdesk.Text.Utf8

section Characters
variable {as bs : List UInt8}

theorem ofNat_cons_lt_iff {m n : Nat} (hm : m < 256) (hn : n < 256) :
    UInt8.ofNat m :: as < UInt8.ofNat n :: bs ↔ m < n ∨ m = n ∧ as < bs := by
  have value (k : Nat) (small : k < 256) : (UInt8.ofNat k).toNat = k :=
    UInt8.toNat_ofNat_of_lt' small
  rw [List.cons_lt_cons_iff, UInt8.lt_iff_toNat_lt, ← UInt8.toNat_inj, value m hm, value n hn]

theorem digits_lt {k l m n k' l' m' n' : Nat} (hl : l < 64) (hm : m < 64) (hn : n < 64) (hl' : l' < 64)
    (hm' : m' < 64) (hn' : n' < 64)
    (h : ((k * 64 + l) * 64 + m) * 64 + n < ((k' * 64 + l') * 64 + m') * 64 + n') :
    k < k' ∨ k = k' ∧ (l < l' ∨ l = l' ∧ (m < m' ∨ m = m' ∧ n < n')) := by
  omega

theorem character_append_lt {c d : Char} (h : c < d) :
    String.utf8EncodeChar c ++ as < String.utf8EncodeChar d ++ bs := by
  have small : d.toNat < 0x110000 := by
    rcases d.valid with low | ⟨-, high⟩
    · exact Nat.lt_trans low (by decide)
    · exact high
  have less : c.toNat < d.toNat := h
  have number (e : Char) : e.val.toNat = e.toNat := rfl
  simp only [String.utf8EncodeChar, number]
  generalize c.toNat = v at less
  generalize d.toNat = w at less small
  split <;> [skip; split <;> [skip; split]]
  all_goals
    split <;> [skip; split <;> [skip; split]]
    -- Where the lengths differ, the first byte decides.
    all_goals
      simp only [List.cons_append, List.nil_append]
      rw [ofNat_cons_lt_iff (by omega) (by omega)]
      try exact .inl (by omega)
  -- What is left are two, three and four bytes on either side.
  · have spelled : v / 64 % 32 + 192 < w / 64 % 32 + 192 ∨
        v / 64 % 32 + 192 = w / 64 % 32 + 192 ∧ v % 64 + 128 < w % 64 + 128 := by omega
    rw [ofNat_cons_lt_iff (by omega) (by omega)]
    exact spelled.imp_right fun ⟨first, last⟩ => ⟨first, .inl last⟩
  · have spelled : v / 4096 % 16 + 224 < w / 4096 % 16 + 224 ∨
        v / 4096 % 16 + 224 = w / 4096 % 16 + 224 ∧
          (v / 64 % 64 + 128 < w / 64 % 64 + 128 ∨
            v / 64 % 64 + 128 = w / 64 % 64 + 128 ∧ v % 64 + 128 < w % 64 + 128) := by omega
    rw [ofNat_cons_lt_iff (by omega) (by omega), ofNat_cons_lt_iff (by omega) (by omega)]
    exact spelled.imp_right fun ⟨first, rest⟩ =>
      ⟨first, rest.imp_right fun ⟨second, last⟩ => ⟨second, .inl last⟩⟩
  · have value (u : Nat) (four : u < 0x110000) :
        ((u / 262144 % 8 * 64 + u / 4096 % 64) * 64 + u / 64 % 64) * 64 + u % 64 = u := by omega
    rw [← value v (by omega), ← value w small] at less
    have digit (u : Nat) : u % 64 < 64 := Nat.mod_lt u (by decide)
    have spelled := digits_lt (digit (v / 4096)) (digit (v / 64)) (digit v) (digit (w / 4096))
      (digit (w / 64)) (digit w) less
    rw [ofNat_cons_lt_iff (by omega) (by omega), ofNat_cons_lt_iff (by omega) (by omega),
      ofNat_cons_lt_iff (by omega) (by omega)]
    simp only [Nat.add_lt_add_iff_right, Nat.add_right_cancel_iff]
    exact spelled.imp_right fun ⟨first, rest⟩ => ⟨first, rest.imp_right fun ⟨second, rest⟩ =>
      ⟨second, rest.imp_right fun ⟨third, last⟩ => ⟨third, .inl last⟩⟩⟩

theorem utf8EncodeChar_append_pos (c : Char) : [] < String.utf8EncodeChar c ++ as := by
  obtain ⟨b, bs, bytes⟩ : ∃ b bs, String.utf8EncodeChar c = b :: bs := by
    simp only [String.utf8EncodeChar]
    split <;> [skip; split <;> [skip; split]]
    all_goals exact ⟨_, _, rfl⟩
  rw [bytes, List.cons_append]
  exact List.nil_lt_cons b _

end Characters

theorem flatMap_lt_flatMap {cs ds : List Char} (h : cs < ds) :
    cs.flatMap String.utf8EncodeChar < ds.flatMap String.utf8EncodeChar := by
  induction cs generalizing ds with
  | nil =>
    cases ds with
    | nil => exact absurd h (lt_irrefl _)
    | cons d ds =>
      rw [List.flatMap_cons]
      exact utf8EncodeChar_append_pos d
  | cons c cs ih =>
    cases ds with
    | nil => exact absurd h (List.not_lt_nil _)
    | cons d ds =>
      rw [List.flatMap_cons, List.flatMap_cons]
      rcases List.cons_lt_cons_iff.1 h with less | ⟨rfl, rest⟩
      · exact character_append_lt less
      · exact List.append_left_lt (ih rest)

theorem encode_lt_encode {s t : String} (h : s < t) : encode s < encode t := by
  rw [encode_eq, encode_eq]
  exact flatMap_lt_flatMap (String.lt_iff_toList_lt.1 h)

theorem encode_lt_iff {s t : String} : encode s < encode t ↔ s < t := by
  refine ⟨fun less => ?_, encode_lt_encode⟩
  rcases lt_trichotomy s t with before | rfl | after
  · exact before
  · exact absurd less (List.lt_irrefl _)
  · exact absurd less (List.lt_asymm (encode_lt_encode after))

end Helpdesk.Text.Utf8
