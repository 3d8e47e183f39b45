import Helpdesk.Proofs.Text.Decimal
import Helpdesk.User
import Mathlib.Data.List.TakeWhile

/-! Identifiers of users. They have one grammar: an identifier is the name of an account store, an
underscore and a positive number of 64 bits, whose digits may have zeros and one plus sign in front
(`ofIdentifier?_iff_identifies`). No two users share the identifier that is written for them, and a user
with a positive number is found again by it (`identifier_grammar`). -/

namespace Helpdesk

namespace Account

theorem name_inj {a b : Account} : a.name = b.name ↔ a = b := by
  refine ⟨fun h => ?_, congrArg name⟩
  have read := congrArg ofName? h
  rw [ofName?_name, ofName?_name] at read
  exact Option.some.inj read

theorem ofName?_eq_some_iff {s : String} {a : Account} : ofName? s = some a ↔ a.name = s := by
  constructor
  · intro h
    have found := List.find?_some h
    exact beq_iff_eq.1 found
  · rintro rfl
    exact ofName?_name a

theorem ne_underscore_of_mem_name (a : Account) : ∀ c ∈ a.name.toList, decide (c ≠ '_') = true := by
  have all : a.name.toList.all (· ≠ '_') := by cases a <;> decide
  exact List.all_eq_true.1 all

section Cut
variable (a : Account) (rest : List Char)

theorem takeWhile_name : (a.name.toList ++ '_' :: rest).takeWhile (· ≠ '_') = a.name.toList := by
  rw [List.takeWhile_append_of_pos a.ne_underscore_of_mem_name]
  simp

theorem dropWhile_name : (a.name.toList ++ '_' :: rest).dropWhile (· ≠ '_') = '_' :: rest := by
  rw [List.dropWhile_append_of_pos a.ne_underscore_of_mem_name]
  simp

end Cut

theorem name_append_inj {a b : Account} {cs ds : List Char}
    (h : a.name.toList ++ '_' :: cs = b.name.toList ++ '_' :: ds) : a = b ∧ cs = ds := by
  have front := congrArg (List.takeWhile (· ≠ '_')) h
  have behind := congrArg (List.dropWhile (· ≠ '_')) h
  rw [takeWhile_name, takeWhile_name] at front
  rw [dropWhile_name, dropWhile_name] at behind
  exact ⟨name_inj.1 (String.toList_inj.1 front), (List.cons.inj behind).2⟩

end Account

namespace User
open Text.Decimal

def Identifies (cs : List Char) (a : Account) (n : Nat) : Prop :=
  ∃ sign digits, cs = a.name.toList ++ '_' :: (sign ++ digits) ∧ (sign = [] ∨ sign = ['+']) ∧
    Digits digits n

theorem eq_iff {u v : User} : u = v ↔ u.account = v.account ∧ u.id = v.id := by
  cases u
  cases v
  simp

theorem id_pos_iff {u : User} : 0 < u.id ↔ 0 < u.id.toInt := Int64.lt_iff_toInt_lt

section Grammar
variable {cs : List Char} {a b : Account} {n m : Nat}

theorem Identifies.exists_signed (h : Identifies cs a n) :
    ∃ rest, cs = a.name.toList ++ '_' :: rest ∧ Signed rest n := by
  obtain ⟨sign, digits, chars, rfl | rfl, run⟩ := h
  · exact ⟨digits, chars, .plain run⟩
  · exact ⟨'+' :: digits, chars, .plus run⟩

theorem identifies_of_signed {rest : List Char} (chars : cs = a.name.toList ++ '_' :: rest)
    (number : Signed rest n) (positive : 0 < n) : Identifies cs a n := by
  generalize value : (n : Int) = i at number
  cases number with
  | plain run => exact ⟨[], rest, chars, .inl rfl, Int.ofNat.inj value ▸ run⟩
  | plus run => exact ⟨['+'], _, chars, .inr rfl, Int.ofNat.inj value ▸ run⟩
  | minus run => omega

theorem Identifies.unique (h : Identifies cs a n) (h' : Identifies cs b m) : a = b ∧ n = m := by
  obtain ⟨rest, rfl, number⟩ := h.exists_signed
  obtain ⟨_, same, number'⟩ := h'.exists_signed
  obtain ⟨account, rfl⟩ := Account.name_append_inj same
  have read := integer?_eq_some_iff.2 number
  rw [integer?_eq_some_iff.2 number'] at read
  exact ⟨account, (Int.ofNat.inj (Option.some.inj read)).symm⟩

end Grammar

theorem ofIdentifier?_eq_some_iff {s : String} {u : User} : ofIdentifier? s = some u ↔
    ∃ rest, s.toList = u.account.name.toList ++ '_' :: rest ∧ int64? rest = some u.id ∧ 0 < u.id := by
  constructor
  · intro h
    obtain ⟨a, known, h⟩ := Option.bind_eq_some_iff.1 h
    split at h
    · cases h
    next c rest behind =>
      obtain ⟨id, read, h⟩ := Option.bind_eq_some_iff.1 h
      obtain ⟨positive, same⟩ := Option.ite_none_right_eq_some.1 h
      cases same
      have front : a.name.toList = s.toList.takeWhile (· ≠ '_') := by
        rw [Account.ofName?_eq_some_iff.1 known, String.toList_ofList]
      obtain rfl : c = '_' := by
        have stop := List.head?_dropWhile_not (· ≠ '_') s.toList
        rw [behind] at stop
        simpa using stop
      refine ⟨rest, ?_, read, positive⟩
      rw [front, ← behind, List.takeWhile_append_dropWhile]
  · rintro ⟨rest, chars, read, positive⟩
    rw [ofIdentifier?, chars]
    simp only [Account.takeWhile_name, Account.dropWhile_name, String.ofList_toList,
      Account.ofName?_name, Option.bind_eq_bind, Option.bind_some, read, if_pos positive]

theorem ofIdentifier?_identifier (u : User) :
    ofIdentifier? u.identifier = if 0 < u.id then some u else none := by
  have chars : u.identifier.toList = u.account.name.toList ++ '_' :: ofInt64 u.id :=
    String.toList_ofList
  split
  next positive => exact ofIdentifier?_eq_some_iff.2 ⟨_, chars, int64?_ofInt64 u.id, positive⟩
  next negative =>
    refine Option.eq_none_iff_forall_ne_some.2 fun v found => negative ?_
    obtain ⟨rest, same, read, positive⟩ := ofIdentifier?_eq_some_iff.1 found
    obtain ⟨-, rfl⟩ := Account.name_append_inj (chars.symm.trans same)
    rw [int64?_ofInt64] at read
    exact Option.some.inj read ▸ positive

theorem ofIdentifier?_iff_identifies {s : String} {u : User} : ofIdentifier? s = some u ↔
    ∃ n, Identifies s.toList u.account n ∧ 1 ≤ n ∧ n ≤ 9223372036854775807 ∧ u.id.toInt = n := by
  rw [ofIdentifier?_eq_some_iff]
  constructor
  · rintro ⟨rest, chars, read, positive⟩
    have bound := u.id.toInt_lt
    obtain ⟨n, number⟩ := Int.eq_ofNat_of_zero_le (id_pos_iff.1 positive).le
    rw [int64?_eq_some_iff, number] at read
    rw [id_pos_iff, number] at positive
    exact ⟨n, identifies_of_signed chars read (by omega), by omega, by omega, number⟩
  · rintro ⟨n, identifies, positive, -, number⟩
    obtain ⟨rest, chars, read⟩ := identifies.exists_signed
    refine ⟨rest, chars, ?_, ?_⟩
    · rw [int64?_eq_some_iff, number]
      exact read
    · rw [id_pos_iff, number]
      omega

theorem identifier_injective : Function.Injective identifier := by
  intro u v same
  obtain ⟨account, digits⟩ := Account.name_append_inj (String.ofList_injective same)
  have number := congrArg int64? digits
  rw [int64?_ofInt64, int64?_ofInt64] at number
  exact eq_iff.2 ⟨account, Option.some.inj number⟩

/-- The identifiers whose number is positive and fits are read, as the account and the number that the
grammar finds in them. What is written for a user belongs to no other one and is read back, unless the
number is not positive; so is what is written for a user who was read. -/
theorem identifier_grammar :
    (∀ s, (∃ u, ofIdentifier? s = some u) ↔
      ∃ a n, Identifies s.toList a n ∧ 1 ≤ n ∧ n ≤ 9223372036854775807) ∧
    (∀ s u a n, ofIdentifier? s = some u → Identifies s.toList a n →
      u.account = a ∧ u.id.toInt = n) ∧
    (∀ u, 0 < u.id → ofIdentifier? u.identifier = some u) ∧
    Function.Injective identifier ∧
    ∀ s u, ofIdentifier? s = some u → ofIdentifier? u.identifier = some u := by
  have back (u : User) (positive : 0 < u.id) : ofIdentifier? u.identifier = some u := by
    rw [ofIdentifier?_identifier, if_pos positive]
  refine ⟨fun s => ⟨?_, ?_⟩, fun s u a n read identifies => ?_, back, identifier_injective,
    fun s u read => ?_⟩
  · rintro ⟨u, read⟩
    obtain ⟨n, identifies, low, high, -⟩ := ofIdentifier?_iff_identifies.1 read
    exact ⟨u.account, n, identifies, low, high⟩
  · rintro ⟨a, n, identifies, low, high⟩
    have fits : Bits64.fitsSigned n := Bits64.fitsSigned_iff.2 (by omega)
    exact ⟨⟨a, Int64.ofInt n⟩,
      ofIdentifier?_iff_identifies.2 ⟨n, identifies, low, high, Bits64.toInt_ofInt fits⟩⟩
  · obtain ⟨m, own, -, -, number⟩ := ofIdentifier?_iff_identifies.1 read
    obtain ⟨account, rfl⟩ := own.unique identifies
    exact ⟨account, number⟩
  · obtain ⟨-, -, -, positive⟩ := ofIdentifier?_eq_some_iff.1 read
    exact back u positive

end User

namespace PaddedNumber
open User

/-- A plus sign and zeros are read, and not written again. -/
theorem grammar_padded : (∃ u, ofIdentifier? "diamante_+0007" = some u ∧ u.account = .diamante ∧
      u.id.toInt = 7 ∧ ofIdentifier? u.identifier = some u) ∧
    0 < (7 : Int64) ∧ ofIdentifier? "diamante_7" = some ⟨.diamante, 7⟩ := by
  obtain ⟨accepted, kept, back, -, again⟩ := identifier_grammar
  have identifies : Identifies "diamante_+0007".toList .diamante 7 :=
    ⟨['+'], ['0', '0', '0', '7'], rfl, .inr rfl, Text.Decimal.natural?_eq_some_iff.1 rfl⟩
  obtain ⟨u, read⟩ := (accepted _).2 ⟨_, _, identifies, by decide, by decide⟩
  obtain ⟨account, number⟩ := kept _ u _ _ read identifies
  exact ⟨⟨u, read, account, number, again _ u read⟩, by decide, back ⟨.diamante, 7⟩ (by decide)⟩

end PaddedNumber
end Helpdesk
