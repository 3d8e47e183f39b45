import Helpdesk.Text.Decimal
import Mathlib.Algebra.Order.Group.Nat
import Mathlib.Data.List.Basic
import Mathlib.Data.List.Induction

/-! Numbers and their digits. Numbers are read back from their digits (`int64?_ofInt64`), also from
digits on a fixed width (`value_padded`), which all have that width (`length_padded`). Numbers of one
width sort as their digits do (`padded_append_lt`). What is read as a number are the runs of digits and
nothing else, of 64 bits also those with a sign (`natural?_eq_some_iff`, `int64?_eq_some_iff`). -/

namespace Helpdesk.Text.Decimal

theorem ofNat_eq_cons (n : Nat) : ∃ c cs, ofNat n = c :: cs ∧ isDigit c := by
  cases chars : ofNat n with
  | nil => exact absurd chars (ofNat_ne_nil n)
  | cons c cs => exact ⟨c, cs, rfl, isDigit_of_mem_ofNat (chars ▸ List.mem_cons_self)⟩

theorem ofNat_of_lt {n : Nat} (h : n < 10) : ofNat n = [n.digitChar] := by
  rw [ofNat, Nat.toDigits_of_lt_base h]

theorem ofNat_of_le {n : Nat} (h : 10 ≤ n) : ofNat n = ofNat (n / 10) ++ [(n % 10).digitChar] := by
  rw [ofNat, ofNat, Nat.toDigits_of_base_le (by decide) h]

theorem head_ofNat {n : Nat} (h : n ≠ 0) : (ofNat n).head? ≠ some '0' := by
  induction n using Nat.strongRecOn with
  | _ n ih =>
    by_cases small : n < 10
    · have digits : ∀ m < 10, m ≠ 0 → m.digitChar ≠ '0' := by decide
      rw [ofNat_of_lt small, List.head?_cons, Ne, Option.some.injEq]
      exact digits n small h
    · rw [ofNat_of_le (Nat.le_of_not_lt small), List.head?_append_of_ne_nil _ (ofNat_ne_nil _)]
      exact ih (n / 10) (by omega) (by omega)

theorem isDigit_of_mem_padded {w n : Nat} {c : Char} (h : c ∈ padded w n) : isDigit c := by
  rcases List.mem_append.1 h with filler | own
  · rw [(List.mem_replicate.1 filler).2]
    decide
  · exact isDigit_of_mem_ofNat own

theorem padded_eq_cons (w n : Nat) : ∃ c cs, padded w n = c :: cs ∧ isDigit c := by
  cases chars : padded w n with
  | nil => exact absurd (List.append_eq_nil_iff.1 chars).2 (ofNat_ne_nil n)
  | cons c cs => exact ⟨c, cs, rfl, isDigit_of_mem_padded (chars ▸ List.mem_cons_self)⟩

theorem padded_one {n : Nat} (h : n < 10) : padded 1 n = [n.digitChar] := by
  rw [padded, ofNat_of_lt h]
  rfl

theorem padded_succ (w n : Nat) :
    padded (w + 2) n = padded (w + 1) (n / 10) ++ [(n % 10).digitChar] := by
  by_cases small : n < 10
  · rw [padded, padded, ofNat_of_lt small, Nat.div_eq_of_lt small, Nat.mod_eq_of_lt small,
      ofNat_of_lt (by decide)]
    simp [Nat.digitChar, ← List.replicate_succ']
  · rw [padded, padded, ofNat_of_le (Nat.le_of_not_lt small)]
    simp

theorem length_padded (w : Nat) {n : Nat} (h : n < 10 ^ (w + 1)) :
    (padded (w + 1) n).length = w + 1 := by
  induction w generalizing n with
  | zero => rw [padded_one h, List.length_singleton]
  | succ w ih =>
    rw [Nat.pow_succ] at h
    rw [padded_succ, List.length_append, List.length_singleton,
      ih (Nat.div_lt_of_lt_mul (by omega))]

@[simp] theorem value_padded (w n : Nat) : value (padded w n) = n := by
  have zeros (k : Nat) (cs : List Char) : value (List.replicate k '0' ++ cs) = value cs := by
    induction k with
    | zero => rfl
    | succ k ih =>
      rw [List.replicate_succ, List.cons_append, ← ih]
      simp [value, Nat.ofDigitChars_cons]
  rw [padded, zeros, value_ofNat]

theorem digitChar_lt_iff : ∀ m < 10, ∀ n < 10, (m.digitChar < n.digitChar ↔ m < n) := by decide

theorem digitChar_eq_iff : ∀ m < 10, ∀ n < 10, (m.digitChar = n.digitChar ↔ m = n) := by decide

/-- Texts that begin with numbers of one width are sorted by these first. -/
theorem padded_append_lt (w : Nat) {m n : Nat} {as bs : List Char} (hm : m < 10 ^ (w + 1))
    (hn : n < 10 ^ (w + 1)) :
    padded (w + 1) m ++ as < padded (w + 1) n ++ bs ↔ m < n ∨ m = n ∧ as < bs := by
  induction w generalizing m n as bs with
  | zero =>
    rw [padded_one hm, padded_one hn, List.singleton_append, List.singleton_append,
      List.cons_lt_cons_iff, digitChar_lt_iff m hm n hn, digitChar_eq_iff m hm n hn]
  | succ w ih =>
    have digits (k : Nat) : k % 10 < 10 := Nat.mod_lt k (by decide)
    rw [Nat.pow_succ] at hm hn
    rw [padded_succ, padded_succ, List.append_assoc, List.append_assoc,
      ih (Nat.div_lt_of_lt_mul (by omega)) (Nat.div_lt_of_lt_mul (by omega)), List.singleton_append,
      List.singleton_append, List.cons_lt_cons_iff, digitChar_lt_iff _ (digits m) _ (digits n),
      digitChar_eq_iff _ (digits m) _ (digits n)]
    constructor
    · rintro (front | ⟨front, last | ⟨last, rest⟩⟩)
      · exact .inl (by omega)
      · exact .inl (by omega)
      · exact .inr ⟨by omega, rest⟩
    · rintro (less | ⟨rfl, rest⟩)
      · rcases Nat.lt_or_ge (m / 10) (n / 10) with front | front
        · exact .inl front
        · exact .inr ⟨by omega, .inl (by omega)⟩
      · exact .inr ⟨rfl, .inr ⟨rfl, rest⟩⟩

theorem integer?_of_isDigit {c : Char} {cs : List Char} (h : isDigit c) :
    integer? (c :: cs) = (natural? (c :: cs)).map Int.ofNat := by
  unfold integer?
  split
  next same => cases same; exact absurd h (by decide)
  next same => cases same; exact absurd h (by decide)
  next => rfl

theorem integer?_ofInt (i : Int) : integer? (ofInt i) = some i := by
  rw [ofInt]
  split
  next negative =>
    have back : -(i.natAbs : Int) = i := by omega
    rw [integer?, natural?_ofNat]
    exact congrArg some back
  next notNegative =>
    obtain ⟨c, cs, chars, digit⟩ := ofNat_eq_cons i.natAbs
    rw [chars, integer?_of_isDigit digit, ← chars, natural?_ofNat, Option.map_some]
    exact congrArg some (Int.natAbs_of_nonneg (by omega))

theorem int64?_ofInt64 (i : Int64) : int64? (ofInt64 i) = some i := by
  rw [int64?, ofInt64, integer?_ofInt, Option.bind_some, if_pos (Bits64.fitsSigned_toInt i),
    Int64.ofInt_toInt]

inductive Digits : List Char → Nat → Prop
  | one {d : Nat} (digit : d < 10) : Digits [d.digitChar] d
  | more {cs : List Char} {n d : Nat} (front : Digits cs n) (digit : d < 10) :
    Digits (cs ++ [d.digitChar]) (10 * n + d)

inductive Signed : List Char → Int → Prop
  | plain {cs : List Char} {n : Nat} (digits : Digits cs n) : Signed cs n
  | plus {cs : List Char} {n : Nat} (digits : Digits cs n) : Signed ('+' :: cs) n
  | minus {cs : List Char} {n : Nat} (digits : Digits cs n) : Signed ('-' :: cs) (-n)

theorem isDigit_digitChar {d : Nat} (h : d < 10) : isDigit d.digitChar := by
  rw [isDigit, Nat.isDigit_digitChar, decide_eq_true h]

theorem exists_digitChar {c : Char} (h : isDigit c) : ∃ d < 10, c = d.digitChar := by
  obtain ⟨low, high⟩ : 48 ≤ c.toNat ∧ c.toNat ≤ 57 := Char.isDigit_iff_toNat.1 h
  refine ⟨c.toNat - 48, by omega, Char.toNat_inj.1 ?_⟩
  rw [Nat.toNat_digitChar_of_lt_ten (by omega)]
  omega

theorem value_append_digit (cs : List Char) {d : Nat} (h : d < 10) :
    value (cs ++ [d.digitChar]) = 10 * value cs + d := by
  rw [value, Nat.ofDigitChars_append, Nat.ofDigitChars_cons, Nat.toNat_digitChar_of_lt_ten h,
    Nat.ofDigitChars_nil, value]
  exact congrArg _ (Nat.add_sub_cancel_left ..)

theorem digits_value {cs : List Char} (nonempty : cs ≠ []) (all : ∀ c ∈ cs, isDigit c) :
    Digits cs (value cs) := by
  induction cs using List.reverseRecOn with
  | nil => exact absurd rfl nonempty
  | append_singleton cs c ih =>
    obtain ⟨front, last⟩ := List.forall_mem_append.1 all
    obtain ⟨d, digit, rfl⟩ := exists_digitChar (last c List.mem_cons_self)
    rw [value_append_digit cs digit]
    cases cs with
    | nil =>
      rw [List.nil_append, value, Nat.ofDigitChars_nil, Nat.mul_zero, Nat.zero_add]
      exact .one digit
    | cons a cs => exact .more (ih (List.cons_ne_nil a cs) front) digit

namespace Digits
variable {cs : List Char} {n : Nat}

theorem ne_nil (h : Digits cs n) : cs ≠ [] := by
  cases h with
  | one digit => exact List.cons_ne_nil _ []
  | more front digit => exact List.append_ne_nil_of_right_ne_nil _ (List.cons_ne_nil _ [])

theorem isDigit_of_mem (h : Digits cs n) : ∀ c ∈ cs, isDigit c := by
  induction h with
  | one digit => exact List.forall_mem_singleton.2 (isDigit_digitChar digit)
  | more front digit ih =>
    exact List.forall_mem_append.2 ⟨ih, List.forall_mem_singleton.2 (isDigit_digitChar digit)⟩

theorem value_eq (h : Digits cs n) : value cs = n := by
  induction h with
  | one digit => exact (value_append_digit [] digit).trans (Nat.zero_add _)
  | more front digit ih => rw [value_append_digit _ digit, ih]

end Digits

theorem natural?_eq_some_iff {cs : List Char} {n : Nat} : natural? cs = some n ↔ Digits cs n := by
  constructor
  · intro h
    obtain ⟨⟨nonempty, all⟩, same⟩ := Option.ite_none_right_eq_some.1 h
    exact Option.some.inj same ▸ digits_value nonempty (List.all_eq_true.1 all)
  · intro h
    rw [natural?, if_pos ⟨h.ne_nil, List.all_eq_true.2 h.isDigit_of_mem⟩, h.value_eq]

theorem integer?_minus (cs : List Char) :
    integer? ('-' :: cs) = (natural? cs).map fun n : Nat => -(n : Int) := by
  rw [integer?]
  cases natural? cs <;> rfl

theorem integer?_eq_some_iff {cs : List Char} {i : Int} : integer? cs = some i ↔ Signed cs i := by
  constructor
  · intro h
    unfold integer? at h
    split at h
    next cs =>
      obtain ⟨n, read, rfl⟩ := Option.map_eq_some_iff.1 ((integer?_minus cs).symm.trans h)
      exact .minus (natural?_eq_some_iff.1 read)
    next cs =>
      obtain ⟨n, read, rfl⟩ := Option.map_eq_some_iff.1 h
      exact .plus (natural?_eq_some_iff.1 read)
    next cs _ _ =>
      obtain ⟨n, read, rfl⟩ := Option.map_eq_some_iff.1 h
      exact .plain (natural?_eq_some_iff.1 read)
  · intro h
    cases h with
    | plain digits =>
      obtain ⟨c, cs, rfl⟩ := List.exists_cons_of_ne_nil digits.ne_nil
      have first : isDigit c := digits.isDigit_of_mem c List.mem_cons_self
      rw [integer?_of_isDigit first, natural?_eq_some_iff.2 digits]
      rfl
    | plus digits =>
      rw [integer?, natural?_eq_some_iff.2 digits]
      rfl
    | minus digits =>
      rw [integer?_minus, natural?_eq_some_iff.2 digits]
      rfl

theorem int64?_eq_some_iff {cs : List Char} {i : Int64} :
    int64? cs = some i ↔ Signed cs i.toInt := by
  rw [← integer?_eq_some_iff]
  constructor
  · intro h
    obtain ⟨j, read, kept⟩ := Option.bind_eq_some_iff.1 h
    obtain ⟨fits, same⟩ := Option.ite_none_right_eq_some.1 kept
    rw [read, ← Option.some.inj same, Bits64.toInt_ofInt fits]
  · intro read
    rw [int64?, read, Option.bind_some, if_pos (Bits64.fitsSigned_toInt i), Int64.ofInt_toInt]

end Helpdesk.Text.Decimal
