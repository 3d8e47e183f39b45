import Helpdesk.Double
import Mathlib.Tactic.Ring

/-! Whole numbers as doubles. A count of units whose spare bits are all zero is not changed by rounding
(`nearest_of_dvd`), and no rounding leads below a power of two (`pow_le_nearest`). So whole numbers of 53
bits and their products are exact where enough low bits are zero, and where they are not, at least the
size is known (`AtLeast`). -/

namespace Helpdesk.Double

theorem one_eq : one = 2 ^ 1074 := by rw [one, Nat.pow_eq]

theorem limit_eq : limit = 2 ^ 2098 := by rw [limit, Nat.pow_eq]

-- Powers of this size are never multiplied out.
attribute [local irreducible] one limit

theorem one_pos : 0 < one := by
  rw [one_eq]
  exact Nat.two_pow_pos _

theorem pow_mul_one (k : Nat) : 2 ^ k * one = 2 ^ (k + 1074) := by rw [one_eq, pow_add]

section Rounding
variable {units den num k : Nat}

theorem spareBits_le (h : units < 2 ^ (53 + k)) : spareBits units ≤ k := by
  rw [spareBits]
  by_cases zero : units = 0
  · simp [zero]
  · have bits := (Nat.log2_lt zero).2 h
    omega

theorem nearest_of_dvd (pos : 0 < den) (spare : 2 ^ spareBits units ∣ units) :
    nearest (units * den) den = units := by
  obtain ⟨kept, split⟩ := spare
  have whole : units * den = kept * (den * 2 ^ spareBits units) := by
    calc units * den = 2 ^ spareBits units * kept * den := by rw [← split]
      _ = kept * (den * 2 ^ spareBits units) := by ring
  have step : 0 < den * 2 ^ spareBits units := Nat.mul_pos pos (Nat.two_pow_pos _)
  rw [nearest, Nat.mul_div_cancel units pos]
  change halfEven (units * den) (den * 2 ^ spareBits units) * 2 ^ spareBits units = units
  rw [whole, halfEven_mul kept step, Nat.mul_comm, ← split]

theorem nearest_of_bits {digits : Nat} (pos : 0 < den) (bits : digits < 2 ^ 53) :
    nearest (digits * 2 ^ k * den) den = digits * 2 ^ k := by
  refine nearest_of_dvd pos (dvd_mul_of_dvd_right (pow_dvd_pow 2 (spareBits_le ?_)) digits)
  rw [pow_add]
  exact Nat.mul_lt_mul_of_pos_right bits (Nat.two_pow_pos k)

theorem div_le_halfEven (num den : Nat) : num / den ≤ halfEven num den := by
  rw [halfEven]
  split_ifs <;> omega

theorem pow_le_nearest (pos : 0 < den) (h : 2 ^ k * den ≤ num) : 2 ^ k ≤ nearest num den := by
  have quotient : 2 ^ k ≤ num / den := (Nat.le_div_iff_mul_le pos).2 h
  have nonzero : num / den ≠ 0 := (Nat.two_pow_pos k |>.trans_le quotient).ne'
  have spare : spareBits (num / den) ≤ (num / den).log2 := Nat.sub_le _ _
  have kept : 2 ^ ((num / den).log2 - spareBits (num / den)) ≤
      halfEven num (den * 2 ^ spareBits (num / den)) := by
    refine le_trans ?_ (div_le_halfEven _ _)
    rw [← Nat.div_div_eq_div_mul, ← Nat.pow_div spare Nat.two_pos]
    exact Nat.div_le_div_right (Nat.log2_self_le nonzero)
  calc 2 ^ k ≤ 2 ^ (num / den).log2 :=
        Nat.pow_le_pow_right Nat.two_pos ((Nat.le_log2 nonzero).2 quotient)
    _ = 2 ^ ((num / den).log2 - spareBits (num / den)) * 2 ^ spareBits (num / den) := by
        rw [← pow_add, Nat.sub_add_cancel spare]
    _ ≤ nearest num den := Nat.mul_le_mul_right _ kept

theorem isNonneg_ofInt_of_neg {i : Int} (negative : i < 0) : (ofInt i).isNonneg = false := by
  have least : 2 ^ 0 * 1 ≤ i.natAbs * one := by
    rw [pow_zero, Nat.one_mul]
    exact Nat.mul_pos (by omega) one_pos
  have units : nearest (i.natAbs * one) 1 ≠ 0 := by
    have := pow_le_nearest Nat.one_pos least
    omega
  rw [ofInt, decide_eq_true negative, round, ofUnits]
  split
  · simp [isNonneg, units]
  · rfl

end Rounding

def whole (n : Nat) : Double := .finite false (n * one)

section Whole
variable {m n k : Nat}

theorem round_whole {digits den : Nat} (pos : 0 < den) (bits : digits < 2 ^ 53) (room : k ≤ 971) :
    round false (digits * 2 ^ k * one * den) den = whole (digits * 2 ^ k) := by
  have units : digits * 2 ^ k * one = digits * 2 ^ (k + 1074) := by
    rw [Nat.mul_assoc, pow_mul_one]
  have inRange : digits * 2 ^ (k + 1074) < limit := by
    rw [limit_eq]
    calc digits * 2 ^ (k + 1074) < 2 ^ 53 * 2 ^ (k + 1074) :=
          Nat.mul_lt_mul_of_pos_right bits (Nat.two_pow_pos _)
      _ = 2 ^ (53 + (k + 1074)) := (pow_add 2 _ _).symm
      _ ≤ 2 ^ 2098 := Nat.pow_le_pow_right Nat.two_pos (by omega)
  rw [round, whole, units, nearest_of_bits pos bits, ofUnits, if_pos inRange]

theorem ofInt_eq_round (n : Nat) : ofInt n = round false (n * one) 1 := by
  rw [ofInt, decide_eq_false (Int.not_lt.2 (Int.natCast_nonneg n)), Int.natAbs_natCast]

theorem ofInt_natCast (h : n < 2 ^ 53) : ofInt n = whole n := by
  have exact := round_whole Nat.one_pos h (Nat.zero_le 971)
  rwa [pow_zero, Nat.mul_one, Nat.mul_one, ← ofInt_eq_round] at exact

theorem whole_mul_whole {digits : Nat} (product : m * n = digits * 2 ^ k) (bits : digits < 2 ^ 53)
    (room : k ≤ 971) : whole m * whole n = whole (m * n) := by
  have units : m * one * (n * one) = digits * 2 ^ k * one * one := by
    rw [← product]
    ring
  change round false (m * one * (n * one)) one = whole (m * n)
  rw [units, round_whole one_pos bits room, product]

theorem toInt64Saturating_whole (h : n < 2 ^ 63) :
    (whole n).roundHalfAway.toInt64Saturating = n := by
  have half : one / 2 < one := Nat.div_lt_self one_pos Nat.one_lt_two
  have nearest : (n * one + one / 2) / one * one / one = n := by
    rw [Nat.mul_div_cancel _ one_pos, Nat.mul_comm n, Nat.mul_add_div one_pos,
      Nat.div_eq_of_lt half, Nat.add_zero]
  have signed : Bits64.signedLimit = 2 ^ 63 := rfl
  simp only [whole, roundHalfAway, toInt64Saturating, Bool.false_eq_true, if_false, nearest, signed]
  omega

end Whole

def AtLeast (n : Nat) : Double → Prop
  | .finite false u => n * one ≤ u
  | .infinite false => True
  | _ => False

namespace AtLeast
variable {n : Nat} {d : Double}

theorem ofUnits {units : Nat} (h : n * one ≤ units) : (Double.ofUnits false units).AtLeast n := by
  rw [Double.ofUnits]
  split
  · exact h
  · trivial

theorem round {k num den : Nat} (pos : 0 < den) (h : 2 ^ k * one * den ≤ num) :
    (Double.round false num den).AtLeast (2 ^ k) := by
  refine ofUnits ?_
  rw [pow_mul_one] at h ⊢
  exact pow_le_nearest pos h

theorem ofInt {k : Nat} (h : 2 ^ k ≤ n) : (Double.ofInt n).AtLeast (2 ^ k) := by
  rw [ofInt_eq_round]
  refine round Nat.one_pos ?_
  rw [Nat.mul_one]
  exact Nat.mul_le_mul_right one h

theorem mul_whole {j k m : Nat} (h : d.AtLeast (2 ^ j)) (hm : 2 ^ k ≤ m) :
    (d * whole m).AtLeast (2 ^ (j + k)) := by
  cases d with
  | nan => exact h
  | finite negative u =>
    cases negative with
    | true => exact h.elim
    | false =>
      refine round one_pos ?_
      calc 2 ^ (j + k) * one * one = 2 ^ j * one * (2 ^ k * one) := by rw [pow_add]; ring
        _ ≤ u * (m * one) := Nat.mul_le_mul h (Nat.mul_le_mul_right one hm)
  | infinite negative =>
    cases negative with
    | true => exact h.elim
    | false =>
      have positive : m * one ≠ 0 := (Nat.mul_pos (Nat.two_pow_pos k |>.trans_le hm) one_pos).ne'
      change (if m * one = 0 then Double.nan else .infinite false).AtLeast (2 ^ (j + k))
      rw [if_neg positive]
      trivial

theorem le_toInt64Saturating (h : d.AtLeast n) (small : n < 2 ^ 63) :
    (n : Int) ≤ d.roundHalfAway.toInt64Saturating := by
  have signed : Bits64.signedLimit = 2 ^ 63 := rfl
  cases d with
  | nan => exact h.elim
  | infinite negative =>
    cases negative with
    | true => exact h.elim
    | false =>
      simp only [roundHalfAway, toInt64Saturating, Bool.false_eq_true, if_false, signed]
      omega
  | finite negative u =>
    cases negative with
    | true => exact h.elim
    | false =>
      have nearest : n ≤ (u + one / 2) / one * one / one := by
        rw [Nat.mul_div_cancel _ one_pos, Nat.le_div_iff_mul_le one_pos]
        exact Nat.le_add_right_of_le h
      simp only [roundHalfAway, toInt64Saturating, Bool.false_eq_true, if_false, signed]
      omega

end AtLeast

end Helpdesk.Double
