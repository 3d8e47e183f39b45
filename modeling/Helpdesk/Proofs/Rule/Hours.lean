import Helpdesk.Proofs.Double
import Helpdesk.Proofs.Rule.Refusal

/-! Ages in whole hours. An hour is `28125 * 2 ^ 7` milliseconds, so an age that reaches back to any
moment at all is counted in milliseconds without loss, also beyond 53 bits; what is rounded, or cut to 64
bits, lies before all moments. So a whole number of hours leads to the moment exactly as long ago, or to
none (`hoursAgo_whole`). -/

namespace Helpdesk

-- Powers of this size are never multiplied out.
attribute [local irreducible] Double.one Double.limit

namespace Value
variable {h : Int64} {n : Nat}

theorem hours?_int (h : Int64) : (Value.int h).hours? =
    if (Double.ofInt64 h).isFinite && (Double.ofInt64 h).isNonneg then some (Double.ofInt64 h)
    else none := by
  rw [hours?, number?, Option.bind_some]

theorem hours?_of_neg (negative : h.toInt < 0) : (Value.int h).hours? = none := by
  rw [hours?_int, Double.ofInt64, Double.isNonneg_ofInt_of_neg negative, Bool.and_false]
  rfl

theorem hours?_of_lt (same : h.toInt = n) (bits : n < 2 ^ 53) :
    (Value.int h).hours? = some (.whole n) := by
  rw [hours?_int, Double.ofInt64, same, Double.ofInt_natCast bits]
  rfl

theorem atLeast_of_hours? {k : Nat} {hours : Double} (same : h.toInt = n) (least : 2 ^ k ≤ n)
    (given : (Value.int h).hours? = some hours) : hours.AtLeast (2 ^ k) := by
  rw [hours?_int, Double.ofInt64, same] at given
  split at given
  · cases given
    exact .ofInt least
  · cases given

end Value

namespace Time

def IsSecond (seconds : Int) : Prop := firstSecond ≤ seconds ∧ seconds ≤ lastSecond

instance (seconds : Int) : Decidable (IsSecond seconds) := inferInstanceAs (Decidable (_ ∧ _))

namespace Instant
variable {now : Instant} {seconds : Int} {nanos : Nat}

theorem ofSeconds?_of_isSecond (inside : IsSecond seconds) (fraction : nanos < second) :
    ∃ t, ofSeconds? seconds nanos = some t ∧ t.seconds = seconds ∧ t.nanos = nanos :=
  ⟨_, dif_pos ⟨inside.1, inside.2, .inl fraction⟩, rfl, rfl⟩

theorem ofSeconds?_of_not_isSecond (outside : ¬ IsSecond seconds) :
    ofSeconds? seconds nanos = none :=
  dif_neg fun moment => outside ⟨moment.1, moment.2.1⟩

theorem minusMillis?_hours (notLeap : now.isLeap = false) (n : Nat) :
    now.minusMillis? (n * 3600000) = ofSeconds? (now.seconds - n * 3600) now.nanos := by
  have whole : n * 3600000 / 1000 = n * 3600 := by omega
  have fraction : n * 3600000 % 1000 * 1000000 = 0 := by omega
  rw [minusMillis?]
  simp [notLeap, whole, fraction]

theorem not_hasPast {millis : Nat} (h : 2 ^ 54 ≤ millis) : ¬ now.HasPast millis := by
  obtain ⟨low, high, fraction⟩ := now.isMoment
  rw [HasPast]
  simp only [firstSecond, lastSecond, second] at *
  omega

end Instant
end Time

namespace Compiler
variable {now : Time.Instant} {property : String} {v : Value} {hours : Double} {h : Int64} {n : Nat}

theorem millisPerHour_eq : millisPerHour = .whole 3600000 := Double.ofInt_natCast (by decide)

theorem millisOf_whole (small : n < 2 ^ 33) : millisOf (.whole n) = n * 3600000 := by
  have product : n * 3600000 = n * 28125 * 2 ^ 7 := by omega
  rw [millisOf, millisPerHour_eq, Double.whole_mul_whole product (by omega) (by decide),
    Double.toInt64Saturating_whole (by omega), Int.toNat_natCast]

theorem le_millisOf (least : hours.AtLeast (2 ^ 33)) : 2 ^ 54 ≤ millisOf hours := by
  have millis : (hours * millisPerHour).AtLeast (2 ^ (33 + 21)) :=
    millisPerHour_eq ▸ least.mul_whole (by decide)
  have bound := millis.le_toInt64Saturating (by decide)
  rw [millisOf]
  omega

theorem hoursAgo_eq (given : v.hours? = some hours) : hoursAgo now property v =
    match now.minusMillis? (millisOf hours) with
    | none => .error (.notHours property v)
    | some t => .ok (.moment t) := by
  rw [hoursAgo, given]
  rfl

theorem hoursAgo_of_hours?_eq_none (given : v.hours? = none) :
    hoursAgo now property v = .error (.notHours property v) := by
  rw [hoursAgo, given]

/-- Fewer hours than these are exact, and with as many or more every moment is passed. -/
theorem hoursAgo_natCast (notLeap : now.isLeap = false) (same : h.toInt = n) :
    hoursAgo now property (.int h) =
      match Time.Instant.ofSeconds? (now.seconds - n * 3600) now.nanos with
      | none => .error (.notHours property (.int h))
      | some t => .ok (.moment t) := by
  by_cases small : n < 2 ^ 33
  · rw [hoursAgo_eq (Value.hours?_of_lt same (by omega)), millisOf_whole small,
      Time.Instant.minusMillis?_hours notLeap]
  · have outside : ¬ Time.IsSecond (now.seconds - n * 3600) := by
      have high := now.isMoment.2.1
      simp only [Time.IsSecond, Time.firstSecond, Time.lastSecond] at *
      omega
    rw [Time.Instant.ofSeconds?_of_not_isSecond outside]
    cases given : (Value.int h).hours? with
    | none => exact hoursAgo_of_hours?_eq_none given
    | some hours =>
      have old := le_millisOf (Value.atLeast_of_hours? same (Nat.not_lt.1 small) given)
      rw [hoursAgo_eq given, Time.Instant.minusMillis?_eq_none_iff.2 (Time.Instant.not_hasPast old)]

/-- Whole hours are counted back exactly, whatever integer of 64 bits they are. Hours that are negative
or lead beyond the first moment are refused; all others lead to the moment that is as many times 3600
seconds earlier, with the same fraction of a second. -/
theorem hoursAgo_whole (notLeap : now.isLeap = false) (property : String) (h : Int64) :
    (h < 0 ∨ ¬ Time.IsSecond (now.seconds - h.toInt * 3600) →
      ∃ f, hoursAgo now property (.int h) = .error f ∧ f = .notHours property (.int h) ∧
        f.kind = .conditionResolution) ∧
    (0 ≤ h → Time.IsSecond (now.seconds - h.toInt * 3600) →
      ∃ t, hoursAgo now property (.int h) = .ok (.moment t) ∧
        t.seconds = now.seconds - h.toInt * 3600 ∧ t.nanos = now.nanos) := by
  rcases Int.lt_or_le h.toInt 0 with negative | nonneg
  · have refused : hoursAgo now property (.int h) = .error (.notHours property (.int h)) :=
      hoursAgo_of_hours?_eq_none (Value.hours?_of_neg negative)
    refine ⟨fun _ => ⟨_, refused, rfl, rfl⟩, fun least => ?_⟩
    exact absurd (Int64.le_iff_toInt_le.1 least) (Int.not_le.2 negative)
  · obtain ⟨n, same⟩ := Int.eq_ofNat_of_zero_le nonneg
    have notNegative : ¬ h < 0 := fun negative =>
      Int.not_lt.2 nonneg (Int64.lt_iff_toInt_lt.1 negative)
    have fraction : now.nanos < Time.second := by
      simpa [Time.Instant.isLeap] using notLeap
    rw [hoursAgo_natCast notLeap same, same]
    refine ⟨fun refused => ?_, fun _ inside => ?_⟩
    · rw [Time.Instant.ofSeconds?_of_not_isSecond (refused.resolve_left notNegative)]
      exact ⟨_, rfl, rfl, rfl⟩
    · obtain ⟨t, found, moment⟩ := Time.Instant.ofSeconds?_of_isSecond inside fraction
      rw [found]
      exact ⟨t, rfl, moment⟩

end Compiler

namespace LastMoment

def last : Time.Instant := ⟨8210266876799, 999999999, by decide⟩

/-- The most hours that can be counted back take more than 53 bits in milliseconds. One hour more is
refused, and so are the most hours that can be given. -/
theorem hoursAgo_last : last.isLeap = false ∧
    (∃ t, Compiler.hoursAgo last "created" (.int 4595796695) = .ok (.moment t) ∧
      t.seconds = -8334601225201 ∧ t.nanos = 999999999) ∧
    ∀ h ∈ [4595796696, Int64.maxValue, -1], ∃ f,
      Compiler.hoursAgo last "created" (.int h) = .error f ∧ f.kind = .conditionResolution := by
  have notLeap : last.isLeap = false := by decide
  refine ⟨notLeap, ?_, fun h member => ?_⟩
  · exact (Compiler.hoursAgo_whole notLeap "created" 4595796695).2 (by decide) (by decide)
  · have refused : h < 0 ∨ ¬ Time.IsSecond (last.seconds - h.toInt * 3600) := by
      simp only [List.mem_cons, List.not_mem_nil, or_false] at member
      rcases member with rfl | rfl | rfl <;> decide
    obtain ⟨f, error, -, kind⟩ := (Compiler.hoursAgo_whole notLeap "created" h).1 refused
    exact ⟨f, error, kind⟩

end LastMoment
end Helpdesk
