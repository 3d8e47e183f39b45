import Helpdesk.Proofs.Rule.Single
import Helpdesk.Proofs.Time.Stored

/-! Rules that ask for an age. Hours are counted back from now, the order is mirrored, and the texts
of stored moments are compared with that of the cutoff; together these steps select the tickets that
are older or younger than the age (`selects_of_age`). -/

namespace Helpdesk
open Store

inductive Stamp
  | created
  | updated
deriving DecidableEq

namespace Stamp

def property : Stamp → String
  | .created => "created"
  | .updated => "updated"

def column : Stamp → String
  | .created => "created_at"
  | .updated => "updated_at"

def ofTicket : Stamp → Ticket → Time.Instant
  | .created => Ticket.createdAt
  | .updated => Ticket.updatedAt

theorem cellIn (stamp : Stamp) {t : Table} (schema : t.schema = Schema.tickets)
    (p : Int64 × Ticket) :
    t.cellIn (some (ticketRow p)) stamp.column = (.text, .text (stamp.ofTicket p.2).toStored) := by
  rw [Table.cellIn, schema]
  cases stamp <;> rfl

def test (stamp : Stamp) (op : Operator) (cutoff : Time.Instant) : Test :=
  .compare (.own stamp.column) op (.moment cutoff)

end Stamp

namespace Compiler
variable {now : Time.Instant} {property : String} {v : Value} {cutoff : Time.Instant}

theorem hours_of_hoursAgo (h : hoursAgo now property v = .ok (.moment cutoff)) :
    v.hours?.isSome ∧ ∃ millis, now.minusMillis? millis = some cutoff := by
  rw [hoursAgo] at h
  split at h
  · cases h
  next hours found =>
    dsimp only at h
    split at h
    · cases h
    next t back =>
      cases h
      exact ⟨Option.isSome_of_eq_some found, _, back⟩

theorem year_le_of_hoursAgo (h : hoursAgo now property v = .ok (.moment cutoff)) :
    cutoff.date.year ≤ now.date.year := by
  obtain ⟨-, millis, back⟩ := hours_of_hoursAgo h
  exact Time.Instant.year_le_of_seconds_le (Time.Instant.seconds_le_of_minusMillis? back)

variable {stamp : Stamp} {op mirrored : Operator}

theorem metadata_tickets (now : Time.Instant) (stamp : Stamp) :
    (tickets now).metadata stamp.property = .ok ⟨stamp.column, .datetime⟩ := by
  cases stamp <;> rfl

theorem isList_of_hours? (hours : v.hours?.isSome) : v.isList = false ∧ v ≠ .null := by
  cases v with
  | null => cases hours
  | list items => cases hours
  | _ => exact ⟨rfl, Value.noConfusion⟩

theorem resolveValue_age (ordering : op.isOrdering) (hours : v.hours?.isSome) :
    Condition.resolveValue property op .datetime (some v) = .ok v := by
  obtain ⟨single, notNull⟩ := isList_of_hours? hours
  have binary : op.takesValue = true ∧ op.takesList = false := by
    cases op <;> first | exact ⟨rfl, rfl⟩ | cases ordering
  have shape : Condition.checkShape property op .datetime v = .ok () := by
    simp [Condition.checkShape, binary.2, single, Option.isSome_iff_ne_none.1 hours]
  rw [Condition.resolveValue, if_pos binary.1, shape]
  · rfl
  · exact notNull

theorem resolve_age (ordering : op.isOrdering) (hours : v.hours?.isSome) {g : Group}
    (asks : g.Asks stamp.property op v) : ∃ d, g.IsOnly d ∧
      Condition.resolve .standard d (tickets now) = .ok ⟨stamp.property, op, v⟩ := by
  have kind : ConditionRegistry.standard.kinds.get? stamp.property =
      some (.bound stamp.property) := by
    cases stamp <;> rfl
  exact resolve_of_asks kind (metadata_tickets now stamp)
    ((FieldType.datetime_allows op).trans ordering) (resolveValue_age ordering hours) asks

theorem term_age (mirror : op.timeMirror? = some mirrored) {g : Group}
    (asks : g.Asks stamp.property op v)
    (ago : hoursAgo now stamp.property v = .ok (.moment cutoff)) : ∃ d, g.IsOnly d ∧
      (helpdesk now).term (tickets now) d =
        .ok (.test (stamp.test mirrored cutoff)) := by
  have ordering : op.isOrdering = true := Option.isSome_of_eq_some mirror
  obtain ⟨d, only, resolved⟩ := resolve_age ordering (hours_of_hoursAgo ago).1 asks
  refine ⟨d, only, bind_eq_ok.2 ⟨_, resolved, bind_eq_ok.2 ⟨_, ?_, rfl⟩⟩⟩
  have moments : (helpdesk now).config.isDatetime "ticket" stamp.property = true := by
    cases stamp <;> rfl
  have compared : (helpdesk now).comparison (tickets now) ⟨stamp.property, op, v⟩ =
      .ok (mirrored, .moment cutoff) := by
    rw [comparison]
    refine (if_pos moments).trans ?_
    dsimp only
    rw [mirror]
    exact bind_eq_ok.2 ⟨_, ago, rfl⟩
  refine bind_eq_ok.2 ⟨_, compared, bind_eq_ok.2 ⟨_, metadata_tickets now stamp, ?_⟩⟩
  have plain : (helpdesk now).strategies.resolve? stamp.column mirrored = none := by
    cases stamp <;> cases mirrored <;> rfl
  dsimp only
  rw [plain]
  cases op <;> cases mirror <;> rfl

end Compiler

/-- What an order on ages asks of a moment's place before or after the cutoff. -/
def Operator.keepsAge : Operator → Ordering → Bool
  | .gt, o => o == .lt
  | .gte, o => o != .gt
  | .lt, o => o == .gt
  | .lte, o => o != .lt
  | _, _ => false

theorem compareTruth_mirror {op mirrored : Operator}
    (mirror : op.timeMirror? = some mirrored) (a b : String) :
    Cell.compareTruth mirrored .text .none (.text a) (.text b) =
        some (op.keepsAge (Cell.compareTexts a b)) := by
  cases op <;> cases mirror <;> rfl

section Ages
variable {s : Store} {t : Table} {stored : List (Int64 × Ticket)}
  {now cutoff : Time.Instant} {stamp : Stamp}
  {op mirrored : Operator} {v : Value} {g : Group}

theorem runs_age (schema : t.schema = Schema.tickets) :
    (Plan.test (stamp.test mirrored cutoff)).Runs s t := by
  refine Plan.runs_own ?_ ?_ fun item hi => List.mem_singleton.1 hi ▸ rfl
  · cases stamp <;> rfl
  · rw [schema]
    cases stamp <;> rfl

theorem truth_age (schema : t.schema = Schema.tickets) (mirror : op.timeMirror? = some mirrored)
    {p : Int64 × Ticket} (year : (stamp.ofTicket p.2).HasFourDigitYear)
    (high : cutoff.date.year ≤ 9999) :
    (stamp.test mirrored cutoff).truth s t (ticketRow p) =
      some (op.keepsAge (compare (stamp.ofTicket p.2).cut cutoff.cut)) := by
  have bound : Cell.ofValue (.moment cutoff) = .text cutoff.toStored := rfl
  rw [Stamp.test, Test.truth, Site.cell, stamp.cellIn schema, Cell.valueTruth_of_not_list _ _ rfl, bound,
    compareTruth_mirror mirror, Time.Instant.compareTexts_toStored year high]

theorem selects_age (sound : s.Sound) (keeps : s.Keeps t stored)
    (years : ∀ p ∈ stored, (stamp.ofTicket p.2).HasFourDigitYear) (high : cutoff.date.year ≤ 9999)
    (mirror : op.timeMirror? = some mirrored) (asks : g.Asks stamp.property op v)
    (ago : Compiler.hoursAgo now stamp.property v = .ok (.moment cutoff)) :
    s.Selects now stored g fun x => op.keepsAge (compare (stamp.ofTicket x).cut cutoff.cut) := by
  obtain ⟨d, only, made⟩ := Compiler.term_age mirror asks ago
  refine selects_of_only sound keeps only made (runs_age keeps.schema) Plan.joinsAtMostOne_own
    fun p hp => ?_
  rw [truth_age keeps.schema mirror (years p hp) high, Option.some_beq_some, beq_true]

theorem Store.Selects.complement {keep : Ticket → Bool} {g' : Group}
    (nodup : (stored.map Prod.fst).Nodup)
    (h : s.Selects now stored g keep) (h' : s.Selects now stored g' fun x => !keep x) :
    (∀ row, ¬ (s.Finds (.helpdesk now) "ticket" row g ∧ s.Finds (.helpdesk now) "ticket" row g')) ∧
      ∀ p ∈ stored, s.Finds (.helpdesk now) "ticket" (ticketRow p) g ∨
        s.Finds (.helpdesk now) "ticket" (ticketRow p) g' := by
  constructor
  · rintro row ⟨finds, finds'⟩
    obtain ⟨p, hp, kept, rfl⟩ := (h.finds_iff row).1 finds
    obtain ⟨q, hq, left, same⟩ := (h'.finds_iff _).1 finds'
    have numbers : q.1 = p.1 := congrArg Row.rowid same
    obtain rfl := List.inj_on_of_nodup_map nodup hq hp numbers
    rw [kept] at left
    cases left
  · intro p hp
    rw [h.finds_iff, h'.finds_iff]
    cases kept : keep p.2 with
    | true => exact .inl ⟨p, hp, kept, rfl⟩
    | false => exact .inr ⟨p, hp, by rw [kept]; rfl, rfl⟩

theorem keepsAge_compare {α : Type} [LinearOrder α] (a c : α) :
    Operator.keepsAge .gt (compare a c) = decide (a < c) ∧
      Operator.keepsAge .gte (compare a c) = decide (a ≤ c) ∧
      Operator.keepsAge .lt (compare a c) = decide (c < a) ∧
      Operator.keepsAge .lte (compare a c) = decide (c ≤ a) := by
  rcases lt_trichotomy a c with less | rfl | greater
  · simp [compare_lt_iff_lt.2 less, Operator.keepsAge, less, less.le, less.not_gt]
  · simp [Operator.keepsAge]
  · simp [compare_gt_iff_gt.2 greater, Operator.keepsAge, greater, greater.le, greater.not_gt]

/-- Rules select by age. Of the tickets that were stored, those older than a number of hours are the
ones with a moment before the cutoff, both cut to whole seconds, and the other orders find those at,
after or before it. No ticket is older than an age and also at most as old, and every ticket is one
of the two. -/
theorem selects_of_age (filled : s.Filled stored)
    (years : ∀ p ∈ stored, p.2.createdAt.HasFourDigitYear ∧ p.2.updatedAt.HasFourDigitYear)
    (present : now.date.year ≤ 9999) (stamp : Stamp)
    (ago : Compiler.hoursAgo now stamp.property v = .ok (.moment cutoff)) :
    (∀ g : Group, g.Asks stamp.property .gt v →
      s.Selects now stored g fun x => (stamp.ofTicket x).cut < cutoff.cut) ∧
    (∀ g : Group, g.Asks stamp.property .gte v →
      s.Selects now stored g fun x => (stamp.ofTicket x).cut ≤ cutoff.cut) ∧
    (∀ g : Group, g.Asks stamp.property .lt v →
      s.Selects now stored g fun x => cutoff.cut < (stamp.ofTicket x).cut) ∧
    (∀ g : Group, g.Asks stamp.property .lte v →
      s.Selects now stored g fun x => cutoff.cut ≤ (stamp.ofTicket x).cut) ∧
    ∀ older younger : Group,
      older.Asks stamp.property .gt v ∧ younger.Asks stamp.property .lte v ∨
        older.Asks stamp.property .gte v ∧ younger.Asks stamp.property .lt v →
      (∀ row, ¬ (s.Finds (.helpdesk now) "ticket" row older ∧
        s.Finds (.helpdesk now) "ticket" row younger)) ∧
      ∀ p ∈ stored, s.Finds (.helpdesk now) "ticket" (ticketRow p) older ∨
        s.Finds (.helpdesk now) "ticket" (ticketRow p) younger := by
  obtain ⟨sound, t, keeps⟩ := filled.keeps
  have four : ∀ p ∈ stored, (stamp.ofTicket p.2).HasFourDigitYear := by
    intro p hp
    cases stamp with
    | created => exact (years p hp).1
    | updated => exact (years p hp).2
  have high : cutoff.date.year ≤ 9999 := (Compiler.year_le_of_hoursAgo ago).trans present
  have selects (op : Operator) {mirrored : Operator} (mirror : op.timeMirror? = some mirrored)
      (keep : Ticket → Bool)
      (same : ∀ x, op.keepsAge (compare (stamp.ofTicket x).cut cutoff.cut) = keep x) (g : Group)
      (asks : g.Asks stamp.property op v) : s.Selects now stored g keep := by
    rw [← funext same]
    exact selects_age sound keeps four high mirror asks ago
  have gt := selects .gt rfl _ fun x => (keepsAge_compare (stamp.ofTicket x).cut cutoff.cut).1
  have gte := selects .gte rfl _ fun x => (keepsAge_compare (stamp.ofTicket x).cut cutoff.cut).2.1
  have lt := selects .lt rfl _ fun x => (keepsAge_compare (stamp.ofTicket x).cut cutoff.cut).2.2.1
  have lte := selects .lte rfl _ fun x => (keepsAge_compare (stamp.ofTicket x).cut cutoff.cut).2.2.2
  refine ⟨gt, gte, lt, lte, ?_⟩
  rintro older younger (⟨beyond, within⟩ | ⟨beyond, within⟩)
  · refine (gt older beyond).complement (keeps.nodup sound) ?_
    simpa [← decide_not] using lte younger within
  · refine (gte older beyond).complement (keeps.nodup sound) ?_
    simpa [← decide_not] using lt younger within

end Ages

namespace DayOld

def now : Time.Instant := ⟨1483315200, 0, by decide⟩

def dayBefore : Time.Instant := ⟨1483228800, 0, by decide⟩

def early : Ticket := .fresh "HD-1" "Printer" ⟨.oro, 1⟩ ⟨1483228799, 1500000000, by decide⟩

def late : Ticket := .fresh "HD-2" "Scanner" ⟨.diamante, 2⟩ dayBefore

def older : Group := ⟨"and", [⟨"created", .binary "gt" (.int 24)⟩], []⟩

def younger : Group :=
  ⟨"or", [⟨"field", (ConditionParameters.binary "lte" (.int 24)).withProperty "created"⟩], []⟩

theorem hoursAgo_day : Compiler.hoursAgo now "created" (.int 24) = .ok (.moment dayBefore) := by
  have admitted : ((Double.ofInt64 24).isFinite && (Double.ofInt64 24).isNonneg) = true := by
    decide +kernel
  have hours : (Value.int 24).hours? = some (Double.ofInt64 24) := by
    rw [Value.hours?, Value.number?, Option.bind_some, if_pos admitted]
  have millis :
      (Double.ofInt64 24 * Compiler.millisPerHour).roundHalfAway.toInt64Saturating = 86400000 := by
    decide +kernel
  simp only [Compiler.hoursAgo, hours, millis]
  rfl

/-- A ticket of the leap second is older than a day, one of the next second is not. -/
theorem selects_older : ∃ s : Store, s.Filled [(1, early), (2, late)] ∧
    s.Selects now [(1, early), (2, late)] older (fun x => x.createdAt.cut < dayBefore.cut) ∧
    s.Finds (.helpdesk now) "ticket" (ticketRow (1, early)) older ∧
    s.Finds (.helpdesk now) "ticket" (ticketRow (2, late)) younger := by
  obtain ⟨s, filled⟩ : ∃ s : Store, s.Filled [(1, early), (2, late)] :=
    ⟨_, .ticket (.ticket .fresh (rfl : fresh.createTicket early = .ok (1, _))) rfl⟩
  obtain ⟨gt, -, -, lte, -⟩ := selects_of_age filled (by decide) (by decide) .created hoursAgo_day
  have asksOlder : older.Asks "created" .gt (.int 24) := ⟨.inr rfl, .inl rfl, rfl⟩
  have asksYounger : younger.Asks "created" .lte (.int 24) := ⟨.inl rfl, .inr rfl, rfl⟩
  refine ⟨s, filled, gt older asksOlder,
    ((gt older asksOlder).finds_iff _).2 ⟨(1, early), by simp, ?_, rfl⟩,
    ((lte younger asksYounger).finds_iff _).2 ⟨(2, late), by simp, ?_, rfl⟩⟩
  · exact decide_eq_true (Time.Instant.cut_lt_iff.2 (.inl (by decide)))
  · exact decide_eq_true le_rfl

end DayOld
end Helpdesk
