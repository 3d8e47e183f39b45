import Helpdesk.Proofs.Config.Classes
import Helpdesk.Proofs.Outcome
import Helpdesk.Proofs.Rule.Erasure
import Helpdesk.Proofs.Rule.Fit
import Helpdesk.Proofs.Time.Stored

/-! Conditions that are accepted and refused all the same. What a target allows is checked before a
condition is compiled, and in an accepted configuration both steps look at the same field. So only a
value can be in the way then: an age that nothing is old enough for, or a value that the strategy of the
column cannot use (`compileCondition_refused`). -/

namespace Helpdesk

/-- An outcome that is refused, for what a condition asks, just when something is the case. -/
structure RefusedWhen {α : Type} (x : Outcome α) (P : Prop) : Prop where
  iff : (∃ f, x = .error f) ↔ P
  kind : ∀ f, x = .error f → f.kind = .conditionResolution

namespace RefusedWhen
variable {α β : Type} {x : Outcome α} {P Q : Prop}

theorem ok (a : α) (h : ¬ P) : RefusedWhen (.ok a) P :=
  ⟨iff_of_false nofun h, nofun⟩

theorem error {f : Fault} (kind : f.kind = .conditionResolution) (h : P) :
    RefusedWhen (.error f : Outcome α) P :=
  ⟨iff_of_true ⟨f, rfl⟩ h, fun _ same => Except.error.inj same ▸ kind⟩

theorem congr (h : RefusedWhen x P) (same : P ↔ Q) : RefusedWhen x Q := ⟨h.iff.trans same, h.kind⟩

theorem bind (h : RefusedWhen x P) {f : α → Outcome β}
    (next : ∀ a, x = .ok a → RefusedWhen (f a) Q) : RefusedWhen (x >>= f) (P ∨ Q) := by
  cases x with
  | error e => exact error (h.kind e rfl) (.inl (h.iff.1 ⟨e, rfl⟩))
  | ok a =>
    have passed : ¬ P := fun p => nomatch h.iff.2 p
    exact (next a rfl).congr (or_iff_right passed).symm

theorem map (h : RefusedWhen x P) (f : α → β) : RefusedWhen (x.map f) P := by
  cases x with
  | error e => exact error (h.kind e rfl) (h.iff.1 ⟨e, rfl⟩)
  | ok a => exact ok (f a) fun p => nomatch h.iff.2 p

theorem mapM {f : α → Outcome β} {P : α → Prop} (h : ∀ a, RefusedWhen (f a) (P a)) (l : List α) :
    RefusedWhen (l.mapM f) (∃ a ∈ l, P a) := by
  induction l with
  | nil => exact ok [] (by simp)
  | cons a l ih =>
    have rest (b : β) : RefusedWhen (l.mapM f >>= fun bs => pure (b :: bs)) (∃ a ∈ l, P a) :=
      (ih.bind fun bs _ => ok (b :: bs) not_false).congr (or_false _).to_iff
    rw [List.mapM_cons]
    exact ((h a).bind fun b _ => rest b).congr (by simp)

end RefusedWhen

namespace Value

def IsSearchable (v : Value) : Prop := (∃ s, v = .text s) ∨ ∃ i, v = .int i

def IsUserOf (account : Option Account) (v : Value) : Prop :=
  ∃ s user, v = .text s ∧ User.ofIdentifier? s = some user ∧ ∀ a, account = some a → user.account = a

def AreUsersOf (account : Option Account) : Value → Prop
  | .list items => ∀ v ∈ items, v.IsUserOf account
  | v => v.IsUserOf account

end Value

theorem Operator.takesValue_of_isOrdering {op : Operator} (h : op.isOrdering) : op.takesValue := by
  cases op <;> first | rfl | cases h

namespace Strategy

def Refuses (op : Operator) (v : Value) (priorities : PriorityTable) : Strategy → Prop
  | .associationContains _ => (op = .like ∨ op = .notLike) ∧ ¬ v.IsSearchable
  | .identityLookup account => op.takesValue ∧ ¬ v.AreUsersOf account
  | .weightedRange => op.isOrdering ∧ ¬ ∃ s, v = .text s ∧ priorities.contains s

variable {field : String} {op : Operator} {v : Value} {priorities : PriorityTable}

theorem searchText_refused : RefusedWhen (searchText field v) (¬ v.IsSearchable) := by
  cases v with
  | text s => exact .ok _ (not_not.2 (.inl ⟨s, rfl⟩))
  | int i => exact .ok _ (not_not.2 (.inr ⟨i, rfl⟩))
  | _ => exact .error rfl (by rintro (⟨_, same⟩ | ⟨_, same⟩) <;> cases same)

theorem searchValue_refused : RefusedWhen (searchValue field op v)
    ((op = .like ∨ op = .notLike) ∧ ¬ v.IsSearchable) := by
  cases op with
  | like => exact (searchText_refused.map _).congr (by simp)
  | notLike => exact (searchText_refused.map _).congr (by simp)
  | _ => exact .ok v (by simp)

theorem userNumber_refused (field : String) (account : Option Account) (v : Value) :
    RefusedWhen (userNumber field account v) (¬ v.IsUserOf account) := by
  rw [userNumber]
  cases v with
  | text s =>
    dsimp only [Value.text?]
    cases known : User.ofIdentifier? s with
    | none =>
      refine .error rfl ?_
      rintro ⟨_, user, same, named, -⟩
      cases same
      rw [known] at named
      cases named
    | some user =>
      cases account with
      | none => exact .ok _ (not_not.2 ⟨s, user, rfl, known, nofun⟩)
      | some account =>
        dsimp only
        split
        next same =>
          exact .ok _ (not_not.2 ⟨s, user, rfl, known, fun a required => by
            cases required
            exact same⟩)
        next other =>
          refine .error rfl ?_
          rintro ⟨_, _, same, named, own⟩
          cases same
          cases known.symm.trans named
          exact other (own account rfl)
  | _ =>
    refine .error rfl ?_
    rintro ⟨_, _, same, -⟩
    cases same

theorem userNumbers_refused {account : Option Account} :
    RefusedWhen (userNumbers field account v) (¬ v.AreUsersOf account) := by
  cases v with
  | list items =>
    have several := RefusedWhen.mapM (userNumber_refused field account) items
    exact (several.map _).congr (by simp [Value.AreUsersOf])
  | _ =>
    simp only [userNumbers, Value.AreUsersOf]
    exact userNumber_refused field account _

theorem pastThreshold_refused {keep : Int64 → Int64 → Bool} :
    RefusedWhen (pastThreshold field priorities keep v)
      (¬ ∃ s, v = .text s ∧ priorities.contains s) := by
  rw [pastThreshold]
  cases v with
  | text s =>
    dsimp only [Value.text?]
    rw [PriorityTable.select?]
    cases known : priorities.weight? s with
    | none =>
      refine .error rfl ?_
      rintro ⟨_, same, there⟩
      cases same
      rw [PriorityTable.contains, known] at there
      cases there
    | some limit =>
      exact .ok _ (not_not.2 ⟨s, rfl, by rw [PriorityTable.contains, known]; rfl⟩)
  | _ =>
    refine .error rfl ?_
    rintro ⟨_, same, -⟩
    cases same

theorem isSome_keep? (op : Operator) : (keep? op).isSome = op.isOrdering := by
  cases op <;> rfl

theorem test_refused (s : Strategy) :
    RefusedWhen (s.test field op v priorities) (s.Refuses op v priorities) := by
  unfold test
  by_cases valued : op.takesValue = true
  · rw [if_neg (by simp [valued])]
    cases s with
    | associationContains join => exact searchValue_refused.map _
    | identityLookup account =>
      exact (userNumbers_refused.map _).congr (and_iff_right valued).symm
    | weightedRange =>
      dsimp only
      have ordering := isSome_keep? op
      cases kept : keep? op with
      | none =>
        rw [kept] at ordering
        refine .ok _ fun both => ?_
        have order := both.1
        simp [← ordering] at order
      | some keep =>
        rw [kept] at ordering
        exact (pastThreshold_refused.map _).congr (and_iff_right ordering.symm).symm
  · rw [if_pos (by simpa using valued)]
    refine .ok _ ?_
    cases s with
    | associationContains join =>
      rintro ⟨rfl | rfl, -⟩
      · exact valued rfl
      · exact valued rfl
    | identityLookup account => exact fun both => valued both.1
    | weightedRange => exact fun both => valued (Operator.takesValue_of_isOrdering both.1)

end Strategy

theorem Condition.field_of_resolve {registry : ConditionRegistry} {d : ConditionDefinition}
    {target : Target} {condition : Condition}
    (h : resolve registry d target = .ok condition) :
    ∃ m, target.metadata condition.property = .ok m ∧ m.fieldType.allows condition.operator ∧
      (m.fieldType = .datetime → condition.value.hours?.isSome) := by
  obtain ⟨kind, fieldType, -, -, allowed, shaped⟩ := resolve_eq_ok h
  rw [resolveOperator] at allowed
  split at allowed
  · cases allowed
  next name _ =>
    split at allowed
    · cases allowed
    next op _ =>
      obtain ⟨m, found, allowed⟩ := bind_eq_ok.1 allowed
      split at allowed
      next allows =>
        cases allowed
        refine ⟨m, found, allows, fun moments => ?_⟩
        rw [moments, FieldType.datetime_allows] at allows
        have shape := checkShape_of_resolveValue (Operator.takesValue_of_isOrdering allows) shaped
        rw [checkShape] at shape
        split at shape
        · cases shape
        · split at shape
          · cases shape
          next passed => simpa [moments, Option.isSome_iff_ne_none] using passed
      next => cases allowed

namespace Compiler

def millisOf (hours : Double) : Nat := (hours * millisPerHour).roundHalfAway.toInt64Saturating.toNat

def IsTooOld (now : Time.Instant) (v : Value) : Prop :=
  ∃ hours, v.hours? = some hours ∧ ¬ now.HasPast (millisOf hours)

theorem hoursAgo_refused (now : Time.Instant) (property : String) {v : Value}
    (h : v.hours?.isSome) : RefusedWhen (hoursAgo now property v) (IsTooOld now v) := by
  obtain ⟨hours, given⟩ := Option.isSome_iff_exists.1 h
  have tooOld : IsTooOld now v ↔ now.minusMillis? (millisOf hours) = none := by
    rw [Time.Instant.minusMillis?_eq_none_iff, IsTooOld]
    simp [given]
  rw [hoursAgo, given]
  dsimp only
  cases back : now.minusMillis? (hours * millisPerHour).roundHalfAway.toInt64Saturating.toNat with
  | none => exact .error rfl (tooOld.2 back)
  | some t =>
    refine .ok _ fun early => ?_
    cases (tooOld.1 early).symm.trans back

/-- Why a condition can be refused that the target allows: there is no moment as long ago as it asks, or
the strategy of its column cannot use the value that it comes to. -/
def Refuses (c : Compiler) (target : Target) (condition : Condition) : Prop :=
  c.config.isDatetime target.name condition.property ∧ IsTooOld c.now condition.value ∨
  ∃ op v m s, c.comparison target condition = .ok (op, v) ∧
    target.metadata? condition.property = some m ∧
    c.strategies.resolve? m.field op = some s ∧ s.Refuses op v c.priorities

/-- What an accepted condition brings to its compilation: a field that allows its operator, a number of
hours where the field holds moments, and a configuration that knows of the moments. -/
structure Accepts (c : Compiler) (target : Target) (condition : Condition) (m : FieldMetadata) :
    Prop where
  found : target.metadata condition.property = .ok m
  allows : m.fieldType.allows condition.operator
  hours : m.fieldType = .datetime → condition.value.hours?.isSome
  moments : c.config.isDatetime target.name condition.property = (m.fieldType == .datetime)

section Accepts
variable {c : Compiler} {target : Target} {condition : Condition} {m : FieldMetadata}

theorem Accepts.comparison_refused (h : c.Accepts target condition m) :
    RefusedWhen (c.comparison target condition)
      (c.config.isDatetime target.name condition.property ∧ IsTooOld c.now condition.value) := by
  rw [comparison]
  split
  next datetime =>
    have fieldType : m.fieldType = .datetime := beq_iff_eq.1 (h.moments.symm.trans datetime)
    have ordering := h.allows
    rw [fieldType, FieldType.datetime_allows] at ordering
    obtain ⟨mirrored, mirror⟩ := Option.isSome_iff_exists.1 ordering
    rw [mirror]
    have back := hoursAgo_refused c.now condition.property (h.hours fieldType)
    refine (back.bind fun v _ => .ok (mirrored, v) not_false).congr ?_
    simp [datetime]
  next other => exact .ok _ fun both => other both.1

theorem Accepts.test_refused (h : c.Accepts target condition m) :
    RefusedWhen (c.test target condition) (c.Refuses target condition) := by
  have known := metadata?_of_ok h.found
  refine RefusedWhen.bind h.comparison_refused ?_
  rintro ⟨op, v⟩ compared
  simp only [h.found, bind, Except.bind]
  cases resolved : c.strategies.resolve? m.field op with
  | none =>
    refine .ok _ ?_
    rintro ⟨op', v', m', s, compared', known', resolved', -⟩
    cases compared.symm.trans compared'
    cases known.symm.trans known'
    cases resolved.symm.trans resolved'
  | some s =>
    refine s.test_refused.congr
      ⟨fun refuses => ⟨op, v, m, s, compared, known, resolved, refuses⟩, ?_⟩
    rintro ⟨op', v', m', s', compared', known', resolved', refuses⟩
    cases compared.symm.trans compared'
    cases known.symm.trans known'
    cases resolved.symm.trans resolved'
    exact refuses

/-- The field is looked up by the class of the target and asked for moments by its name; an accepted
configuration gives the same field both times. -/
theorem accepts_of_resolve (accepted : c.config.IsAccepted) (own : c.metadata = c.config)
    {name : String} {e : Entity} (entity : c.config.entity name = .ok e)
    {registry : ConditionRegistry} {d : ConditionDefinition}
    (resolved : Condition.resolve registry d (c.target name e) = .ok condition) :
    ∃ m, c.Accepts (c.target name e) condition m := by
  obtain ⟨m, found, allows, hours⟩ := Condition.field_of_resolve resolved
  have field : e.fields.get? condition.property = some m := by
    rw [← accepted.metadata?_of_entity entity, ← metadata?_of_ok found, Compiler.target, own]
  refine ⟨m, found, allows, hours, ?_⟩
  rw [Config.isDatetime, Compiler.target, Config.entity_eq_ok.1 entity, Option.bind_some, field]

end Accepts

/-- A condition that an accepted configuration allows is refused for its value only. -/
theorem compileCondition_refused {c : Compiler} (accepted : c.config.IsAccepted)
    (own : c.metadata = c.config) {name : String} {e : Entity} (entity : c.config.entity name = .ok e)
    {registry : ConditionRegistry} {d : ConditionDefinition} {condition : Condition}
    (resolved : Condition.resolve registry d (c.target name e) = .ok condition) (b : Builder) :
    ((∃ f, c.compileCondition (c.target name e) condition b = .error f) ↔
      c.Refuses (c.target name e) condition) ∧
    ∀ f, c.compileCondition (c.target name e) condition b = .error f →
      f.kind = .conditionResolution := by
  obtain ⟨m, accepts⟩ := accepts_of_resolve accepted own entity resolved
  have refused := accepts.test_refused.map (·.emit b)
  rw [← compileCondition_eq] at refused
  exact ⟨refused.iff, refused.kind⟩

end Compiler

namespace Assigned

def compiler : Compiler := .ofConfig .helpdesk .epoch

def target : Target := compiler.target "ticket" Config.ticketEntity

def definition (identifier : String) : ConditionDefinition :=
  ⟨"assignee", .binary "eq" (.text identifier)⟩

def condition (identifier : String) : Condition := ⟨"assignee", .eq, .text identifier⟩

/-- Tickets are assigned to staff and not to customers. -/
theorem compileCondition_customer :
    (∃ f, compiler.compileCondition target (condition "diamante_7") (.selectFrom "tickets") =
      .error f ∧ f.kind = .conditionResolution) ∧
    ∃ p, compiler.compileCondition target (condition "oro_7") (.selectFrom "tickets") = .ok p := by
  have resolved (identifier : String) :
      Condition.resolve .standard (definition identifier) target = .ok (condition identifier) := rfl
  have entity : compiler.config.entity "ticket" = .ok Config.ticketEntity := rfl
  obtain ⟨customer, kind⟩ := Compiler.compileCondition_refused Config.isAccepted_helpdesk rfl entity
    (resolved "diamante_7") (.selectFrom "tickets")
  obtain ⟨staff, -⟩ := Compiler.compileCondition_refused Config.isAccepted_helpdesk rfl entity
    (resolved "oro_7") (.selectFrom "tickets")
  constructor
  · obtain ⟨f, refused⟩ := customer.2 (.inr ⟨.eq, .text "diamante_7", ⟨"assignee", .user⟩,
      .identityLookup (some .oro), rfl, rfl, rfl, rfl, fun ⟨s, u, same, named, own⟩ => by
        cases same
        cases named
        cases own .oro rfl⟩)
    exact ⟨f, refused, kind f refused⟩
  · have usable : (Value.text "oro_7").AreUsersOf (some .oro) :=
      ⟨"oro_7", ⟨.oro, 7⟩, rfl, rfl, fun a required => Option.some.inj required⟩
    cases compiled : compiler.compileCondition target (condition "oro_7") (.selectFrom "tickets") with
    | ok p => exact ⟨p, rfl⟩
    | error f =>
      rcases staff.1 ⟨f, compiled⟩ with ⟨moments, -⟩ | ⟨op, v, m, s, compared, found, strategy, refuses⟩
      · cases moments
      · cases compared
        cases found
        cases strategy
        exact absurd usable refuses.2

end Assigned
end Helpdesk
