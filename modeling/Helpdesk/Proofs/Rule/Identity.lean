import Helpdesk.Proofs.Rule.Refusal

/-! Identifiers of users in conditions. They are turned into numbers one by one, and all of them must be
identifiers (`userNumbers_eq_ok_iff`). Only then is anything bound, so a condition that is refused leaves
the builder as it was (`compile_identityLookup`). -/

namespace Helpdesk

namespace Value

def HasNumber (account : Option Account) (v number : Value) : Prop :=
  ∃ s user, v = .text s ∧ User.ofIdentifier? s = some user ∧
    (∀ a, account = some a → user.account = a) ∧ number = .int user.id

def HasNumbers (account : Option Account) : Value → Value → Prop
  | .list items, numbers =>
    ∃ ids, numbers = .list ids ∧ List.Forall₂ (HasNumber account) items ids
  | v, number => v.HasNumber account number

end Value

theorem Builder.compare_of_takesValue {op : Operator} (valued : op.takesValue) (b : Builder)
    (field : String) (v : Value) : ∃ name, b.compare field op v =
      (.compare (column field) op name,
        { b with parameters := b.parameters ++ [⟨name, v⟩] }) := by
  cases op with
  | isNull | isNotNull => cases valued
  | _ => exact ⟨_, rfl⟩

namespace Strategy
variable {field : String} {account : Option Account} {op : Operator} {v number numbers : Value}
  {priorities : PriorityTable}

theorem userNumber_eq_ok_iff :
    userNumber field account v = .ok number ↔ v.HasNumber account number := by
  rw [userNumber]
  constructor
  · intro h
    cases v with
    | text s =>
      dsimp only [Value.text?] at h
      split at h
      · cases h
      next user named =>
        cases account with
        | none =>
          cases h
          exact ⟨s, user, rfl, named, by simp, rfl⟩
        | some a =>
          dsimp only at h
          split at h
          next own =>
            cases h
            exact ⟨s, user, rfl, named, fun _ same => own.trans (Option.some.inj same), rfl⟩
          next => cases h
    | _ => cases h
  · rintro ⟨s, user, rfl, named, own, rfl⟩
    simp only [Value.text?, named]
    cases account with
    | none => rfl
    | some a => exact if_pos (own a rfl)

theorem userNumbers_eq_ok_iff :
    userNumbers field account v = .ok numbers ↔ v.HasNumbers account numbers := by
  cases v with
  | list items =>
    rw [userNumbers, map_eq_ok]
    simp only [mapM_eq_ok_iff, userNumber_eq_ok_iff, Value.HasNumbers]
    exact exists_congr fun ids => and_comm.trans (and_congr_left' eq_comm)
  | _ =>
    simp only [userNumbers, Value.HasNumbers]
    exact userNumber_eq_ok_iff

theorem compile_identityLookup_eq (valued : op.takesValue) (b : Builder) :
    (identityLookup account).compile b field op v priorities =
      match userNumbers field account v with
      | .error e => (.error e, b)
      | .ok numbers => (.ok (b.compare field op numbers).1, (b.compare field op numbers).2) := by
  refine (if_neg (by simp [valued])).trans ?_
  cases userNumbers field account v <;> rfl

/-- Users are looked up exactly: a condition is compiled just when its value is an identifier, or a list
of nothing else, and of the required account. One parameter is bound, with the number or with the numbers
item by item, and the column is compared with it. A condition that is refused leaves no trace. -/
theorem compile_identityLookup (valued : op.takesValue) (b : Builder) (field : String)
    (account : Option Account) (v : Value) (priorities : PriorityTable) :
    ((∃ p, ((identityLookup account).compile b field op v priorities).1 = .ok p) ↔
      v.AreUsersOf account) ∧
    (∀ p after, (identityLookup account).compile b field op v priorities = (.ok p, after) →
      ∃ numbers name, v.HasNumbers account numbers ∧ p = .compare ⟨"t", field⟩ op name ∧
        after = { b with parameters := b.parameters ++ [⟨name, numbers⟩] }) ∧
    ∀ f after, (identityLookup account).compile b field op v priorities = (.error f, after) →
      f.kind = .conditionResolution ∧ after = b := by
  have refused : RefusedWhen (userNumbers field account v) (¬ v.AreUsersOf account) :=
    userNumbers_refused
  rw [compile_identityLookup_eq valued]
  cases found : userNumbers field account v with
  | error e =>
    have no : ¬ v.AreUsersOf account := refused.iff.1 ⟨e, found⟩
    refine ⟨iff_of_false nofun no, nofun, fun f after same => ?_⟩
    cases same
    exact ⟨refused.kind e found, rfl⟩
  | ok numbers =>
    have yes : v.AreUsersOf account := by
      by_contra no
      obtain ⟨f, error⟩ := refused.iff.2 no
      cases found.symm.trans error
    obtain ⟨name, compared⟩ := b.compare_of_takesValue valued field numbers
    refine ⟨iff_of_true ⟨_, rfl⟩ yes, fun p after same => ?_, nofun⟩
    dsimp only at same
    rw [compared] at same
    cases same
    exact ⟨numbers, name, userNumbers_eq_ok_iff.1 found, rfl, rfl⟩

end Strategy

namespace Watchers

def started : Builder :=
  ⟨"tickets", [⟨"branches", "j1", "id", ⟨"t", "branch"⟩⟩], [⟨"branch_1", .text "%North%"⟩]⟩

def compiled (users : List String) : Outcome Predicate × Builder :=
  (Strategy.identityLookup (some .oro)).compile started "assignee" .oneOf (.ofTexts users) .standard

/-- The numbers of staff come in the order of the list, and one customer refuses it all. -/
theorem compile_watchers : Operator.oneOf.takesValue ∧
    (∃ p, (compiled ["oro_7", "oro_+012"]).1 = .ok p ∧ ∃ numbers name,
      (Value.ofTexts ["oro_7", "oro_+012"]).HasNumbers (some .oro) numbers ∧
      p = .compare ⟨"t", "assignee"⟩ .oneOf name ∧ (compiled ["oro_7", "oro_+012"]).2 =
        { started with parameters := started.parameters ++ [⟨name, numbers⟩] }) ∧
    ∃ f, compiled ["oro_7", "diamante_12"] = (.error f, started) ∧ f.kind = .conditionResolution := by
  have valued : Operator.oneOf.takesValue := rfl
  have looked (users : List String) := Strategy.compile_identityLookup valued started "assignee"
    (some .oro) (.ofTexts users) .standard
  refine ⟨valued, ?_, ?_⟩
  · obtain ⟨compiles, bound, -⟩ := looked ["oro_7", "oro_+012"]
    have staff : (Value.ofTexts ["oro_7", "oro_+012"]).AreUsersOf (some .oro) := by
      refine List.forall_mem_cons.2 ⟨⟨_, ⟨.oro, 7⟩, rfl, rfl, fun a same => Option.some.inj same⟩, ?_⟩
      refine List.forall_mem_singleton.2 ⟨_, ⟨.oro, 12⟩, rfl, rfl, fun a same => Option.some.inj same⟩
    obtain ⟨p, ok⟩ := compiles.2 staff
    exact ⟨p, ok, bound p _ (Prod.ext ok rfl)⟩
  · obtain ⟨compiles, -, refused⟩ := looked ["oro_7", "diamante_12"]
    have customer : ¬ (Value.ofTexts ["oro_7", "diamante_12"]).AreUsersOf (some .oro) := by
      intro users
      obtain ⟨_, user, same, named, own⟩ := users (.text "diamante_12") (by simp)
      cases same
      cases named
      cases own .oro rfl
    cases outcome : (compiled ["oro_7", "diamante_12"]).1 with
    | ok p => exact absurd (compiles.1 ⟨p, outcome⟩) customer
    | error f =>
      obtain ⟨kind, same⟩ := refused f _ (Prod.ext outcome rfl)
      exact ⟨f, Prod.ext outcome same, kind⟩

end Watchers
end Helpdesk
