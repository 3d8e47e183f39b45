import Helpdesk.Fault
import Mathlib.Data.List.Forall2

/-! Outcomes of several steps: when all of them succeed, and which of them fails first. -/

namespace Helpdesk

def fault? {ε α : Type} : Except ε α → Option ε
  | .ok _ => none
  | .error e => some e

section Outcomes
variable {ε α β : Type}

theorem fault?_eq_some_iff {x : Except ε α} {e : ε} : fault? x = some e ↔ x = .error e := by
  cases x <;> simp [fault?]

theorem fault?_eq_none_iff {x : Except ε α} : fault? x = none ↔ ∃ a, x = .ok a := by
  cases x <;> simp [fault?]

theorem isSome_fault?_iff {x : Except ε α} : (fault? x).isSome ↔ ∃ e, x = .error e := by
  cases x <;> simp [fault?]

@[simp] theorem fault?_ok (a : α) : fault? (.ok a : Except ε α) = none := rfl

@[simp] theorem fault?_error (e : ε) : fault? (.error e : Except ε α) = some e := rfl

@[simp] theorem fault?_map (x : Except ε α) (f : α → β) : fault? (x.map f) = fault? x := by
  cases x <;> rfl

theorem fault?_bind_ok (x : Except ε α) (f : α → β) :
    fault? (x >>= fun a => .ok (f a)) = fault? x := by
  cases x <;> rfl

theorem fault?_bind (x : Except ε α) {f : α → Except ε β} {second : Option ε}
    (h : ∀ a, fault? (f a) = second) : fault? (x >>= f) = (fault? x).or second := by
  cases x with
  | error e => rfl
  | ok a => exact h a

theorem fault?_mapM (f : α → Except ε β) (l : List α) :
    fault? (l.mapM f) = l.findSome? fun a => fault? (f a) := by
  induction l with
  | nil => rfl
  | cons a l ih =>
    have rest (b : β) : fault? (l.mapM f >>= fun bs => .ok (b :: bs)) =
        l.findSome? fun a => fault? (f a) :=
      (fault?_bind_ok (l.mapM f) (b :: ·)).trans ih
    rw [List.mapM_cons, List.findSome?_cons]
    refine (fault?_bind (f a) rest).trans ?_
    cases fault? (f a) <;> rfl

theorem mapM_eq_ok_iff {f : α → Except ε β} {l : List α} {bs : List β} :
    l.mapM f = .ok bs ↔ List.Forall₂ (fun a b => f a = .ok b) l bs := by
  induction l generalizing bs with
  | nil =>
    rw [List.forall₂_nil_left_iff]
    exact ⟨fun h => by cases h; rfl, fun h => by subst h; rfl⟩
  | cons a l ih =>
    rw [List.mapM_cons, bind_eq_ok]
    constructor
    · rintro ⟨b, first, h⟩
      obtain ⟨rest, others, h⟩ := bind_eq_ok.1 h
      cases h
      exact .cons first (ih.1 others)
    · intro h
      cases h with
      | cons first others => exact ⟨_, first, bind_eq_ok.2 ⟨_, ih.2 others, rfl⟩⟩

theorem exists_mapM_eq_ok_iff {f : α → Except ε β} {l : List α} :
    (∃ bs, l.mapM f = .ok bs) ↔ ∀ a ∈ l, ∃ b, f a = .ok b := by
  simp only [← fault?_eq_none_iff, fault?_mapM, List.findSome?_eq_none_iff]

theorem eq_ok_of_toOption {x : Except ε α} {a : α} (h : x.toOption = some a) : x = .ok a := by
  cases x with
  | error e => cases h
  | ok b => exact congrArg Except.ok (Option.some.inj h)

theorem bind_eq_error {x : Except ε α} {f : α → Except ε β} {e : ε} :
    x >>= f = .error e ↔ x = .error e ∨ ∃ a, x = .ok a ∧ f a = .error e := by
  cases x <;> simp [bind, Except.bind]

end Outcomes

theorem forall_mem_iff_of_forall₂ {α β : Type} {R : α → β → Prop} {P : α → Prop} {Q : β → Prop}
    {as : List α} {bs : List β} (h : List.Forall₂ R as bs)
    (same : ∀ a b, R a b → (P a ↔ Q b)) : (∀ a ∈ as, P a) ↔ ∀ b ∈ bs, Q b := by
  induction h with
  | nil => exact iff_of_true (fun a ha => absurd ha List.not_mem_nil) fun b hb =>
      absurd hb List.not_mem_nil
  | cons first _ ih => rw [List.forall_mem_cons, List.forall_mem_cons, same _ _ first, ih]

theorem exists_mem_of_forall₂ {α β : Type} {R : α → β → Prop} {as : List α} {bs : List β}
    (h : List.Forall₂ R as bs) :
    (∀ a ∈ as, ∃ b ∈ bs, R a b) ∧ ∀ b ∈ bs, ∃ a ∈ as, R a b := by
  induction h with
  | nil => exact ⟨fun a ha => absurd ha List.not_mem_nil, fun b hb => absurd hb List.not_mem_nil⟩
  | cons first _ ih =>
    obtain ⟨forth, back⟩ := ih
    refine ⟨List.forall_mem_cons.2 ⟨⟨_, List.mem_cons_self, first⟩, fun a ha => ?_⟩,
      List.forall_mem_cons.2 ⟨⟨_, List.mem_cons_self, first⟩, fun b hb => ?_⟩⟩
    · obtain ⟨b, hb, related⟩ := forth a ha
      exact ⟨b, List.mem_cons_of_mem _ hb, related⟩
    · obtain ⟨a, ha, related⟩ := back b hb
      exact ⟨a, List.mem_cons_of_mem _ ha, related⟩

section Monad
variable {m : Type → Type} [Monad m] [LawfulMonad m] {α β γ : Type}

theorem mapM_map_eq_pure {e : γ → α} {f : α → m β} {g : γ → β} {l : List γ}
    (h : ∀ c ∈ l, f (e c) = pure (g c)) : (l.map e).mapM f = pure (l.map g) := by
  induction l with
  | nil => rfl
  | cons c l ih =>
    obtain ⟨first, others⟩ := List.forall_mem_cons.1 h
    rw [List.map_cons, List.mapM_cons, first, ih others, pure_bind, pure_bind, List.map_cons]

theorem mapM_map_eq_self {e : γ → α} {f : α → m γ} {l : List γ}
    (h : ∀ c ∈ l, f (e c) = pure c) : (l.map e).mapM f = pure l := by
  have read := mapM_map_eq_pure (g := id) h
  rwa [List.map_id] at read

end Monad

end Helpdesk
