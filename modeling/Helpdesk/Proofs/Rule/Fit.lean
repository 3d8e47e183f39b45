import Helpdesk.Proofs.Rule.Plan
import Mathlib.Data.List.Basic

/-! Lists go with the operators that take lists. Resolving a condition makes sure of it, and so it
stays: when ages are mirrored, and whatever a strategy makes of the condition. So every comparison
in the plan of a rule fits its value (`plan_fits`). -/

namespace Helpdesk

def Operator.Fits (op : Operator) (value : Value) : Prop :=
  op.takesValue → op.takesList = value.isList

def Test.Fits : Test → Prop
  | .compare _ op value => op.takesValue ∧ op.takesList = value.isList
  | _ => True

def Plan.Fits (p : Plan) : Prop := ∀ t ∈ p.tests, t.Fits

theorem Test.fits_plain {op : Operator} {value : Value} (field : String) (h : op.Fits value) :
    (Test.plain field op value).Fits := by
  cases op with
  | isNull => trivial
  | isNotNull => trivial
  | _ => exact ⟨rfl, h rfl⟩

theorem Test.fits_oneOfTexts (field : String) (texts : List String) :
    (Test.oneOfTexts field texts).Fits := by
  cases texts with
  | nil => trivial
  | cons text texts =>
    have fits : Operator.oneOf.Fits (.ofTexts (text :: texts)) := fun _ => rfl
    exact fits_plain field fits

namespace Condition

theorem checkShape_of_resolveValue {property : String} {op : Operator} {fieldType : FieldType}
    {given : Option Value} {value : Value} (valued : op.takesValue)
    (h : resolveValue property op fieldType given = .ok value) :
    checkShape property op fieldType value = .ok () := by
  unfold resolveValue at h
  rw [if_pos valued] at h
  split at h
  · cases h
  · cases h
  next given _ =>
    obtain ⟨_, shape, h⟩ := bind_eq_ok.1 h
    cases h
    exact shape

theorem resolveValue_fits {property : String} {op : Operator} {fieldType : FieldType}
    {given : Option Value} {value : Value}
    (h : resolveValue property op fieldType given = .ok value) :
    op.Fits value := by
  intro valued
  have shape := checkShape_of_resolveValue valued h
  rw [checkShape] at shape
  split at shape
  · cases shape
  next same => simpa using same

theorem resolve_fits {registry : ConditionRegistry}
    {definition : ConditionDefinition} {target : Target}
    {condition : Condition} (h : resolve registry definition target = .ok condition) :
    condition.operator.Fits condition.value := by
  rw [resolve] at h
  split at h
  · cases h
  · obtain ⟨property, _, h⟩ := bind_eq_ok.1 h
    obtain ⟨⟨op, fieldType⟩, _, h⟩ := bind_eq_ok.1 h
    obtain ⟨value, resolved, h⟩ := bind_eq_ok.1 h
    cases h
    exact resolveValue_fits resolved

end Condition

theorem Operator.takesList_of_timeMirror? {op mirrored : Operator}
    (h : op.timeMirror? = some mirrored) :
    mirrored.takesList = false := by
  cases op <;> cases h <;> rfl

namespace Compiler

theorem isList_of_hoursAgo {now : Time.Instant} {property : String} {value moment : Value}
    (h : hoursAgo now property value = .ok moment) : moment.isList = false := by
  unfold hoursAgo at h
  split at h
  · cases h
  · dsimp only at h
    split at h <;> cases h
    rfl

theorem comparison_fits {c : Compiler} {target : Target} {condition : Condition} {op : Operator}
    {value : Value} (fits : condition.operator.Fits condition.value)
    (h : c.comparison target condition = .ok (op, value)) : op.Fits value := by
  rw [comparison] at h
  split at h
  · split at h
    · cases h
    next mirror =>
      obtain ⟨moment, ago, h⟩ := bind_eq_ok.1 h
      cases h
      rw [Operator.Fits, Operator.takesList_of_timeMirror? mirror, isList_of_hoursAgo ago]
      exact fun _ => rfl
  · cases h
    exact fits

end Compiler

namespace Strategy

theorem searchValue_fits {field : String} {op : Operator} {value sought : Value}
    (fits : op.Fits value)
    (h : searchValue field op value = .ok sought) : op.Fits sought := by
  unfold searchValue at h
  split at h
  next =>
    cases found : searchText field value <;> rw [found] at h <;> cases h
    exact fun _ => rfl
  next =>
    cases found : searchText field value <;> rw [found] at h <;> cases h
    exact fun _ => rfl
  next =>
    cases h
    exact fits

theorem isList_of_userNumber {field : String} {account : Option Account} {value number : Value}
    (h : userNumber field account value = .ok number) : number.isList = false := by
  unfold userNumber at h
  repeat' split at h
  all_goals cases h
  all_goals rfl

theorem isList_of_userNumbers {field : String} {account : Option Account} {value numbers : Value}
    (h : userNumbers field account value = .ok numbers) : numbers.isList = value.isList := by
  unfold userNumbers at h
  split at h
  next items =>
    cases found : items.mapM (userNumber field account) <;> rw [found] at h <;> cases h
    rfl
  next single =>
    have notList : value.isList = false := by
      cases value with
      | list items => exact absurd rfl (single items)
      | _ => rfl
    rw [isList_of_userNumber h, notList]

theorem test_fits {s : Strategy} {field : String} {op : Operator} {value : Value}
    {priorities : PriorityTable} {t : Test} (fits : op.Fits value)
    (h : s.test field op value priorities = .ok t) : t.Fits := by
  obtain rfl | ⟨join, sought, rfl, valued, found, rfl⟩ | ⟨account, numbers, rfl, valued, found, rfl⟩ |
    ⟨keep, texts, rfl, -, -, rfl⟩ := test_eq_ok h
  · exact Test.fits_plain field fits
  · exact ⟨valued, searchValue_fits fits found valued⟩
  · exact Test.fits_plain field fun _ => (isList_of_userNumbers found).symm ▸ fits valued
  · exact Test.fits_oneOfTexts field texts

end Strategy

namespace Compiler

theorem test_fits {c : Compiler} {target : Target} {condition : Condition} {t : Test}
    (fits : condition.operator.Fits condition.value)
    (h : c.test target condition = .ok t) : t.Fits := by
  obtain ⟨⟨op, value⟩, compared, h⟩ := bind_eq_ok.1 h
  obtain ⟨m, _, h⟩ := bind_eq_ok.1 h
  have mirrored := comparison_fits fits compared
  split at h
  · cases h
    exact Test.fits_plain m.field mirrored
  · exact Strategy.test_fits mirrored h

theorem term_fits {c : Compiler} {target : Target} {definition : ConditionDefinition} {t : Test}
    (h : c.term target definition = .ok (.test t)) : t.Fits := by
  obtain ⟨condition, resolved, h⟩ := bind_eq_ok.1 h
  obtain ⟨u, tested, h⟩ := bind_eq_ok.1 h
  cases h
  exact test_fits (Condition.resolve_fits resolved) tested

theorem plan_fits {c : Compiler} {target : Target} (g : Group) {p : Plan}
    (h : c.plan target g = .ok p) : p.Fits := by
  intro t ht
  obtain ⟨d, made⟩ := exists_term_of_mem_tests g h ht
  exact term_fits made

end Compiler
end Helpdesk
