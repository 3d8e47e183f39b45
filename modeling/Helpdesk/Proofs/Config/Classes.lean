import Helpdesk.Cli.Run
import Helpdesk.Proofs.Rule.Names

/-! The classes of targets. Validation lets no two targets share a class, so the class of a target leads
back to it (`classTarget?_of_entity`), with the columns of its own properties (`metadata?_of_entity`).
It makes no difference then whether a rule is run by its target or by the class of its target
(`classQuery_of_targetClass`). -/

namespace Helpdesk

namespace Config

def IsAccepted (c : Config) : Prop := ∃ given : Config, given.validate = .ok c

theorem isAccepted_helpdesk : helpdesk.IsAccepted := ⟨helpdesk, rfl⟩

theorem classes_of_checkTargets {seen : List (String × String)} {targets : List (String × Entity)}
    {u : Unit} (h : checkTargets seen targets = .ok u) :
    (targets.Pairwise fun s t => s.2.className ≠ t.2.className) ∧
      ∀ t ∈ targets, seen.lookup t.2.className = none := by
  induction targets generalizing seen with
  | nil => exact ⟨.nil, fun t ht => absurd ht List.not_mem_nil⟩
  | cons t targets ih =>
    rw [checkTargets] at h
    split at h
    · cases h
    next new =>
      obtain ⟨_, -, h⟩ := bind_eq_ok.1 h
      obtain ⟨_, -, h⟩ := bind_eq_ok.1 h
      obtain ⟨apart, unseen⟩ := ih h
      have others : ∀ s ∈ targets, t.2.className ≠ s.2.className ∧
          seen.lookup s.2.className = none := by
        intro s hs
        have fresh := unseen s hs
        rw [List.lookup_cons] at fresh
        split at fresh
        · cases fresh
        next differs => exact ⟨fun same => by simp [same] at differs, fresh⟩
      exact ⟨List.pairwise_cons.2 ⟨fun s hs => (others s hs).1, apart⟩,
        List.forall_mem_cons.2 ⟨new, fun s hs => (others s hs).2⟩⟩

section Accepted
variable {c : Config} {target property : String} {e : Entity}

theorem IsAccepted.classes (accepted : c.IsAccepted) :
    c.targets.entries.Pairwise fun s t => s.2.className ≠ t.2.className := by
  obtain ⟨given, valid⟩ := accepted
  obtain ⟨_, checked, valid⟩ := bind_eq_ok.1 valid
  obtain ⟨_, -, valid⟩ := bind_eq_ok.1 valid
  cases valid
  -- Filling in columns leaves the classes as they are.
  exact List.pairwise_map.2 (classes_of_checkTargets checked).1

theorem entity_eq_ok : c.entity target = .ok e ↔ c.target? target = some e := by
  rw [entity]
  cases c.target? target <;> simp

theorem IsAccepted.classTarget?_of_entity (accepted : c.IsAccepted)
    (h : c.entity target = .ok e) : c.classTarget? e.className = some (target, e) := by
  obtain ⟨before, after, entries⟩ :=
    List.append_of_mem (Dict.mem_of_get? (entity_eq_ok.1 h))
  have classes := accepted.classes
  rw [entries, List.pairwise_append] at classes
  refine List.find?_eq_some_iff_append.2 ⟨by simp, before, after, entries, fun s hs => ?_⟩
  simpa using classes.2.2 s hs (target, e) List.mem_cons_self

theorem IsAccepted.metadata?_of_entity (accepted : c.IsAccepted) (h : c.entity target = .ok e) :
    c.metadata? e.className property = e.fields.get? property := by
  rw [metadata?, accepted.classTarget?_of_entity h]
  rfl

end Accepted
end Config

namespace Compiler
open Cli

/-- A rule that is run by the class of its own target is run by the target: the query is the same, or
the fault is. -/
theorem classQuery_of_targetClass {c : Compiler}
    (accepted : c.config.IsAccepted ∨ c.config = .helpdesk) (rule : Rule) :
    (do
      let className ← Invocation.targetClass c.config rule none
      c.classQuery rule.grouping className) = c.ruleQuery rule := by
  replace accepted : c.config.IsAccepted := by
    rcases accepted with accepted | standard
    · exact accepted
    · exact standard ▸ Config.isAccepted_helpdesk
  rw [Invocation.targetClass, ruleQuery]
  cases found : c.config.entity rule.target with
  | error f =>
    rw [targetQuery, found]
    rfl
  | ok e =>
    have byClass : c.config.targetByClass e.className = .ok rule.target := by
      rw [Config.targetByClass, accepted.classTarget?_of_entity found]
    have back : c.classQuery rule.grouping e.className =
        c.targetQuery rule.grouping rule.target := by
      rw [classQuery, byClass]
      rfl
    exact back

end Compiler

namespace TwoTargets
open Cli

def given : Config where
  priorities := .standard
  targets := Dict.ofList [
    ("chore", ⟨"Chore", "chores", Dict.ofList [("title", ⟨"", .text⟩)]⟩),
    ("task", ⟨"Task", "tasks", Dict.ofList [("title", ⟨"", .text⟩)]⟩)]
  strategies := none

def config : Config := given.withColumns

def compiler : Compiler := .ofConfig config .epoch

def rule : Rule :=
  ⟨"invoices", "task", ⟨"and",
    [⟨"field", (ConditionParameters.binary "like" (.text "%invoice%")).withProperty "title"⟩], []⟩⟩

/-- The class of the second target leads to its own table and not to that of the first. -/
theorem classQuery_task : config.IsAccepted ∧ ∃ q,
    (do
      let className ← Invocation.targetClass config rule none
      compiler.classQuery rule.grouping className) = .ok q ∧
    compiler.ruleQuery rule = .ok q ∧ q.table = "tasks" := by
  have accepted : config.IsAccepted := ⟨given, rfl⟩
  obtain ⟨q, compiled, table⟩ : ∃ q, compiler.ruleQuery rule = .ok q ∧ q.table = "tasks" :=
    ⟨_, rfl, rfl⟩
  have same := Compiler.classQuery_of_targetClass (c := compiler) (.inl accepted) rule
  exact ⟨accepted, q, same.trans compiled, compiled, table⟩

end TwoTargets
end Helpdesk
