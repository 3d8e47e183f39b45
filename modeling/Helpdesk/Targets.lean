import Helpdesk.Compiler
import Helpdesk.Store.Select

/-! The targets of a rule: the records that it finds in a database, among those of a class or among those
of its own target type. -/

namespace Helpdesk.Store

def classTargets (s : Store) (c : Compiler) (rule : Rule) (className : String) :
    Outcome (List Record) := do
  let q ← c.classQuery rule.grouping className
  s.execute q

def classTargets? (s : Store) (c : Compiler) (rule : Rule) (className : String) :
    Option (List Record) :=
  (s.classTargets c rule className).toOption

def ruleTargets (s : Store) (c : Compiler) (rule : Rule) : Outcome (List Record) := do
  let q ← c.ruleQuery rule
  s.execute q

end Helpdesk.Store
