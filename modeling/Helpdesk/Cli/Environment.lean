import Helpdesk.Cli.LogFilter
import Helpdesk.Dict

/-! The environment of a command: variables that say where the configuration and the database are, what
is logged, and whether help is coloured. -/

namespace Helpdesk.Cli

structure Environment where
  settings : Dict String
deriving Repr

namespace Environment

def logFilter? (e : Environment) : Option String :=
  (e.settings.get? "DESK_LOG").filter fun s => !s.isEmpty

def logFilter (e : Environment) : String :=
  match e.logFilter? with
  | some s => if LogFilter.isValid s then s else "warn"
  | none => "warn"

def configPath? (e : Environment) : Option String := e.settings.get? "DESK_CONFIG"

def dbPath? (e : Environment) : Option String := e.settings.get? "DESK_DB"

/-- Colours can be refused and demanded; else a terminal has them. -/
def colorize (e : Environment) (onTerminal : Bool) : Bool :=
  if e.settings.get? "NO_COLOR" = some "1" then false
  else if e.settings.get? "COLOR" = some "1" then true
  else onTerminal

end Environment
end Helpdesk.Cli
