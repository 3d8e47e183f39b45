import Helpdesk.Text.Blank
import Helpdesk.Time.Rfc3339

/-! The commands of the program and the parameters that they take. Each parameter says which texts it
accepts, by its name on the command line and by its place. -/

namespace Helpdesk.Cli

inductive Format
  | text
  | json
deriving Repr, DecidableEq, Inhabited

def Format.ofName? (s : String) : Option Format :=
  if s = "text" then some .text else if s = "json" then some .json else none

inductive FileKind
  | rule
  | config
deriving Repr, DecidableEq, Inhabited

def FileKind.ofName? (s : String) : Option FileKind :=
  if s = "rule" then some .rule else if s = "config" then some .config else none

def shellNames : List String := ["bash", "elvish", "fish", "powershell", "zsh"]

inductive Command
  /-- List the records that a rule matches. -/
  | targets (rule : String) (className : Option String) (format : Format)
  /-- Show the statement of a rule. -/
  | explain (rule : String) (className : Option String) (format : Format)
  /-- Preview the notification about the latest change of a ticket. -/
  | notify (ticket recipient : String) (format : Format)
  /-- Show what a kind of file may contain. -/
  | schema (kind : FileKind)
  | completions (shell : String)
deriving Repr, DecidableEq

structure Invocation where
  configPath : Option String
  dbPath : Option String
  /-- The moment that ages are counted from, instead of the present. -/
  now : Option Time.Instant
  command : Command
deriving Repr

inductive Parameter
  | config
  | db
  | now
  | rule
  | className
  | format
  | ticket
  | recipient
  | fileKind
  | shell
deriving Repr, DecidableEq

namespace Parameter

def longName? : Parameter → Option String
  | .config => some "config"
  | .db => some "db"
  | .now => some "now"
  | .className => some "class"
  | .format => some "output"
  | .recipient => some "recipient"
  | _ => none

def letter? : Parameter → Option Char
  | .config => some 'c'
  | .format => some 'o'
  | .recipient => some 'r'
  | _ => none

/-- Paths are not empty, names are not blank, and all else has to be known. -/
def accepts : Parameter → String → Bool
  | .config, s => !s.isEmpty
  | .db, s => !s.isEmpty
  | .rule, s => !s.isEmpty
  | .now, s => (Time.Instant.ofText? s).isSome
  | .className, s => !Text.isBlankText s
  | .ticket, s => !Text.isBlankText s
  | .recipient, s => !Text.isBlankText s
  | .format, s => (Format.ofName? s).isSome
  | .fileKind, s => (FileKind.ofName? s).isSome
  | .shell, s => shellNames.contains s

end Parameter

structure Level where
  named : List Parameter
  placed : List Parameter
  /-- What has to be given. -/
  required : List Parameter
  hasVersion : Bool
deriving Repr, DecidableEq

namespace Level

def shared : List Parameter := [.config, .db, .now]

def outer : Level := ⟨shared, [], [], true⟩

def ofCommand? (name : String) : Option Level :=
  if name = "targets" ∨ name = "explain" then
    some ⟨[.className, .format] ++ shared, [.rule], [.rule], false⟩
  else if name = "notify" then
    some ⟨[.recipient, .format] ++ shared, [.ticket], [.ticket, .recipient], false⟩
  else if name = "schema" then some ⟨shared, [.fileKind], [.fileKind], false⟩
  else if name = "completions" then some ⟨shared, [.shell], [.shell], false⟩
  else none

def long? (level : Level) (name : List Char) : Option Parameter :=
  level.named.find? fun p => p.longName?.map String.toList == some name

def letter? (level : Level) (c : Char) : Option Parameter :=
  level.named.find? fun p => p.letter? == some c

end Level
end Helpdesk.Cli
