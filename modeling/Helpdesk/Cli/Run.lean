import Helpdesk.Cli.Arguments
import Helpdesk.Cli.FileSchema
import Helpdesk.Cli.Report
import Helpdesk.Cli.Surroundings
import Helpdesk.Store.Desk
import Helpdesk.Targets

/-! Running commands. A command reads its configuration first, then its rule, then opens the database; it
either has an output or fails. -/

namespace Helpdesk.Cli

def programName : String := "desk-rules"

def version : String := "0.4.0"

def standardDbPath : String := "desk.db"

def usage : String :=
  "Usage: desk-rules [-c <path>] [--db <path>] [--now <time>] <command>\n\n" ++
    "Commands:\n" ++
    "  targets <rule> [--class <class>] [-o text|json]\n" ++
    "  explain <rule> [--class <class>] [-o text|json]\n" ++
    "  notify <ticket> -r <recipient> [-o text|json]\n" ++
    "  schema rule|config\n" ++
    "  completions bash|elvish|fish|powershell|zsh\n"

namespace Invocation

def paths (i : Invocation) (e : Environment) : List String :=
  let rule := match i.command with
    | .targets rule _ _ => [rule]
    | .explain rule _ _ => [rule]
    | _ => []
  (i.configPath.or e.configPath?).toList ++ rule ++ [(i.dbPath.or e.dbPath?).getD standardDbPath]

def config (i : Invocation) (s : Surroundings) : Outcome Config :=
  match i.configPath.or s.environment.configPath? with
  | some path => Config.load (s.file path)
  | none => .ok Config.helpdesk

def store (i : Invocation) (s : Surroundings) : Outcome Store :=
  s.database ((i.dbPath.or s.environment.dbPath?).getD standardDbPath)

def compiler (i : Invocation) (s : Surroundings) (config : Config) : Compiler :=
  .ofConfig config (i.now.getD s.now)

/-- The class that a rule is run against: one that is given, or that of its own target. -/
def targetClass (config : Config) (rule : Rule) : Option String → Outcome String
  | some className => .ok className
  | none => (config.entity rule.target).map Entity.className

def written (format : Format) (text : String) (document : Document) : String :=
  match format with
  | .text => text
  | .json => document.toBroadJson

def explain (i : Invocation) (s : Surroundings) (path : String) (className : Option String) :
    Outcome Explanation := do
  let config ← i.config s
  let rule ← Rule.load (s.file path)
  let className ← targetClass config rule className
  let q ← (i.compiler s config).classQuery rule.grouping className
  .ok ⟨rule.name, className, ← q.statement⟩

def matching (i : Invocation) (s : Surroundings) (path : String) (className : Option String) :
    Outcome Matches := do
  let config ← i.config s
  let rule ← Rule.load (s.file path)
  let store ← i.store s
  let className ← targetClass config rule className
  .ok ⟨rule.name, className, ← store.classTargets (i.compiler s config) rule className⟩

def previewOf (store : Store) (key recipient : String) : Outcome Preview := do
  let ticket ← store.ticket key
  match ← store.logEntries ticketObject ticket.id with
  | [] => .error (.noChanges ticket.key)
  | entry :: _ => do
    let changes ← EntityChanges.ofTicket store.logEntries ticket entry
    let options ← Notice.options store.directory entry.action ticket changes.fields recipient
    .ok ⟨Notice.subject ticket, options, changes.attachments⟩

def preview (i : Invocation) (s : Surroundings) (key recipient : String) : Outcome Preview := do
  let _ ← i.config s
  previewOf (← i.store s) key recipient

def schema : FileKind → Document
  | .rule => FileSchema.ruleFile
  | .config => FileSchema.configFile

def completions : String :=
  Predicate.joinTexts "\n" ["targets", "explain", "notify", "schema", "completions", "help"]

def output (i : Invocation) (s : Surroundings) : Outcome String :=
  match i.command with
  | .targets rule className format =>
    (i.matching s rule className).map fun m => written format m.toText m.toDocument
  | .explain rule className format =>
    (i.explain s rule className).map fun e => written format e.toText e.toDocument
  | .notify ticket recipient format =>
    (i.preview s ticket recipient).map fun p => written format p.toText p.toDocument
  | .schema kind => .ok (schema kind).toBroadJson
  | .completions _ => .ok completions

end Invocation

inductive Ending
  | done (output : String)
  | help
  | misuse
  | failed (fault : Fault)
deriving Repr

def run (words : List String) (s : Surroundings) : Ending :=
  match Invocation.ofWords words with
  | .error .help => .help
  | .error .version => .done (programName ++ " " ++ version ++ "\n")
  | .error .misuse => .misuse
  | .ok invocation =>
    match invocation.output s with
    | .ok output => .done (output ++ "\n")
    | .error fault => .failed fault

end Helpdesk.Cli
