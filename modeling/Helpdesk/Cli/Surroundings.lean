import Helpdesk.Cli.Environment
import Helpdesk.Document.File
import Helpdesk.Store.Select

/-! What a command finds around it: files and databases under their paths, the environment, and the
time. -/

namespace Helpdesk.Cli

def pathSteps (path : String) : List (List Char) :=
  (Document.pathParts path.toList).filter fun step => !step.isEmpty && step != ['.']

def isAbsolute (path : String) : Bool := path.toList.head? == some '/'

def samePath (a b : String) : Bool := isAbsolute a == isAbsolute b && pathSteps a == pathSteps b

def leadsToFile (path : String) : Bool :=
  match (Document.pathParts path.toList).getLast? with
  | some step => !step.isEmpty && step != ['.']
  | none => false

structure Surroundings where
  files : List Document.File
  databases : List (String × Store)
  environment : Environment
  now : Time.Instant

namespace Surroundings

/-- The file at a path; if files share a path the last one counts. -/
def file (s : Surroundings) (path : String) : Document.File :=
  let found := s.files.reverse.find? fun f =>
    f.content.isSome && leadsToFile path && samePath f.name path
  ⟨path, found.bind Document.File.content⟩

def inMemory : String := ":memory:"

/-- The database at a path, brought up to date. One that is not there yet has no rows, and a file with
other content is none. -/
def database (s : Surroundings) (path : String) : Outcome Store :=
  if path = inMemory then .ok Store.fresh
  else match s.databases.find? fun d => samePath d.1 path with
    | some (_, store) => Store.outcome store.upgrade
    | none =>
      match (s.file path).content with
      | some (_ :: _) => .error (.storage .notDatabase)
      | _ => .ok Store.fresh

end Surroundings
end Helpdesk.Cli
