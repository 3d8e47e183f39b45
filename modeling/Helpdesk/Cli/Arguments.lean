import Helpdesk.Cli.Command

/-! Reading the command line. The words are read from left to right at two levels, in front of the command
and behind its name. The text of a parameter is judged when the next parameter begins or its level ends,
unless it is attached to the name; so a plea for help is heard unless something is wrong before it. -/

namespace Helpdesk.Cli

inductive Interruption
  | help
  | version
  /-- The words do not make a command. -/
  | misuse
deriving Repr, DecidableEq

abbrev Parsed (α : Type) := Except Interruption α

abbrev Assignments := List (Parameter × String)

inductive Word
  /-- Two dashes alone: all words behind are plain. -/
  | divider
  | long (name : List Char) (attached : Option (List Char))
  | letters (first : Char) (rest : List Char)
  | plain
deriving Repr, DecidableEq

def splitEquals (cs : List Char) : List Char × Option (List Char) :=
  match cs.dropWhile (· ≠ '=') with
  | [] => (cs, none)
  | _ :: value => (cs.takeWhile (· ≠ '='), some value)

def Word.ofText (s : String) : Word :=
  match s.toList with
  | ['-', '-'] => .divider
  | '-' :: '-' :: cs => .long (splitEquals cs).1 (splitEquals cs).2
  | '-' :: c :: cs => .letters c cs
  | _ => .plain

structure Pending where
  parameter : Parameter
  text : Option String
deriving Repr

structure Progress where
  given : Assignments
  pending : Option Pending
  /-- The parameters that plain words are still for. -/
  places : List Parameter
  onlyPlain : Bool
deriving Repr

namespace Progress

def start (level : Level) : Progress := ⟨[], none, level.placed, false⟩

def assign (p : Progress) (parameter : Parameter) (s : String) : Parsed Progress :=
  if p.given.any (fun g => g.1 == parameter) || !parameter.accepts s then .error .misuse
  else .ok { p with given := (parameter, s) :: p.given }

def settle (p : Progress) : Parsed Progress :=
  match p.pending with
  | none => .ok p
  | some ⟨_, none⟩ => .error .misuse
  | some ⟨parameter, some s⟩ => { p with pending := none }.assign parameter s

def isWaiting (p : Progress) : Bool :=
  match p.pending with
  | some ⟨_, none⟩ => !p.onlyPlain
  | _ => false

def takeNamed (p : Progress) (parameter : Parameter) (attached : Option (List Char)) :
    Parsed Progress := do
  let p ← p.settle
  match attached with
  | some cs => p.assign parameter (String.ofList cs)
  | none => .ok { p with pending := some ⟨parameter, none⟩ }

def interrupt (p : Progress) (interruption : Interruption) : Parsed Progress := do
  let _ ← p.settle
  .error interruption

def takeLong (level : Level) (p : Progress) (name : List Char) (attached : Option (List Char)) :
    Parsed Progress :=
  match level.long? name with
  | some parameter => p.takeNamed parameter attached
  | none =>
    if attached.isSome then .error .misuse
    else if name = ['h', 'e', 'l', 'p'] then p.interrupt .help
    else if name = ['v', 'e', 'r', 's', 'i', 'o', 'n'] ∧ level.hasVersion then p.interrupt .version
    else .error .misuse

def attachedText : List Char → Option (List Char)
  | [] => none
  | '=' :: cs => some cs
  | cs => some cs

def takeLetter (level : Level) (p : Progress) (c : Char) (rest : List Char) : Parsed Progress :=
  match level.letter? c with
  | some parameter => p.takeNamed parameter (attachedText rest)
  | none =>
    if c = 'h' then p.interrupt .help
    else if c = 'V' ∧ level.hasVersion then p.interrupt .version
    else .error .misuse

/-- A plain word is the text that a named parameter waits for, or goes to the next place. -/
def takePlain (p : Progress) (s : String) : Parsed Progress :=
  match p.isWaiting, p.pending, p.places with
  | true, some ⟨parameter, _⟩, _ => .ok { p with pending := some ⟨parameter, some s⟩ }
  | _, _, [] => .error .misuse
  | _, _, place :: places => do
    let p ← p.settle
    .ok { p with pending := some ⟨place, some s⟩, places }

def take (level : Level) (p : Progress) (s : String) : Parsed Progress :=
  if p.onlyPlain then p.takePlain s
  else match Word.ofText s with
    | .divider => .ok { p with onlyPlain := true }
    | .long name attached => p.takeLong level name attached
    | .letters c rest => p.takeLetter level c rest
    | .plain => p.takePlain s

def finish (level : Level) (p : Progress) : Parsed Assignments := do
  let p ← p.settle
  if level.required.all fun r => p.given.any fun g => g.1 == r then .ok p.given
  else .error .misuse

end Progress

def readInner (level : Level) (p : Progress) : List String → Parsed Assignments
  | [] => p.finish level
  | word :: words => do
    let p ← p.take level word
    readInner level p words

def readHelp : List String → Interruption
  | [] => .help
  | [name] => if name = "help" ∨ (Level.ofCommand? name).isSome then .help else .misuse
  | _ => .misuse

def commandOf? (name : String) (given : Assignments) : Option Command :=
  let format := ((given.lookup .format).bind Format.ofName?).getD .text
  if name = "targets" then
    (given.lookup .rule).map fun rule => .targets rule (given.lookup .className) format
  else if name = "explain" then
    (given.lookup .rule).map fun rule => .explain rule (given.lookup .className) format
  else if name = "notify" then do
    some (.notify (← given.lookup .ticket) (← given.lookup .recipient) format)
  else if name = "schema" then ((given.lookup .fileKind).bind FileKind.ofName?).map .schema
  else if name = "completions" then (given.lookup .shell).map .completions
  else none

def invocationOf? (name : String) (outer inner : Assignments) : Option Invocation :=
  let given := inner ++ outer
  (commandOf? name inner).map fun command =>
    { configPath := given.lookup .config
      dbPath := given.lookup .db
      now := (given.lookup .now).bind Time.Instant.ofText?
      command }

/-- Reads the words in front of the command; it begins with the first plain word that no parameter waits
for. -/
def readOuter (p : Progress) : List String → Parsed Invocation
  | [] => .error .misuse
  | word :: words =>
    match Level.ofCommand? word, p.isWaiting || p.onlyPlain with
    | some level, false => do
      let inner ← readInner level (.start level) words
      let outer ← p.finish .outer
      match invocationOf? word outer inner with
      | some invocation => .ok invocation
      | none => .error .misuse
    | _, busy =>
      if word = "help" ∧ !busy then .error (readHelp words)
      else do
        let p ← p.take .outer word
        readOuter p words

def Invocation.ofWords (words : List String) : Parsed Invocation := readOuter (.start .outer) words

end Helpdesk.Cli
