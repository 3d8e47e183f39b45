import Helpdesk.Document.TomlSyntax
import Helpdesk.Document.Reader
import Helpdesk.Fault
import Helpdesk.Text.Utf8

/-! Documents in files. The file is read first, and must be text; then the extension of its name decides
how the text is understood. -/

namespace Helpdesk.Document

structure File where
  name : String
  content : Option (List UInt8)
deriving Repr

def pathParts : List Char → List (List Char)
  | [] => [[]]
  | c :: cs =>
    if c = '/' then [] :: pathParts cs
    else match pathParts cs with
      | [] => [[c]]
      | part :: parts => (c :: part) :: parts

/-- The part of a file name behind its last dot, if something stands in front of the dot. -/
def extension (name : List Char) : List Char :=
  let behind := (name.reverse.takeWhile (· ≠ '.')).reverse
  if behind.length + 1 < name.length ∧ name ≠ ['.', '.'] then behind else []

def extensionOf (path : String) : List Char :=
  extension ((pathParts path.toList).getLast?.getD [])

def ofJsonText {α : Type} (r : Reader α) (s : String) : Outcome α :=
  match (ofJson? s).bind (Reader.ofJson r) with
  | some a => .ok a
  | none => .error .unreadableJson

def ofTomlText {α : Type} (r : Reader α) (s : String) : Outcome α :=
  match (ofToml? s).bind (Reader.ofToml r) with
  | some a => .ok a
  | none => .error .unreadableToml

def File.load {α : Type} (r : Reader α) (file : File) : Outcome α :=
  match file.content.bind Text.Utf8.decode? with
  | none => .error .unreadableFile
  | some s =>
    let ext := extensionOf file.name
    if ext = ['t', 'o', 'm', 'l'] then ofTomlText r s
    else if ext = ['j', 's', 'o', 'n'] then ofJsonText r s
    else .error (.unsupportedFile file.name)

end Helpdesk.Document
