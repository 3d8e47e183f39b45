import Helpdesk.Document.TomlScalar
import Helpdesk.Document.TomlTree

/-! Reading TOML text: lines of keys and values, and headers that say to which table they belong. Arrays
and inline tables go over several lines, may end with a comma, and are nested at most 80 levels deep. -/

namespace Helpdesk.Document.Toml

def isPrintable (c : Char) : Bool := c == '\t' || (0x20 ≤ c.toNat && c.toNat != 0x7F)

def skipSpace (cs : List Char) : List Char := cs.dropWhile fun c => c == ' ' || c == '\t'

def lineBreak? : List Char → Option (List Char)
  | '\n' :: cs => some cs
  | '\r' :: '\n' :: cs => some cs
  | _ => none

def lineEnd? (cs : List Char) : Option (List Char) :=
  let rest := match skipSpace cs with
    | '#' :: cs => cs.dropWhile isPrintable
    | cs => cs
  if rest = [] then some [] else lineBreak? rest

def skipFiller (inComment : Bool) : List Char → Option (List Char)
  | [] => some []
  | '\n' :: cs => skipFiller false cs
  | '\r' :: '\n' :: cs => skipFiller false cs
  | c :: cs =>
    if inComment then (if isPrintable c then skipFiller true cs else none)
    else if c = ' ' ∨ c = '\t' then skipFiller false cs
    else if c = '#' then skipFiller true cs
    else some (c :: cs)

def scalarValue? (n : Nat) : Option Char :=
  if n < 0xD800 ∨ (0xE000 ≤ n ∧ n < 0x110000) then some (Char.ofNat n) else none

def codePoint? (n : Nat) (cs : List Char) : Option (Char × List Char) :=
  if cs.length < n then none
  else (hexNumber? (cs.take n)).bind fun code => (scalarValue? code).map fun c => (c, cs.drop n)

def escape? : List Char → Option (Char × List Char)
  | 'b' :: cs => some ('\x08', cs)
  | 't' :: cs => some ('\t', cs)
  | 'n' :: cs => some ('\n', cs)
  | 'f' :: cs => some ('\x0c', cs)
  | 'r' :: cs => some ('\r', cs)
  | 'e' :: cs => some ('\x1b', cs)
  | '"' :: cs => some ('"', cs)
  | '\\' :: cs => some ('\\', cs)
  | 'x' :: cs => codePoint? 2 cs
  | 'u' :: cs => codePoint? 4 cs
  | 'U' :: cs => codePoint? 8 cs
  | _ => none

def basicText? : Nat → List Char → Option (List Char × List Char)
  | 0, _ => none
  | _, [] => none
  | _, '"' :: cs => some ([], cs)
  | fuel + 1, '\\' :: cs => do
    let (c, cs) ← escape? cs
    let (body, cs) ← basicText? fuel cs
    some (c :: body, cs)
  | fuel + 1, c :: cs =>
    if isPrintable c then (basicText? fuel cs).map fun (body, cs) => (c :: body, cs) else none

def literalText? : List Char → Option (List Char × List Char)
  | [] => none
  | '\'' :: cs => some ([], cs)
  | c :: cs =>
    if isPrintable c then (literalText? cs).map fun (body, cs) => (c :: body, cs) else none

def continued? (cs : List Char) : Option (List Char) :=
  (lineBreak? (skipSpace cs)).map fun cs =>
    cs.dropWhile fun c => c == ' ' || c == '\t' || c == '\n' || c == '\r'

/-- Quotes that are not the end of a text of several lines, or the end with up to two quotes before it. -/
def closing? (quote : Char) (cs : List Char) : Bool × List Char × List Char :=
  let run := cs.takeWhile (· == quote)
  let rest := cs.dropWhile (· == quote)
  if run.length < 3 then (false, run, rest)
  else
    let inner := min (run.length - 3) 2
    (true, run.take inner, run.drop (inner + 3) ++ rest)

def longText? (quote : Char) : Nat → List Char → Option (List Char × List Char)
  | 0, _ => none
  | _, [] => none
  | fuel + 1, c :: cs =>
    if c = quote then
      match closing? quote (c :: cs) with
      | (true, inner, rest) => some (inner, rest)
      | (false, inner, rest) =>
        (longText? quote fuel rest).map fun (body, cs) => (inner ++ body, cs)
    else match lineBreak? (c :: cs) with
      | some rest => (longText? quote fuel rest).map fun (body, cs) => ('\n' :: body, cs)
      | none =>
        if c = '\\' ∧ quote = '"' then
          match continued? cs with
          | some rest => longText? quote fuel rest
          | none => do
            let (c, cs) ← escape? cs
            let (body, cs) ← longText? quote fuel cs
            some (c :: body, cs)
        else if isPrintable c then
          (longText? quote fuel cs).map fun (body, cs) => (c :: body, cs)
        else none

/-- A line break right behind the opening quotes does not count. -/
def skipFirstBreak (cs : List Char) : List Char := (lineBreak? cs).getD cs

def quotedValue? : List Char → Option (List Char × List Char)
  | '"' :: '"' :: '"' :: cs => longText? '"' (cs.length + 1) (skipFirstBreak cs)
  | '\'' :: '\'' :: '\'' :: cs => longText? '\'' (cs.length + 1) (skipFirstBreak cs)
  | '"' :: cs => basicText? (cs.length + 1) cs
  | '\'' :: cs => literalText? cs
  | _ => none

def isBareChar (c : Char) : Bool := c.isAlphanum || c == '_' || c == '-'

def keyPart? : List Char → Option (String × List Char)
  | '"' :: cs => (basicText? (cs.length + 1) cs).map fun (body, cs) => (String.ofList body, cs)
  | '\'' :: cs => (literalText? cs).map fun (body, cs) => (String.ofList body, cs)
  | cs =>
    let part := cs.takeWhile isBareChar
    if part = [] then none else some (String.ofList part, cs.dropWhile isBareChar)

def key? : Nat → List Char → Option (List String × List Char)
  | 0, _ => none
  | fuel + 1, cs => do
    let (part, cs) ← keyPart? (skipSpace cs)
    match skipSpace cs with
    | '.' :: cs => (key? fuel cs).map fun (parts, cs) => (part :: parts, cs)
    | cs => some ([part], cs)

def keyAndSign? (cs : List Char) : Option (List String × List Char) := do
  let (keys, cs) ← key? (cs.length + 1) cs
  match cs with
  | '=' :: cs => some (keys, cs)
  | _ => none

mutual
/-- A value behind its spaces. `room` levels may be entered, and `fuel` bounds the number of steps. -/
def value? (fuel : Nat) (room : Nat) (cs : List Char) : Option (Document × List Char) :=
  match fuel with
  | 0 => none
  | fuel + 1 =>
    match skipSpace cs with
    | '[' :: cs =>
      match room with
      | 0 => none
      | room + 1 => (items? fuel room cs).map fun (items, cs) => (.list items, cs)
    | '\x7b' :: cs =>
      match room with
      | 0 => none
      | room + 1 =>
        (inlineMembers? fuel room [] cs).map fun (members, cs) => (.table (Tree.memberDocuments members), cs)
    | c :: cs =>
      if c = '"' ∨ c = '\'' then
        (quotedValue? (c :: cs)).map fun (body, cs) => (.text (String.ofList body), cs)
      else
        let (front, rest) := word (c :: cs)
        (scalar? front).map fun d => (d, rest)
    | [] => none

def items? (fuel : Nat) (room : Nat) (cs : List Char) : Option (List Document × List Char) :=
  match fuel with
  | 0 => none
  | fuel + 1 => do
    let cs ← skipFiller false cs
    match cs with
    | ']' :: cs => some ([], cs)
    | cs => do
      let (d, cs) ← value? fuel room cs
      let cs ← skipFiller false cs
      match cs with
      | ']' :: cs => some ([d], cs)
      | ',' :: cs => (items? fuel room cs).map fun (ds, cs) => (d :: ds, cs)
      | _ => none

def inlineMembers? (fuel : Nat) (room : Nat) (members : Tree.Members) (cs : List Char) :
    Option (Tree.Members × List Char) :=
  match fuel with
  | 0 => none
  | fuel + 1 => do
    let cs ← skipFiller false cs
    match cs with
    | '\x7d' :: cs => some (members, cs)
    | cs => do
      let (keys, cs) ← keyAndSign? cs
      let (d, cs) ← value? fuel room cs
      let members ← Tree.add keys d members
      let cs ← skipFiller false cs
      match cs with
      | '\x7d' :: cs => some (members, cs)
      | ',' :: cs => inlineMembers? fuel room members cs
      | _ => none
end

def inlineRoom : Nat := 80

structure State where
  root : Tree.Members
  header : List String

def header? (closing : List Char) (cs : List Char) : Option (List String × List Char) := do
  let (keys, cs) ← key? (cs.length + 1) cs
  if cs.take closing.length = closing then some (keys, cs.drop closing.length) else none

def openAt (change : String → Tree.Members → Option Tree.Members) (keys : List String)
    (root : Tree.Members) : Option Tree.Members :=
  match keys.getLast? with
  | none => none
  | some last => Tree.atPath (change last) keys.dropLast root

def line? (s : State) (cs : List Char) : Option (State × List Char) :=
  match skipSpace cs with
  | '[' :: '[' :: cs => do
    let (keys, cs) ← header? [']', ']'] cs
    let root ← openAt Tree.openElement keys s.root
    some (⟨root, keys⟩, cs)
  | '[' :: cs => do
    let (keys, cs) ← header? [']'] cs
    let root ← openAt Tree.openTable keys s.root
    some (⟨root, keys⟩, cs)
  | cs => do
    let (keys, cs) ← keyAndSign? cs
    let (d, cs) ← value? (2 * cs.length + 2) inlineRoom cs
    let root ← Tree.atPath (Tree.add keys d) s.header s.root
    some (⟨root, s.header⟩, cs)

def isEmptyLine (cs : List Char) : Bool :=
  match skipSpace cs with
  | [] => true
  | c :: _ => c == '#' || c == '\n' || c == '\r'

def lines? : Nat → State → List Char → Option State
  | _, s, [] => some s
  | 0, _, _ => none
  | fuel + 1, s, cs =>
    if isEmptyLine cs then (lineEnd? cs).bind (lines? fuel s)
    else do
      let (s, cs) ← line? s cs
      let cs ← lineEnd? cs
      lines? fuel s cs

def skipMark : List Char → List Char
  | c :: cs => if c = '\uFEFF' then cs else c :: cs
  | [] => []

end Helpdesk.Document.Toml

namespace Helpdesk.Document

def ofToml? (s : String) : Option Document :=
  let cs := Toml.skipMark s.toList
  (Toml.lines? (cs.length + 1) ⟨[], []⟩ cs).map fun state =>
    .table (Tree.memberDocuments state.root)

end Helpdesk.Document
