import Helpdesk.Document
import Helpdesk.Double.Layout

/-! The written form of a document as JSON. Texts escape the quote, the backslash and the control
characters below `U+0020`, nothing else. Numbers that JSON cannot hold are written as `null`. The
compact form has no blanks; the broad form puts every item on a line of its own. -/

namespace Helpdesk.Document

def hexPair (n : Nat) : List Char := [Nat.digitChar (n / 16 % 16), Nat.digitChar (n % 16)]

def escapeChar (c : Char) : List Char :=
  if c = '"' then ['\\', '"']
  else if c = '\\' then ['\\', '\\']
  else if c = '\x08' then ['\\', 'b']
  else if c = '\t' then ['\\', 't']
  else if c = '\n' then ['\\', 'n']
  else if c = '\x0c' then ['\\', 'f']
  else if c = '\r' then ['\\', 'r']
  else if c.toNat < 0x20 then '\\' :: 'u' :: '0' :: '0' :: hexPair c.toNat
  else [c]

def quoted (s : String) : List Char := '"' :: s.toList.flatMap escapeChar ++ ['"']

def nullText : List Char := ['n', 'u', 'l', 'l']

def scalarText : Document → List Char
  | .bool true => ['t', 'r', 'u', 'e']
  | .bool false => ['f', 'a', 'l', 's', 'e']
  | .int i => Text.Decimal.ofInt i
  | .real d => match d.toDocument? with
    | some s => s.toList
    | none => nullText
  | .text s => quoted s
  | _ => nullText

def separated (separator : List Char) : List (List Char) → List Char
  | [] => []
  | [part] => part
  | part :: parts => part ++ separator ++ separated separator parts

mutual
def compactText : Document → List Char
  | .list items => '[' :: separated [','] (compactItems items) ++ [']']
  | .table members => '{' :: separated [','] (compactMembers members) ++ ['}']
  | d => scalarText d

def compactItems : List Document → List (List Char)
  | [] => []
  | d :: ds => compactText d :: compactItems ds

def compactMembers : List (String × Document) → List (List Char)
  | [] => []
  | (k, d) :: ms => (quoted k ++ ':' :: compactText d) :: compactMembers ms
end

def newLine (level : Nat) : List Char := '\n' :: List.replicate (2 * level) ' '

def bracketed (left right : Char) (level : Nat) (items : List (List Char)) : List Char :=
  if items.isEmpty then [left, right]
  else left :: newLine (level + 1) ++ separated (',' :: newLine (level + 1)) items ++
    newLine level ++ [right]

mutual
def broadText (level : Nat) : Document → List Char
  | .list items => bracketed '[' ']' level (broadItems (level + 1) items)
  | .table members => bracketed '{' '}' level (broadMembers (level + 1) members)
  | d => scalarText d

def broadItems (level : Nat) : List Document → List (List Char)
  | [] => []
  | d :: ds => broadText level d :: broadItems level ds

def broadMembers (level : Nat) : List (String × Document) → List (List Char)
  | [] => []
  | (k, d) :: ms => (quoted k ++ ':' :: ' ' :: broadText level d) :: broadMembers level ms
end

def toJson (d : Document) : String := String.ofList d.compactText

def toBroadJson (d : Document) : String := String.ofList (d.broadText 0)

end Helpdesk.Document
