import Helpdesk.Document.JsonNumber

/-! Reading JSON text. `ofJson?` accepts exactly one value with blanks around it. Parts that have the
right form but no value, such as a number that is too large or half a surrogate pair, are kept as
unreadable, because a reader may skip them. -/

namespace Helpdesk.Document

def isJsonBlank (c : Char) : Bool := c == ' ' || c == '\n' || c == '\t' || c == '\r'

def skipBlank (cs : List Char) : List Char := cs.dropWhile isJsonBlank

def hexDigit? (c : Char) : Option Nat :=
  if '0' ≤ c ∧ c ≤ '9' then some (c.toNat - '0'.toNat)
  else if 'a' ≤ c ∧ c ≤ 'f' then some (c.toNat - 'a'.toNat + 10)
  else if 'A' ≤ c ∧ c ≤ 'F' then some (c.toNat - 'A'.toNat + 10)
  else none

def hexNumber? (cs : List Char) : Option Nat :=
  (cs.mapM hexDigit?).map fun ds => ds.foldl (fun n d => n * 16 + d) 0

def escaped? (c : Char) : Option Nat :=
  if c = '"' ∨ c = '\\' ∨ c = '/' then some c.toNat
  else if c = 'b' then some 0x08
  else if c = 'f' then some 0x0C
  else if c = 'n' then some 0x0A
  else if c = 'r' then some 0x0D
  else if c = 't' then some 0x09
  else none

def codeUnits? : List Char → Option (List Nat × List Char)
  | [] => none
  | '"' :: cs => some ([], cs)
  | '\\' :: 'u' :: a :: b :: c :: d :: cs => do
    let n ← hexNumber? [a, b, c, d]
    let (ns, cs) ← codeUnits? cs
    some (n :: ns, cs)
  | '\\' :: c :: cs => do
    let n ← escaped? c
    let (ns, cs) ← codeUnits? cs
    some (n :: ns, cs)
  | c :: cs =>
    if c.toNat < 0x20 ∨ c = '\\' then none
    else do
      let (ns, cs) ← codeUnits? cs
      some (c.toNat :: ns, cs)

def isHighSurrogate (n : Nat) : Bool := 0xD800 ≤ n && n < 0xDC00

def isLowSurrogate (n : Nat) : Bool := 0xDC00 ≤ n && n < 0xE000

/-- The characters of code units; a surrogate counts only as half of a pair. -/
def characters? : List Nat → Option (List Char)
  | [] => some []
  | [n] => if isHighSurrogate n ∨ isLowSurrogate n then none else some [Char.ofNat n]
  | n :: m :: ns =>
    if isHighSurrogate n then
      if isLowSurrogate m then
        (characters? ns).map (Char.ofNat (0x10000 + (n - 0xD800) * 0x400 + (m - 0xDC00)) :: ·)
      else none
    else if isLowSurrogate n then none
    else (characters? (m :: ns)).map (Char.ofNat n :: ·)

/-- A quoted text behind its opening quote; `none` inside when it is no sequence of characters. -/
def quotedText? (cs : List Char) : Option (Option String × List Char) :=
  (codeUnits? cs).map fun (ns, cs) => ((characters? ns).map String.ofList, cs)

def textDocument : Option String → Document
  | some s => .text s
  | none => .unreadable

def literal? (word : List Char) (d : Document) (cs : List Char) : Option (Document × List Char) :=
  if cs.take word.length = word then some (d, cs.drop word.length) else none

/-- A table can only be skipped when one of its keys is no text. -/
def tableOf (members : List (Option String × Document)) : Document :=
  match members.mapM fun (k, d) => k.map fun k => (k, d) with
  | some members => .table members
  | none => .unreadable

mutual
/-- A value at the front of the text. The first argument bounds the number of steps. -/
def value? : Nat → List Char → Option (Document × List Char)
  | 0, _ => none
  | fuel + 1, cs =>
    match skipBlank cs with
    | '"' :: cs => (quotedText? cs).map fun (s, cs) => (textDocument s, cs)
    | '[' :: cs =>
      match skipBlank cs with
      | ']' :: cs => some (.list [], cs)
      | cs => (items? fuel cs).map fun (ds, cs) => (.list ds, cs)
    | '\x7b' :: cs =>
      match skipBlank cs with
      | '\x7d' :: cs => some (.table [], cs)
      | cs => (members? fuel cs).map fun (ms, cs) => (tableOf ms, cs)
    | 't' :: cs => literal? ['r', 'u', 'e'] (.bool true) cs
    | 'f' :: cs => literal? ['a', 'l', 's', 'e'] (.bool false) cs
    | 'n' :: cs => literal? ['u', 'l', 'l'] .null cs
    | cs => (scanNumeral? cs).map fun (n, cs) => (n.document, cs)

def items? : Nat → List Char → Option (List Document × List Char)
  | 0, _ => none
  | fuel + 1, cs =>
    match value? fuel cs with
    | none => none
    | some (d, cs) =>
      match skipBlank cs with
      | ',' :: cs => (items? fuel cs).map fun (ds, cs) => (d :: ds, cs)
      | ']' :: cs => some ([d], cs)
      | _ => none

def members? : Nat → List Char → Option (List (Option String × Document) × List Char)
  | 0, _ => none
  | fuel + 1, cs =>
    match skipBlank cs with
    | '"' :: cs =>
      match quotedText? cs with
      | none => none
      | some (k, cs) =>
        match skipBlank cs with
        | ':' :: cs =>
          match value? fuel cs with
          | none => none
          | some (d, cs) =>
            match skipBlank cs with
            | ',' :: cs => (members? fuel cs).map fun (ms, cs) => ((k, d) :: ms, cs)
            | '\x7d' :: cs => some ([(k, d)], cs)
            | _ => none
        | _ => none
    | _ => none
end

def stepBound (cs : List Char) : Nat := 2 * cs.length + 2

def ofJson? (s : String) : Option Document :=
  match value? (stepBound s.toList) s.toList with
  | some (d, rest) => if skipBlank rest = [] then some d else none
  | none => none

end Helpdesk.Document
