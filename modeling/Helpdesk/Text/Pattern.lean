/-! Search patterns of the database: `%` stands for any text, `_` for one character, and every other
character for itself. ASCII letters match without regard to case, other letters do not. There is no
escape, and a text ends at its first `NUL`. -/

namespace Helpdesk.Text.Pattern

def foldAscii (c : Char) : Char :=
  if 'A' ≤ c ∧ c ≤ 'Z' then Char.ofNat (c.toNat + 32) else c

def sameLetter (a b : Char) : Bool := foldAscii a == foldAscii b

def anyTail (rest : List Char → Bool) : List Char → Bool
  | [] => rest []
  | c :: cs => rest (c :: cs) || anyTail rest cs

def matchesChars : List Char → List Char → Bool
  | [], text => text.isEmpty
  | p :: ps, text =>
    if p = '%' then anyTail (matchesChars ps) text
    else match text with
      | [] => false
      | c :: cs => (p = '_' || sameLetter p c) && matchesChars ps cs

def upToNul (s : String) : List Char := s.toList.takeWhile (· ≠ '\x00')

/-- Whether `text` matches `pattern` from its first character to its last. -/
def matchesText (pattern text : String) : Bool :=
  matchesChars (upToNul pattern) (upToNul text)

@[simp] theorem matchesChars_percent (ps text : List Char) :
    matchesChars ('%' :: ps) text = anyTail (matchesChars ps) text := by
  simp [matchesChars]

end Helpdesk.Text.Pattern
