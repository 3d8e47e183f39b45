/-! Bytes read as UTF-8. The bytes fall into scalar values and maximal ill-formed parts;
a strict reading accepts only texts without such parts, a lenient one shows each as `U+FFFD`. -/

namespace Helpdesk.Text.Utf8

inductive Part
  | scalar (c : Char)
  | broken
deriving Repr, DecidableEq

/-- The range that the second byte of a sequence must lie in, and how many bytes follow the first. -/
def lead (b : Nat) : Option (Nat × Nat × Nat) :=
  if 0xC2 ≤ b ∧ b ≤ 0xDF then some (0x80, 0xBF, 1)
  else if b = 0xE0 then some (0xA0, 0xBF, 2)
  else if b = 0xED then some (0x80, 0x9F, 2)
  else if 0xE1 ≤ b ∧ b ≤ 0xEF then some (0x80, 0xBF, 2)
  else if b = 0xF0 then some (0x90, 0xBF, 3)
  else if 0xF1 ≤ b ∧ b ≤ 0xF3 then some (0x80, 0xBF, 3)
  else if b = 0xF4 then some (0x80, 0x8F, 3)
  else none

def leadBits (b more : Nat) : Nat := b % Nat.pow 2 (6 - more)

/-- Inside a sequence: the value so far, the range of the next byte and how many bytes are missing. -/
structure Pending where
  value : Nat
  low : Nat
  high : Nat
  missing : Nat
deriving Repr

def partsFrom : Option Pending → List Nat → List Part
  | none, [] => []
  | some _, [] => [.broken]
  | none, b :: bs =>
    if b < 0x80 then .scalar (Char.ofNat b) :: partsFrom none bs
    else match lead b with
      | some (low, high, more) => partsFrom (some ⟨leadBits b more, low, high, more⟩) bs
      | none => .broken :: partsFrom none bs
  | some p, b :: bs =>
    if p.low ≤ b ∧ b ≤ p.high then
      let value := p.value * 64 + b % 64
      if p.missing ≤ 1 then .scalar (Char.ofNat value) :: partsFrom none bs
      else partsFrom (some ⟨value, 0x80, 0xBF, p.missing - 1⟩) bs
    else
      .broken ::
        (if b < 0x80 then .scalar (Char.ofNat b) :: partsFrom none bs
         else match lead b with
          | some (low, high, more) => partsFrom (some ⟨leadBits b more, low, high, more⟩) bs
          | none => .broken :: partsFrom none bs)

def parts (bytes : List UInt8) : List Part := partsFrom none (bytes.map UInt8.toNat)

def Part.scalar? : Part → Option Char
  | .scalar c => some c
  | .broken => none

def decode? (bytes : List UInt8) : Option String :=
  ((parts bytes).mapM Part.scalar?).map String.ofList

def decodeLossy (bytes : List UInt8) : String :=
  String.ofList ((parts bytes).map fun p => p.scalar?.getD '\uFFFD')

def encode (s : String) : List UInt8 := s.toUTF8.toList

end Helpdesk.Text.Utf8
