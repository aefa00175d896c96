/-!
# Bytes as text

Text is read from bytes even where they are not well-formed: each longest beginning of a character
that is not completed becomes one replacement character.

The reader is a machine with one register.  A first byte tells how many bytes follow it and in which
range the second one must lie; that range rules out overlong forms, surrogates and numbers beyond
the last character, so that later bytes need no further test.  A byte outside the range ends the
incomplete character with a replacement and is then read as a first byte itself.
-/

namespace TestLanes.Text

def replacement : Char := '\ufffd'

/-- How many bytes follow a first byte, and the range of the second one. -/
def continuation? (b : UInt8) : Option (Nat × UInt8 × UInt8) :=
  if 0xC2 ≤ b && b ≤ 0xDF then some (1, 0x80, 0xBF)
  else if b = 0xE0 then some (2, 0xA0, 0xBF)
  else if b = 0xED then some (2, 0x80, 0x9F)
  else if 0xE1 ≤ b && b ≤ 0xEF then some (2, 0x80, 0xBF)
  else if b = 0xF0 then some (3, 0x90, 0xBF)
  else if 0xF1 ≤ b && b ≤ 0xF3 then some (3, 0x80, 0xBF)
  else if b = 0xF4 then some (3, 0x80, 0x8F)
  else none

def leadBits (b : UInt8) : Nat :=
  if b < 0xE0 then b.toNat % 32 else if b < 0xF0 then b.toNat % 16 else b.toNat % 8

/-- A character that is not complete: its bits so far, how many bytes are missing, and the range of
the next one. -/
structure Partial where
  bits : Nat
  missing : Nat
  low : UInt8
  high : UInt8

/-- Begins a character, or gives the one that a byte is by itself. -/
def begin (b : UInt8) : List Char × Option Partial :=
  if b < 0x80 then ([Char.ofNat b.toNat], none)
  else
    match continuation? b with
    | some (n, low, high) => ([], some ⟨leadBits b, n, low, high⟩)
    | none => ([replacement], none)

/-- The characters of bytes behind an incomplete character or none. -/
def decodeFrom : Option Partial → List UInt8 → List Char
  | none, [] => []
  | some _, [] => [replacement]
  | none, b :: bs =>
    let (cs, p) := begin b
    cs ++ decodeFrom p bs
  | some p, b :: bs =>
    if p.low ≤ b && b ≤ p.high then
      let bits := p.bits * 64 + b.toNat % 64
      if p.missing ≤ 1 then Char.ofNat bits :: decodeFrom none bs
      else decodeFrom (some ⟨bits, p.missing - 1, 0x80, 0xBF⟩) bs
    else
      let (cs, q) := begin b
      replacement :: (cs ++ decodeFrom q bs)

def decode (bytes : List UInt8) : String := String.ofList (decodeFrom none bytes)

end TestLanes.Text
