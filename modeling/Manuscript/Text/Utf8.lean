/-! Text from bytes. Bytes that encode no text are shown as one all the same: there is a replacement character
for a character that breaks off, up to the first byte that cannot belong to it, and for a byte that begins no
character. -/
namespace Manuscript.Text

def ofUtf8? (bytes : List UInt8) : Option String := String.fromUTF8? ⟨bytes.toArray⟩

def toUtf8 (s : String) : List UInt8 := s.toUTF8.data.toList

def replacement : Char := Char.ofNat 0xFFFD

/-- A character of which some bytes were read: their bits, the bounds of the next byte and the number of
those after it. -/
structure Begun where
  bits : Nat
  low : Nat := 0x80
  high : Nat := 0xBF
  more : Nat
  low_ge : 0x80 ≤ low := by decide

namespace Begun

/-! Characters of two bytes, three and four, by their first byte. The narrower bounds keep out characters written
too long, surrogates, and numbers above the last character. -/

def two (b : Nat) : Begun := { bits := b - 0xC0, more := 0 }

def three (b : Nat) : Begun where
  bits := b - 0xE0
  low := if b = 0xE0 then 0xA0 else 0x80
  high := if b = 0xED then 0x9F else 0xBF
  more := 1
  low_ge := by split <;> decide

def four (b : Nat) : Begun where
  bits := b - 0xF0
  low := if b = 0xF0 then 0x90 else 0x80
  high := if b = 0xF4 then 0x8F else 0xBF
  more := 2
  low_ge := by split <;> decide

def of? (b : Nat) : Option Begun :=
  if 0xC2 ≤ b ∧ b ≤ 0xDF then some (two b)
  else if 0xE0 ≤ b ∧ b ≤ 0xEF then some (three b)
  else if 0xF0 ≤ b ∧ b ≤ 0xF4 then some (four b)
  else none

end Begun

def first (b : UInt8) : List Char × Option Begun :=
  if b.toNat < 0x80 then ([Char.ofNat b.toNat], none)
  else match Begun.of? b.toNat with
    | some c => ([], some c)
    | none => ([replacement], none)

def Begun.next (c : Begun) (b : UInt8) : List Char × Option Begun :=
  if c.low ≤ b.toNat ∧ b.toNat ≤ c.high then
    let bits := 64 * c.bits + (b.toNat - 0x80)
    match c.more with
    | 0 => ([Char.ofNat bits], none)
    | more + 1 => ([], some { bits, more })
  -- the byte is not lost, as it may begin a character
  else (replacement :: (first b).1, (first b).2)

def lossyFrom : Option Begun → List UInt8 → List Char
  | none, [] => []
  | some _, [] => [replacement]
  | none, b :: bytes => (first b).1 ++ lossyFrom (first b).2 bytes
  | some c, b :: bytes => (c.next b).1 ++ lossyFrom (c.next b).2 bytes

/-- Bytes as a text, with a replacement character for what encodes none. -/
def lossy (bytes : List UInt8) : String := String.ofList (lossyFrom none bytes)

end Manuscript.Text
