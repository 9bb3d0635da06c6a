/-!
# Reading bytes as text

Bytes that are meant to be UTF-8 but need not be. Every longest run of bytes
that begins a character and does not end it counts as **one replacement
character**, and so does every byte that begins none.
-/
namespace Scaffold.Text

/-- A character that has been begun: the bits so far, the bounds of the next
byte, and how many bytes are to follow that one. -/
structure Begun where
  bits : Nat
  lo : Nat
  hi : Nat
  more : Nat
  deriving DecidableEq, Repr

/-- The character that stands for bytes that are none. -/
def replacement : Char := '\ufffd'

/-- What a byte at the beginning of a character gives: a character, or the
beginning of one. -/
def beginChar (b : Nat) : List Char × Option Begun :=
  if b < 0x80 then ([Char.ofNat b], none)
  else if 0xC2 ≤ b && b ≤ 0xDF then ([], some ⟨b - 0xC0, 0x80, 0xBF, 0⟩)
  else if 0xE0 ≤ b && b ≤ 0xEF then
    ([], some ⟨b - 0xE0, if b == 0xE0 then 0xA0 else 0x80, if b == 0xED then 0x9F else 0xBF, 1⟩)
  else if 0xF0 ≤ b && b ≤ 0xF4 then
    ([], some ⟨b - 0xF0, if b == 0xF0 then 0x90 else 0x80, if b == 0xF4 then 0x8F else 0xBF, 2⟩)
  else ([replacement], none)

/-- The characters of the bytes behind the beginning of a character. -/
def decodeFrom : Option Begun → List UInt8 → List Char
  | none, [] => []
  | some _, [] => [replacement]
  | none, b :: bs =>
    let (cs, begun) := beginChar b.toNat
    cs ++ decodeFrom begun bs
  | some s, b :: bs =>
    if s.lo ≤ b.toNat && b.toNat ≤ s.hi then
      let bits := 64 * s.bits + (b.toNat - 0x80)
      match s.more with
      | 0 => Char.ofNat bits :: decodeFrom none bs
      | n + 1 => decodeFrom (some ⟨bits, 0x80, 0xBF, n⟩) bs
    else
      let (cs, begun) := beginChar b.toNat
      replacement :: cs ++ decodeFrom begun bs

/-- The characters of bytes. -/
def decode (bs : List UInt8) : List Char := decodeFrom none bs

end Scaffold.Text
