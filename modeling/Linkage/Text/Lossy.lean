/-!
# Reading bytes as text

Bytes that are well-formed UTF-8 read as the characters they encode. Where they are not, each
maximal run of bytes that could still have begun a character reads as one replacement character,
and reading goes on with the byte that ended the run.

The reader is a fold over the bytes: between characters it holds nothing, inside one it holds the
bits read so far and the ranges that the bytes still owed must lie in.
-/

namespace Linkage.Text

/-- The character that stands for bytes that encode none. -/
def replacement : Char := Char.ofNat 0xFFFD

/-- A character that has begun: its bits so far, and the range of each byte still owed. -/
structure OpenChar where
  bits : Nat
  owed : List (UInt8 × UInt8)
  deriving DecidableEq, Repr

/-- Any continuation byte. -/
def anyTail : UInt8 × UInt8 := (0x80, 0xBF)

/-- What the first byte of a character promises, or nothing when no character begins so. The
second byte is restricted where a wider range would admit overlong forms, surrogates or values
above the last code point. -/
def OpenChar.ofLead (b : UInt8) : Option OpenChar :=
  if b < 0x80 then some ⟨b.toNat, []⟩
  else if b < 0xC2 then none
  else if b < 0xE0 then some ⟨b.toNat - 0xC0, [anyTail]⟩
  else if b = 0xE0 then some ⟨0, [(0xA0, 0xBF), anyTail]⟩
  else if b = 0xED then some ⟨0xD, [(0x80, 0x9F), anyTail]⟩
  else if b < 0xF0 then some ⟨b.toNat - 0xE0, [anyTail, anyTail]⟩
  else if b = 0xF0 then some ⟨0, [(0x90, 0xBF), anyTail, anyTail]⟩
  else if b < 0xF4 then some ⟨b.toNat - 0xF0, [anyTail, anyTail, anyTail]⟩
  else if b = 0xF4 then some ⟨4, [(0x80, 0x8F), anyTail, anyTail]⟩
  else none

/-- The text read so far, last character first, and the character that is open. -/
structure Decoding where
  chars : List Char
  pending : Option OpenChar
  deriving DecidableEq, Repr

/-- An open character that owes nothing more is written down. -/
def Decoding.settle (chars : List Char) (c : OpenChar) : Decoding :=
  match c.owed with
  | [] => ⟨Char.ofNat c.bits :: chars, none⟩
  | _ => ⟨chars, some c⟩

/-- A byte read between characters. -/
def Decoding.lead (chars : List Char) (b : UInt8) : Decoding :=
  match OpenChar.ofLead b with
  | some c => settle chars c
  | none => ⟨replacement :: chars, none⟩

/-- One more byte. A byte outside the range owed ends the open character and begins anew. -/
def Decoding.step (d : Decoding) (b : UInt8) : Decoding :=
  match d.pending with
  | none => lead d.chars b
  | some ⟨_, []⟩ => lead d.chars b
  | some ⟨bits, (lo, hi) :: owed⟩ =>
    if lo ≤ b ∧ b ≤ hi then settle d.chars ⟨bits * 64 + (b.toNat - 0x80), owed⟩
    else lead (replacement :: d.chars) b

/-- The text once the bytes have ended. -/
def Decoding.finish (d : Decoding) : String :=
  match d.pending with
  | none => String.ofList d.chars.reverse
  | some _ => String.ofList (replacement :: d.chars).reverse

/-- The text that `bytes` stand for. -/
def decodeLossy (bytes : List UInt8) : String :=
  (bytes.foldl Decoding.step ⟨[], none⟩).finish

/-- The UTF-8 bytes of a text. -/
def utf8 (s : String) : List UInt8 :=
  s.toUTF8.data.toList

/-- Bytes that are well-formed UTF-8 throughout, as text. -/
def decodeStrict? (bytes : List UInt8) : Option String :=
  let text := decodeLossy bytes
  if utf8 text = bytes then some text else none

end Linkage.Text
