/-!
# Natural numbers in settings

A number is written with decimal digits, which may follow a plus sign, and takes at most 64 bits.
-/

namespace Linkage.Text

/-- The number that decimal digits stand for; nothing if another character is among them. -/
def digitsToNat? (ds : List Char) : Option Nat :=
  ds.foldlM (fun n d => if '0' ≤ d ∧ d ≤ '9' then some (n * 10 + (d.toNat - 0x30)) else none) 0

/-- The digits without the plus sign before them. -/
def withoutPlus : List Char → List Char
  | '+' :: ds => ds
  | ds => ds

/-- The number of at most 64 bits that a text stands for. -/
def natural? (s : String) : Option Nat :=
  match withoutPlus s.toList with
  | [] => none
  | ds => (digitsToNat? ds).filter (· < UInt64.size)

end Linkage.Text
