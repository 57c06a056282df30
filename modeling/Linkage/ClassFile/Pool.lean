import Linkage.Class.Definition
import Linkage.ClassFile.Error

/-!
# Constant pools

The constants of a class file stand in numbered slots. Slot 0 is never used, and a constant of eight
bytes takes two slots, neither of which can be referred to as a text, a class or a signature.
-/

namespace Linkage.ClassFile

/-- What stands in one slot. -/
inductive Constant where
  /-- A text. -/
  | text (value : String)
  /-- A class, by the slot of its name. -/
  | classAt (name : UInt16)
  /-- A member's name and descriptor, by their slots. -/
  | signature (name descriptor : UInt16)
  /-- A member of a class, by the slots of the class and of the signature. -/
  | member (kind : MemberKind) (owner signature : UInt16)
  /-- A constant that says nothing about linkage, or a slot that holds none. -/
  | other
  deriving DecidableEq, Repr, Inhabited

/-- The constants by slot. -/
abbrev Pool := Array Constant

namespace Pool

/-- The text in a slot. -/
def text (pool : Pool) (index : UInt16) : Except Defect String :=
  match pool[index.toNat]? with
  | some (.text value) => .ok value
  | _ => .error (.badIndex index)

/-- The name of the class in a slot. -/
def className (pool : Pool) (index : UInt16) : Except Defect String :=
  match pool[index.toNat]? with
  | some (.classAt name) => pool.text name
  | _ => .error (.badIndex index)

/-- The name and the descriptor in a slot. -/
def signature (pool : Pool) (index : UInt16) : Except Defect (String × String) :=
  match pool[index.toNat]? with
  | some (.signature name descriptor) => do
    let n ← pool.text name
    let d ← pool.text descriptor
    return (n, d)
  | _ => .error (.badIndex index)

end Pool

end Linkage.ClassFile
