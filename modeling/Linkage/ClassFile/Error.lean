import Linkage.Json.Value

/-!
# Defects of a class file
-/

namespace Linkage.ClassFile

/-- Why bytes are no class file. -/
inductive Defect where
  /-- The file does not begin with the class-file magic number. -/
  | invalidMagic (found : UInt32)
  /-- The bytes end before the file does. -/
  | truncated
  /-- A constant has a tag that no kind of constant has. -/
  | unknownTag (tag : UInt8) (index : UInt16)
  /-- An index does not point to a constant of the kind needed there. -/
  | badIndex (index : UInt16)
  deriving DecidableEq, Repr

/-- The eight hexadecimal digits of a word. -/
def hexDigits (w : UInt32) : String :=
  let digits := Nat.toDigits 16 w.toNat
  String.ofList (List.replicate (8 - digits.length) '0' ++ digits)

namespace Defect

def message : Defect → String
  | .invalidMagic found => "Invalid magic number 0x" ++ hexDigits found
  | .truncated => "Class file is truncated"
  | .unknownTag tag index =>
    "Unknown constant pool tag " ++ toString tag ++ " at index " ++ toString index
  | .badIndex index =>
    "Constant pool index " ++ toString index ++ " does not point to the expected entry"

def toJson (d : Defect) : Json.Value :=
  let kind := match d with
    | .invalidMagic _ => "InvalidMagic"
    | .truncated => "Truncated"
    | .unknownTag _ _ => "UnknownConstantTag"
    | .badIndex _ => "BadConstantIndex"
  .failure kind d.message

end Defect

end Linkage.ClassFile
