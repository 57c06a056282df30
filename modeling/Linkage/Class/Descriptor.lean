import Linkage.Table

/-!
# Type descriptors

A field or method type is written as a descriptor such as `(I[Ljava/lang/String;)V`, in which an
object type is a class name between `L` and `;`. No primitive code is an `L`, so from a place
outside a class name the next `L` opens one.
-/

namespace Linkage.Descriptor

/-- Where a scan of a descriptor stands. -/
inductive Scan where
  /-- Between class names. -/
  | outside
  /-- Inside a class name, with the characters read so far, the last one first. -/
  | inside (name : List Char)
  deriving DecidableEq, Repr

/-- Reads on from a place, given the names found so far. A name that no `;` ends is none. -/
def scan : Scan → List String → List Char → List String
  | _, found, [] => found
  | .outside, found, c :: rest =>
    if c = 'L' then scan (.inside []) found rest else scan .outside found rest
  | .inside name, found, c :: rest =>
    if c = ';' then
      let found' := if name.isEmpty then found else insertNew found (String.ofList name.reverse)
      scan .outside found' rest
    else scan (.inside (c :: name)) found rest

/-- The classes that a descriptor names, in order of first occurrence. -/
def classes (descriptor : String) : List String :=
  scan .outside [] descriptor.toList

end Linkage.Descriptor
