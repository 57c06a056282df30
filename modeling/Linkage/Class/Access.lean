/-!
# Access flags

The sixteen flag bits that a class, method or field carries, the predicates read off them, and the
four levels of visibility with their order.
-/

namespace Linkage

/-- The flag bits of a class or of one of its members. -/
structure AccessFlags where
  bits : UInt16
  deriving DecidableEq, Repr, Inhabited

/-- Who may use a member, from the fewest to the most. -/
inductive AccessLevel where
  | nestmates
  | packageOnly
  | subclasses
  | everyone
  deriving DecidableEq, Repr

namespace AccessFlags

/-- Usable by everyone. -/
def publicBit : UInt16 := 0x0001
/-- Usable inside the top-level class only. -/
def privateBit : UInt16 := 0x0002
/-- Usable by the package and by subclasses. -/
def protectedBit : UInt16 := 0x0004
/-- Belongs to the class and not to its objects. -/
def staticBit : UInt16 := 0x0008
/-- Must not be overridden or extended. -/
def finalBit : UInt16 := 0x0010
/-- Marks an interface. -/
def interfaceBit : UInt16 := 0x0200
/-- Has no body, or may not be instantiated. -/
def abstractBit : UInt16 := 0x0400
/-- Made by a compiler. -/
def syntheticBit : UInt16 := 0x1000

/-- All bits of `flag` are set. -/
def contains (a : AccessFlags) (flag : UInt16) : Bool := a.bits &&& flag == flag

/-- The flags with the bits of `flag` set too. -/
def adding (a : AccessFlags) (flag : UInt16) : AccessFlags := ⟨a.bits ||| flag⟩

def isPublic (a : AccessFlags) : Bool := a.contains publicBit
def isPrivate (a : AccessFlags) : Bool := a.contains privateBit
def isProtected (a : AccessFlags) : Bool := a.contains protectedBit
def isStatic (a : AccessFlags) : Bool := a.contains staticBit
def isFinal (a : AccessFlags) : Bool := a.contains finalBit
def isInterface (a : AccessFlags) : Bool := a.contains interfaceBit
def isAbstract (a : AccessFlags) : Bool := a.contains abstractBit
def isSynthetic (a : AccessFlags) : Bool := a.contains syntheticBit

/-- The level that the flags grant; of several visibility bits the widest counts. -/
def level (a : AccessFlags) : AccessLevel :=
  if a.isPublic then .everyone
  else if a.isProtected then .subclasses
  else if a.isPrivate then .nestmates
  else .packageOnly

end AccessFlags

namespace AccessLevel

/-- The level's place in the order. -/
def rank : AccessLevel → Nat
  | .nestmates => 0
  | .packageOnly => 1
  | .subclasses => 2
  | .everyone => 3

instance : LT AccessLevel := ⟨fun a b => a.rank < b.rank⟩

instance (a b : AccessLevel) : Decidable (a < b) :=
  inferInstanceAs (Decidable (a.rank < b.rank))

/-- The level as reports write it. -/
def display : AccessLevel → String
  | .nestmates => "private"
  | .packageOnly => "package-private"
  | .subclasses => "protected"
  | .everyone => "public"

end AccessLevel

end Linkage
