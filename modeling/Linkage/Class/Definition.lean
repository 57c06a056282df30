import Linkage.Class.Access
import Linkage.Class.Name

/-!
# Class definitions

What a compiled class says about itself: its parents, its members, and the classes and members that
its code refers to.
-/

namespace Linkage

/-- A method or a field that a class declares. -/
structure Member where
  name : String
  descriptor : String
  access : AccessFlags
  deprecated : Bool
  deriving DecidableEq, Repr, Inhabited

/-- What a reference to a member expects to find. -/
inductive MemberKind where
  | field
  | method
  | interfaceMethod
  deriving DecidableEq, Repr

/-- A use of a member by name. -/
structure MemberRef where
  kind : MemberKind
  owner : String
  name : String
  descriptor : String
  deriving DecidableEq, Repr

/-- A compiled class. -/
structure ClassDefinition where
  name : String
  access : AccessFlags
  /-- The declared superclass; only the root of the hierarchy truly has none. -/
  super : Option String
  /-- The interfaces it implements or, for an interface, extends. -/
  interfaces : List String
  methods : List Member
  fields : List Member
  /-- The classes that it names, itself apart. -/
  classRefs : List String
  /-- The members that it uses. -/
  memberRefs : List MemberRef
  deprecated : Bool
  major : UInt16
  deriving DecidableEq, Repr

namespace Member

/-- Makes an object of its class. -/
def isConstructor (m : Member) : Bool := m.name == "<init>"

/-- Sets up its class. -/
def isStaticInitializer (m : Member) : Bool := m.name == "<clinit>"

/-- Has the given name and descriptor. -/
def isCalled (m : Member) (name descriptor : String) : Bool :=
  m.name == name && m.descriptor == descriptor

end Member

namespace ClassDefinition

def isInterface (c : ClassDefinition) : Bool := c.access.isInterface
def isAbstract (c : ClassDefinition) : Bool := c.access.isAbstract
def isFinal (c : ClassDefinition) : Bool := c.access.isFinal

/-- Has objects of its own, so that every method it inherits needs a body. -/
def isConcrete (c : ClassDefinition) : Bool := !c.isInterface && !c.isAbstract

/-- The declared method of that name and descriptor, the first of several. -/
def findMethod (c : ClassDefinition) (name descriptor : String) : Option Member :=
  c.methods.find? (·.isCalled name descriptor)

/-- The declared field of that name and descriptor, the first of several. -/
def findField (c : ClassDefinition) (name descriptor : String) : Option Member :=
  c.fields.find? (·.isCalled name descriptor)

/-- The superclass that a class extends: the declared one, else the root of the hierarchy, which
alone extends nothing. -/
def parent? (c : ClassDefinition) : Option String :=
  match c.super with
  | some name => some name
  | none => if c.name = ClassName.root then none else some ClassName.root

end ClassDefinition

end Linkage
