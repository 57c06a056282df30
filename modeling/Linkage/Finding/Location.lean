import Linkage.Class.Definition
import Linkage.Json.Value

/-!
# Locations

The places that findings point to: a class, a method or a field.
-/

namespace Linkage

open Json (Value)

/-- A member by its class, name and descriptor. -/
structure MemberPlace where
  owner : String
  name : String
  descriptor : String
  deriving DecidableEq, Repr

namespace MemberPlace

/-- The place that a reference points to. -/
def ofRef (r : MemberRef) : MemberPlace := ⟨r.owner, r.name, r.descriptor⟩

/-- The place of a member of a class. -/
def ofMember (c : ClassDefinition) (m : Member) : MemberPlace := ⟨c.name, m.name, m.descriptor⟩

/-- The place as that of a method. -/
def asMethod (p : MemberPlace) : String :=
  ClassName.dotted p.owner ++ "." ++ p.name ++ p.descriptor

/-- The place as that of a field. -/
def asField (p : MemberPlace) : String :=
  ClassName.dotted p.owner ++ "." ++ p.name ++ " : " ++ p.descriptor

def toJson (p : MemberPlace) : Value :=
  .record [("owner", .text p.owner), ("name", .text p.name), ("descriptor", .text p.descriptor)]

end MemberPlace

/-- Where a finding was made. -/
inductive Location where
  | inClass (className : String)
  | inMethod (place : MemberPlace)
  | inField (place : MemberPlace)
  deriving DecidableEq, Repr

namespace Location

/-- The class that holds the place. -/
def className : Location → String
  | .inClass name => name
  | .inMethod place => place.owner
  | .inField place => place.owner

def display : Location → String
  | .inClass name => "class " ++ ClassName.dotted name
  | .inMethod place => "method " ++ place.asMethod
  | .inField place => "field " ++ place.asField

/-- A class as a record. -/
def classJson (name : String) : Value := .record [("class_name", .text name)]

def toJson : Location → Value
  | .inClass name => .record [("Class", classJson name)]
  | .inMethod place => .record [("Method", place.toJson)]
  | .inField place => .record [("Field", place.toJson)]

end Location

end Linkage
