import Linkage.Class.Index
import Linkage.Json.Decode

/-!
# Records of classes

Class definitions as JSON values and back. In a record that is read, everything but the name may be
left out.
-/

namespace Linkage

open Json (Value)
open Json.Decode

/-- What access flags say, flag by flag. -/
def AccessFlags.toJson (a : AccessFlags) : Value :=
  .record [("public", .bool a.isPublic), ("private", .bool a.isPrivate),
    ("protected", .bool a.isProtected), ("static", .bool a.isStatic), ("final", .bool a.isFinal),
    ("interface", .bool a.isInterface), ("abstract", .bool a.isAbstract),
    ("synthetic", .bool a.isSynthetic), ("level_display", .text a.level.display)]

namespace Member

/-- The member as a list of its parts. -/
def toJson (m : Member) : Value :=
  .list [.text m.name, .text m.descriptor, .count m.access.bits.toNat, .bool m.deprecated]

/-- Reads a member; it is public and not deprecated unless the list says otherwise. -/
def ofJson? (v : Value) : Option Member :=
  return ⟨← nth v 0 text, ← nth v 1 text, ⟨← nthD v 2 word16 1⟩, ← nthD v 3 truth false⟩

end Member

namespace MemberRef

/-- The word for a kind of member. -/
def kindWord : MemberKind → String
  | .field => "field"
  | .method => "method"
  | .interfaceMethod => "imethod"

/-- The kind that a word stands for. -/
def kind? : String → Option MemberKind
  | "field" => some .field
  | "method" => some .method
  | "imethod" => some .interfaceMethod
  | _ => none

/-- The reference as a list of its parts. -/
def toJson (r : MemberRef) : Value := .texts [kindWord r.kind, r.owner, r.name, r.descriptor]

/-- Reads a reference. -/
def ofJson? (v : Value) : Option MemberRef :=
  return ⟨← nth v 0 text >>= kind?, ← nth v 1 text, ← nth v 2 text, ← nth v 3 text⟩

end MemberRef

namespace ClassDefinition

/-- The version of classes that do not say theirs. -/
def usualMajor : UInt16 := 52

def toJson (c : ClassDefinition) : Value :=
  .record [("name", .text c.name), ("super", Value.ofOption .text c.super),
    ("access", .count c.access.bits.toNat), ("interfaces", .texts c.interfaces),
    ("methods", .list (c.methods.map Member.toJson)), ("fields", .list (c.fields.map Member.toJson)),
    ("class_refs", .texts c.classRefs), ("member_refs", .list (c.memberRefs.map MemberRef.toJson)),
    ("deprecated", .bool c.deprecated), ("major", .count c.major.toNat)]

/-- Reads a class. -/
def ofJson? (v : Value) : Option ClassDefinition :=
  return {
    name := ← need v "name" text
    super := ← opt v "super" text
    access := ⟨← getD v "access" word16 1⟩
    interfaces := ← texts v "interfaces"
    methods := ← items v "methods" Member.ofJson?
    fields := ← items v "fields" Member.ofJson?
    classRefs := ← texts v "class_refs"
    memberRefs := ← items v "member_refs" MemberRef.ofJson?
    deprecated := ← flag v "deprecated"
    major := ← getD v "major" word16 usualMajor }

end ClassDefinition

/-- The classes of an index, by name. -/
def ClassIndex.toJson (i : ClassIndex) : Value :=
  .record [("name", .text i.name), ("classes", .list (i.sorted.map ClassDefinition.toJson))]

end Linkage
