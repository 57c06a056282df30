import Linkage.Class.Record
import Linkage.ClassFile.Writer

/-!
# Drafting class files step by step

A step adds one thing to a draft. It is a list that begins with the word for what is added.
-/

namespace Linkage.ClassFile.Draft

open Json (Value)
open Json.Decode

/-- A member as a step declares it. -/
def declared? (v : Value) (deprecated : Bool) : Option Member :=
  return ⟨← nth v 1 text, ← nth v 2 text, ⟨← nthD v 3 word16 1⟩, deprecated⟩

/-- The draft with a member reference as a step names it. -/
def refer? (d : Draft) (v : Value) (kind : MemberKind) : Option Draft :=
  return { d with
    memberRefs := d.memberRefs ++ [⟨kind, ← nth v 1 text, ← nth v 2 text, ← nth v 3 text⟩] }

/-- The draft after a step. -/
def extend? (d : Draft) (v : Value) : Option Draft := do
  match ← nth v 0 text with
  | "super" => return { d with super := some (← nth v 1 text) }
  | "interface" => return { d with interfaces := d.interfaces ++ [← nth v 1 text] }
  | "field" => return { d with fields := d.fields ++ [← declared? v false] }
  | "method" => return { d with methods := d.methods ++ [← declared? v false] }
  | "deprecated_method" => return { d with methods := d.methods ++ [← declared? v true] }
  | "deprecated" => return { d with deprecated := true }
  | "method_ref" => d.refer? v .method
  | "imethod_ref" => d.refer? v .interfaceMethod
  | "field_ref" => d.refer? v .field
  | "class_ref" => return { d with classRefs := d.classRefs ++ [← nth v 1 text] }
  | "long" => return { d with longs := d.longs ++ [Int64.ofInt (← nth v 1 integer)] }
  | _ => none

end Linkage.ClassFile.Draft
