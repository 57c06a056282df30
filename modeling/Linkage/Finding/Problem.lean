import Linkage.Finding.Location

/-!
# Problems

The ways in which a plugin may fail to link. Two problems are the same if they say the same.
-/

namespace Linkage

open Json (Value)

/-- A binary incompatibility. -/
inductive Problem where
  | classNotFound (className : String) (location : Location)
  | superclassBecameInterface (className super : String)
  | interfaceBecameClass (className interface : String)
  | finalClassInherited (className final : String)
  | methodNotImplemented (className : String) (method : MemberPlace)
  | methodNotFound (method : MemberPlace) (location : Location)
  | fieldNotFound (field : MemberPlace) (location : Location)
  | illegalMethodAccess (method : MemberPlace) (access : AccessLevel) (location : Location)
  | illegalFieldAccess (field : MemberPlace) (access : AccessLevel) (location : Location)
  | finalMethodOverridden (method location : MemberPlace)
  deriving DecidableEq, Repr

namespace Problem

open ClassName (dotted)

/-- What problems of one nature have in common. -/
def heading : Problem → String
  | .classNotFound name _ => "Access to unresolved class " ++ dotted name
  | .superclassBecameInterface _ super =>
    "Incompatible change of super class " ++ dotted super ++ " to interface"
  | .interfaceBecameClass _ interface =>
    "Incompatible change of interface " ++ dotted interface ++ " to class"
  | .finalClassInherited _ final => "Inheritance from a final class " ++ dotted final
  | .methodNotImplemented _ m => "Abstract method " ++ m.asMethod ++ " is not implemented"
  | .methodNotFound m _ => "Invocation of unresolved method " ++ m.asMethod
  | .fieldNotFound f _ => "Access to unresolved field " ++ f.asField
  | .illegalMethodAccess m access _ =>
    "Illegal invocation of " ++ access.display ++ " method " ++ m.asMethod
  | .illegalFieldAccess f access _ =>
    "Illegal access to " ++ access.display ++ " field " ++ f.asField
  | .finalMethodOverridden m _ => "Overriding a final method " ++ m.asMethod

/-- What a problem leads to when the class runs. -/
def consequence (error : String) : String :=
  " This can lead to **" ++ error ++ "** at runtime."

def message : Problem → String
  | .classNotFound name location =>
    location.display ++ " references an unresolved class " ++ dotted name
  | .superclassBecameInterface name super =>
    "Class " ++ dotted name ++ " has a direct super class " ++ dotted super
      ++ " which was changed to an interface." ++ consequence "IncompatibleClassChangeError"
  | .interfaceBecameClass name interface =>
    "Class " ++ dotted name ++ " implements " ++ dotted interface
      ++ " which was changed from interface to class." ++ consequence "IncompatibleClassChangeError"
  | .finalClassInherited name final =>
    "Class " ++ dotted name ++ " inherits from a final class " ++ dotted final ++ "."
      ++ consequence "VerifyError"
  | .methodNotImplemented name m =>
    "Concrete class " ++ dotted name ++ " inherits from " ++ dotted m.owner
      ++ " but does not implement the abstract method " ++ m.name ++ m.descriptor ++ "."
      ++ consequence "AbstractMethodError"
  | .methodNotFound m location =>
    location.display ++ " contains an invocation of an unresolved method " ++ m.asMethod ++ "."
      ++ consequence "NoSuchMethodError"
  | .fieldNotFound f location =>
    location.display ++ " references an unresolved field " ++ f.asField ++ "."
      ++ consequence "NoSuchFieldError"
  | .illegalMethodAccess m access location =>
    location.display ++ " invokes the " ++ access.display ++ " method " ++ m.asMethod ++ "."
      ++ consequence "IllegalAccessError"
  | .illegalFieldAccess f access location =>
    location.display ++ " accesses the " ++ access.display ++ " field " ++ f.asField ++ "."
      ++ consequence "IllegalAccessError"
  | .finalMethodOverridden m location =>
    "Method " ++ location.asMethod ++ " overrides the final method " ++ m.asMethod ++ "."
      ++ consequence "VerifyError"

/-- A visibility level as records name it. -/
def levelName : AccessLevel → String
  | .nestmates => "Private"
  | .packageOnly => "PackagePrivate"
  | .subclasses => "Protected"
  | .everyone => "Public"

def toJson : Problem → Value
  | .classNotFound name location =>
    .record [("kind", .text "class_not_found"), ("class_name", .text name),
      ("location", location.toJson)]
  | .superclassBecameInterface name super =>
    .record [("kind", .text "super_class_became_interface"), ("class", Location.classJson name),
      ("super_name", .text super)]
  | .interfaceBecameClass name interface =>
    .record [("kind", .text "interface_became_class"), ("class", Location.classJson name),
      ("interface", .text interface)]
  | .finalClassInherited name final =>
    .record [("kind", .text "final_class_inherited"), ("class", Location.classJson name),
      ("final_class", .text final)]
  | .methodNotImplemented name m =>
    .record [("kind", .text "method_not_implemented"), ("class", Location.classJson name),
      ("method", m.toJson)]
  | .methodNotFound m location =>
    .record [("kind", .text "method_not_found"), ("method", m.toJson),
      ("location", location.toJson)]
  | .fieldNotFound f location =>
    .record [("kind", .text "field_not_found"), ("field", f.toJson),
      ("location", location.toJson)]
  | .illegalMethodAccess m access location =>
    .record [("kind", .text "illegal_method_access"), ("method", m.toJson),
      ("access", .text (levelName access)), ("location", location.toJson)]
  | .illegalFieldAccess f access location =>
    .record [("kind", .text "illegal_field_access"), ("field", f.toJson),
      ("access", .text (levelName access)), ("location", location.toJson)]
  | .finalMethodOverridden m location =>
    .record [("kind", .text "overriding_final_method"), ("method", m.toJson),
      ("location", location.toJson)]

end Problem

end Linkage
