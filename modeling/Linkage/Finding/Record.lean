import Linkage.Finding.Problem
import Linkage.Finding.Warning
import Linkage.Json.Decode
import Linkage.Table

/-!
# Reading findings back

Problems and warnings read from the records that they are written as.
-/

namespace Linkage

open Json (Value)
open Json.Decode

/-- Reads a place. -/
def MemberPlace.ofJson? (v : Value) : Option MemberPlace :=
  return ⟨← need v "owner" text, ← need v "name" text, ← need v "descriptor" text⟩

/-- Reads the name of a class. -/
def Location.className? (v : Value) : Option String := need v "class_name" text

/-- Reads a location. -/
def Location.ofJson? (v : Value) : Option Location :=
  match field? v "Class", field? v "Method", field? v "Field" with
  | some c, _, _ => .inClass <$> className? c
  | _, some m, _ => .inMethod <$> MemberPlace.ofJson? m
  | _, _, some f => .inField <$> MemberPlace.ofJson? f
  | _, _, _ => none

/-- Reads a level of access. -/
def AccessLevel.ofJson? (v : Value) : Option AccessLevel := do
  match ← text v with
  | "Private" => some .nestmates
  | "PackagePrivate" => some .packageOnly
  | "Protected" => some .subclasses
  | "Public" => some .everyone
  | _ => none

/-- Reads a problem. -/
def Problem.ofJson? (v : Value) : Option Problem := do
  let ofClass := need v "class" Location.className?
  let location := need v "location" Location.ofJson?
  let method := need v "method" MemberPlace.ofJson?
  let field := need v "field" MemberPlace.ofJson?
  let access := need v "access" AccessLevel.ofJson?
  match ← need v "kind" text with
  | "class_not_found" => return .classNotFound (← need v "class_name" text) (← location)
  | "super_class_became_interface" =>
    return .superclassBecameInterface (← ofClass) (← need v "super_name" text)
  | "interface_became_class" => return .interfaceBecameClass (← ofClass) (← need v "interface" text)
  | "final_class_inherited" => return .finalClassInherited (← ofClass) (← need v "final_class" text)
  | "method_not_implemented" => return .methodNotImplemented (← ofClass) (← method)
  | "method_not_found" => return .methodNotFound (← method) (← location)
  | "field_not_found" => return .fieldNotFound (← field) (← location)
  | "illegal_method_access" => return .illegalMethodAccess (← method) (← access) (← location)
  | "illegal_field_access" => return .illegalFieldAccess (← field) (← access) (← location)
  | "overriding_final_method" =>
    return .finalMethodOverridden (← method) (← need v "location" MemberPlace.ofJson?)
  | _ => none

/-- Reads a warning. -/
def Warning.ofJson? (v : Value) : Option Warning := do
  match ← need v "kind" text with
  | "deprecated_api_usage" =>
    return .deprecatedApiUsage (← need v "api" text) (← need v "location" Location.ofJson?)
  | "optional_dependency_not_resolved" =>
    return .optionalDependencyNotResolved (← need v "dependency" text) (← need v "reason" text)
  | "plugin_structure" => return .pluginStructure (← need v "message" text)
  | _ => none

/-- Reads the problems of a record, each once. -/
def problemsOf (v : Value) : Option (List Problem) := distinct <$> items v "problems" Problem.ofJson?

/-- Reads the warnings of a record, each once. -/
def warningsOf (v : Value) : Option (List Warning) := distinct <$> items v "warnings" Warning.ofJson?

end Linkage
