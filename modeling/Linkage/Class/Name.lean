/-!
# Class names

Classes are named in internal form: packages are separated by `/`, and a nested class follows the
class around it after a `$`.
-/

namespace Linkage.ClassName

/-- The root of the class hierarchy, superclass of every other class that names none. -/
def root : String := "java/lang/Object"

/-- The package of a class: what stands before the last `/`, nothing for the default package. -/
def package (name : String) : String :=
  String.ofList ((name.toList.reverse.dropWhile (· ≠ '/')).drop 1).reverse

/-- The top-level class around a class: the simple name ends before its first `$`. -/
def outermost (name : String) : String :=
  let flipped := name.toList.reverse
  let simple := (flipped.takeWhile (· ≠ '/')).reverse
  String.ofList ((flipped.dropWhile (· ≠ '/')).reverse ++ simple.takeWhile (· ≠ '$'))

/-- The name as reports write it, with dots between packages. -/
def dotted (name : String) : String :=
  String.ofList (name.toList.map fun c => if c = '/' then '.' else c)

/-- The class that a name of the constant pool stands for: the element class of an array of any
depth, and nothing for an array of primitives. -/
def element? (name : String) : Option String :=
  match name.toList with
  | '[' :: rest =>
    match rest.dropWhile (· = '[') with
    | 'L' :: body => if body.getLast? = some ';' then some (String.ofList body.dropLast) else none
    | _ => none
  | _ => some name

end Linkage.ClassName
