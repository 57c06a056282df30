import Linkage.Json.Value

/-!
# Reading records back

Readings of JSON values as values of other types. What is `null` or not of the form that is wanted
counts as not there. What is not there is read as nothing: the empty text, no, zero, the empty list.
A reading fails only where it can make nothing of that.
-/

namespace Linkage.Json

/-- A reading of values. -/
abbrev Decode (α : Type) := Value → Option α

namespace Decode

/-- Any value. -/
def any : Decode Value := some

/-- A text. -/
def text : Decode String
  | .text s => some s
  | .null => some ""
  | _ => none

/-- A truth value. -/
def truth : Decode Bool
  | .bool b => some b
  | .null => some false
  | _ => none

/-- A whole number of at most 64 bits with its sign. -/
def integer : Decode Int
  | .number n => if Int64.minValue.toInt ≤ n ∧ n ≤ Int64.maxValue.toInt then some n else none
  | .null => some 0
  | _ => none

/-- A natural number of at most 64 bits. -/
def natural : Decode Nat
  | .number (.ofNat n) => if n < UInt64.size then some n else none
  | .null => some 0
  | _ => none

/-- A number of 16 bits. -/
def word16 : Decode UInt16 := fun v => (natural v).map UInt16.ofNat

variable {α : Type}

/-- Reads what may be there; what is not is read as nothing. -/
def orNothing (item : Decode α) (found : Option Value) : Option α :=
  (found >>= item).orElse fun _ => item .null

/-- A list. -/
def list (item : Decode α) : Decode (List α)
  | .list vs => vs.mapM fun v => orNothing item (some v)
  | .null => some []
  | _ => none

/-- The fields of a record, by name. -/
def fields (item : Decode α) : Decode (List (String × α))
  | .record fs => fs.mapM fun f => (orNothing item (some f.2)).map (f.1, ·)
  | .null => some []
  | _ => none

/-! ## Fields -/

/-- The value of a field that is there. -/
def field? (v : Value) (key : String) : Option Value :=
  match v with
  | .record fs => (fs.lookup key).filter fun | .null => false | _ => true
  | _ => none

/-- A field. -/
def need (v : Value) (key : String) (item : Decode α) : Option α := orNothing item (field? v key)

/-- A field that may be missing. -/
def opt (v : Value) (key : String) (item : Decode α) : Option (Option α) :=
  some (field? v key >>= item)

/-- A field with a default. -/
def getD (v : Value) (key : String) (item : Decode α) (default : α) : Option α :=
  some ((field? v key >>= item).getD default)

/-- A field that holds a list; a missing one is empty. -/
def items (v : Value) (key : String) (item : Decode α) : Option (List α) :=
  getD v key (list item) []

/-- A field that holds texts. -/
def texts (v : Value) (key : String) : Option (List String) := items v key text

/-- A field that says yes or, if it is missing, no. -/
def flag (v : Value) (key : String) : Option Bool := getD v key truth false

/-- A field that holds a record of any fields; a missing one is empty. -/
def entries (v : Value) (key : String) (item : Decode α) : Option (List (String × α)) :=
  getD v key (fields item) []

/-! ## Places in a list -/

/-- The value at a place of a list, if it is there. -/
def place? (v : Value) (i : Nat) : Option Value :=
  match v with
  | .list vs => (vs[i]?).filter fun | .null => false | _ => true
  | _ => none

/-- A place. -/
def nth (v : Value) (i : Nat) (item : Decode α) : Option α := orNothing item (place? v i)

/-- A place with a default. -/
def nthD (v : Value) (i : Nat) (item : Decode α) (default : α) : Option α :=
  some ((place? v i >>= item).getD default)

end Decode

end Linkage.Json
