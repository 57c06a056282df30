import Linkage.Json.Token
import Linkage.Table

/-!
# Reading values of a known shape

Readers for texts, numbers, lists and records. A record is read from its fields by name, in any
order and with unknown fields passed over, or from a list of its fields in their order. A field that
comes twice is a mismatch.
-/

namespace Linkage.Json.Reader

/-- A value of another kind stands where one is wanted. A fault within it weighs more than its kind. -/
def mismatch {α : Type} : Reader α := do
  let c ← peekIn
  if c = '[' || c = '\x7b' then fail .mismatched
  else if c = '"' then do
    let _ ← quotedText true
    fail .mismatched
  else if c = '-' || isDigit c then do
    let n ← numeral .cutShort
    if n.magnitude.isHuge then fail .malformed else fail .mismatched
  else do
    skipPlain c
    fail .mismatched

/-- A text. -/
def text : Reader String := do
  if (← peekIn) = '"' then quotedText true else mismatch

/-- A natural number of at most 64 bits. -/
def natural : Reader Nat := do
  let c ← peekIn
  if c = '-' || isDigit c then do
    let n ← numeral .cutShort
    match n.natural? with
    | some value => return value
    | none => if n.magnitude.isHuge then fail .malformed else fail .mismatched
  else mismatch

/-- A truth value. -/
def truth : Reader Bool := do
  match ← peekIn with
  | 't' => do
    word ['t', 'r', 'u', 'e']
    return true
  | 'f' => do
    word ['f', 'a', 'l', 's', 'e']
    return false
  | _ => mismatch

/-- A value, or `null` for none. -/
def optional {α : Type} (item : Reader α) : Reader (Option α) := do
  match ← peek with
  | some 'n' => do
    word ['n', 'u', 'l', 'l']
    return none
  | _ => some <$> item

/-! ## Lists -/

/-- Whether another item of a list follows; if so, goes to it. -/
def anotherItem (first : Bool) : Reader Bool := do
  let c ← peekIn
  if c = ']' then return false
  else if first then return true
  else if c = ',' then do
    advance
    if (← peekIn) = ']' then fail .malformed else return true
  else fail .malformed

/-- The items of a list after those read so far, the last one first. -/
def itemsAfter {α : Type} (item : Reader α) : Nat → List α → Reader (List α)
  | 0, _ => fail .cutShort
  | bound + 1, done => do
    if ← anotherItem done.isEmpty then
      let x ← item
      itemsAfter item bound (x :: done)
    else
      advance
      return done.reverse

/-- A list. -/
def list {α : Type} (item : Reader α) : Reader (List α) := do
  if (← peekIn) = '[' then
    advance
    itemsAfter item ((← get).length + 1) []
  else mismatch

/-! ## Records -/

/-- The next key of a record, if another field follows. -/
def anotherKey (first : Bool) : Reader (Option String) := do
  let c ← peekIn
  if c = '\x7d' then return none
  else if first then
    if c = '"' then some <$> quotedText true else fail .malformed
  else if c = ',' then do
    advance
    if (← peekIn) = '"' then some <$> quotedText true else fail .malformed
  else fail .malformed

/-- The entries of a table after those read so far. -/
def entriesAfter {α : Type} (item : Reader α) : Nat → Bool → Table String α → Reader (Table String α)
  | 0, _, _ => fail .cutShort
  | bound + 1, first, done => do
    match ← anotherKey first with
    | some key => do
      colon
      let x ← item
      entriesAfter item bound false (done.put key x)
    | none => do
      advance
      return done

/-- A record with any keys; of two fields with one key the later gives the value. -/
def table {α : Type} (item : Reader α) : Reader (Table String α) := do
  if (← peekIn) = '\x7b' then
    advance
    entriesAfter item ((← get).length + 1) true Table.empty
  else mismatch

/-- A field of a record of the type `σ`. -/
structure Field (σ : Type) where
  name : String
  /-- Reads the field's value into the record. -/
  read : σ → Reader σ
  /-- Whether a record with named fields must have it. -/
  needed : Bool := false
  /-- Whether a record written as a list must have it. -/
  neededInList : Bool := needed

variable {σ : Type}

/-- The named fields of a record after those seen. -/
def fieldsAfter (fields : List (Field σ)) : Nat → Bool → List String → σ → Reader σ
  | 0, _, _, _ => fail .cutShort
  | bound + 1, first, seen, s => do
    match ← anotherKey first with
    | none =>
      if fields.any (fun f => f.needed && !seen.contains f.name) then fail .mismatched
      else do
        advance
        return s
    | some key =>
      match fields.find? (·.name == key) with
      | none => do
        colon
        skipValue
        fieldsAfter fields bound false seen s
      | some field =>
        if seen.contains key then fail .mismatched
        else do
          colon
          let s ← field.read s
          fieldsAfter fields bound false (key :: seen) s

/-- The fields of a record written as a list. -/
def fieldsInOrder : List (Field σ) → Bool → σ → Reader σ
  | [], _, s => do
    if (← peekIn) = ']' then
      advance
      return s
    else fail .malformed
  | field :: rest, first, s => do
    if ← anotherItem first then
      let s ← field.read s
      fieldsInOrder rest false s
    else if (field :: rest).any (·.neededInList) then fail .mismatched
    else
      advance
      return s

/-- A record, of which `start` gives the fields that are not there. -/
def record (fields : List (Field σ)) (start : σ) : Reader σ := do
  match ← peekIn with
  | '\x7b' => do
    advance
    fieldsAfter fields ((← get).length + 1) true [] start
  | '[' => do
    advance
    fieldsInOrder fields true start
  | _ => mismatch

/-- Reads a whole text. -/
def run {α : Type} (reader : Reader α) (text : String) : Except Fault α :=
  match StateT.run reader text.toList with
  | .error fault => .error fault
  | .ok (x, rest) => if rest.all isSpace then .ok x else .error .malformed

end Linkage.Json.Reader
