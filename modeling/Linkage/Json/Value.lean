/-!
# JSON values

The values that results are recorded as, and their text.
-/

namespace Linkage.Json

/-- A JSON value; the fields of a record keep their order. -/
inductive Value where
  | null
  | bool (b : Bool)
  | number (n : Int)
  | text (s : String)
  | list (items : List Value)
  | record (fields : List (String × Value))
  deriving Repr, Inhabited

namespace Value

/-- A count. -/
def count (n : Nat) : Value := .number n

/-- A value that may be absent. -/
def ofOption {α : Type} (f : α → Value) : Option α → Value
  | some x => f x
  | none => .null

/-- A list of records or the like. -/
def many {α : Type} (f : α → Value) (xs : List α) : Value := .list (xs.map f)

/-- A failure: its kind and its message. -/
def failure (kind message : String) : Value :=
  .record [("error", .text kind), ("message", .text message)]

/-- A record with more fields; other values stay as they are. -/
def plus (more : List (String × Value)) : Value → Value
  | .record fs => .record (fs ++ more)
  | v => v

/-- A list of texts. -/
def texts (xs : List String) : Value := .list (xs.map .text)

end Value

/-! ## Text -/

/-- One hexadecimal digit. -/
def hexDigit (n : Nat) : Char :=
  Char.ofNat (if n < 10 then 0x30 + n else 0x57 + n)

/-- A character inside quotes: quotes, backslashes and control characters are escaped. -/
def escape (c : Char) : List Char :=
  if c = '"' then ['\\', '"']
  else if c = '\\' then ['\\', '\\']
  else if c.toNat < 0x20 then
    ['\\', 'u', '0', '0', hexDigit (c.toNat / 16), hexDigit (c.toNat % 16)]
  else [c]

/-- A text in quotes. -/
def quoted (s : String) : String :=
  String.ofList ('"' :: (s.toList.flatMap escape ++ ['"']))

mutual

/-- The value on one line, without blanks. -/
def Value.render : Value → String
  | .null => "null"
  | .bool true => "true"
  | .bool false => "false"
  | .number n => toString n
  | .text s => quoted s
  | .list items => "[" ++ ",".intercalate (renderItems items) ++ "]"
  | .record fields => "\x7b" ++ ",".intercalate (renderFields fields) ++ "\x7d"

/-- The items of a list. -/
def renderItems : List Value → List String
  | [] => []
  | v :: vs => v.render :: renderItems vs

/-- The fields of a record. -/
def renderFields : List (String × Value) → List String
  | [] => []
  | (k, v) :: fs => (quoted k ++ ":" ++ v.render) :: renderFields fs

end

end Linkage.Json
