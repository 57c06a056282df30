/-!
# Tokens of a JSON text

A reader takes what it wants from the front of the text and leaves the rest. Reading ends at the
first fault: the text breaks the grammar, a value is of another kind than the one wanted, or the
text ends within a value. Numbers, texts and the words `null`, `true` and `false` are read here, and
whole values that nobody wants are passed over.
-/

namespace Linkage.Json

/-- Why a text is not the JSON that was wanted. -/
inductive Fault where
  /-- The text breaks the grammar. -/
  | malformed
  /-- A value is of another kind than the one wanted there. -/
  | mismatched
  /-- The text ends within a value. -/
  | cutShort
  deriving DecidableEq, Repr

def Fault.message : Fault → String
  | .malformed => "the text is malformed"
  | .mismatched => "a value is not of the kind wanted"
  | .cutShort => "the text ends too early"

/-- The word for a fault. -/
def Fault.word : Fault → String
  | .malformed => "Syntax"
  | .mismatched => "Data"
  | .cutShort => "Eof"

/-- A step of reading: it consumes characters from the front or finds a fault. -/
abbrev Reader (α : Type) := StateT (List Char) (Except Fault) α

/-- The blanks between tokens. -/
def isSpace (c : Char) : Bool := c = ' ' || c = '\n' || c = '\t' || c = '\r'

/-- Whether a character is a decimal digit. -/
def isDigit (c : Char) : Bool := '0' ≤ c && c ≤ '9'

/-- The value of a hexadecimal digit. -/
def hexValue? (c : Char) : Option Nat :=
  if isDigit c then some (c.toNat - 0x30)
  else if 'a' ≤ c ∧ c ≤ 'f' then some (c.toNat - 0x57)
  else if 'A' ≤ c ∧ c ≤ 'F' then some (c.toNat - 0x37)
  else none

namespace Reader

/-- Ends reading with a fault. -/
def fail {α : Type} (fault : Fault) : Reader α := fun _ => .error fault

/-- The next character, if the text has not ended. -/
def next : Reader (Option Char) := fun text => .ok (text.head?, text.tail)

/-- The next character, which stays where it is. -/
def here : Reader (Option Char) := fun text => .ok (text.head?, text)

/-- The next character after blanks, which stays where it is. -/
def peek : Reader (Option Char) := fun text =>
  let rest := text.dropWhile isSpace
  .ok (rest.head?, rest)

/-- The next character after blanks, which stays where it is and must be there. -/
def peekIn : Reader Char := do
  match ← peek with
  | some c => return c
  | none => fail .cutShort

/-- Passes over one character. -/
def advance : Reader Unit := fun text => .ok ((), text.tail)

/-- Passes over the characters given, which must be the next ones. -/
def word : List Char → Reader Unit
  | [] => pure ()
  | c :: cs => do
    match ← next with
    | none => fail .cutShort
    | some d => if d = c then word cs else fail .malformed

/-- The digits at the front. -/
def digits : Reader (List Char) := fun text => .ok (text.takeWhile isDigit, text.dropWhile isDigit)

end Reader

/-! ## Numbers -/

/-- A number as it is written. -/
structure Numeral where
  negative : Bool
  whole : List Char
  fraction : Option (List Char)
  /-- Whether the exponent is negative, and its digits. -/
  exponent : Option (Bool × List Char)
  deriving DecidableEq, Repr

/-- The number that digits stand for. -/
def digitsValue (ds : List Char) : Nat := ds.foldl (fun n d => n * 10 + (d.toNat - 0x30)) 0

/-- What a numeral is about: its leading digits as a number of at most 64 bits, and the power of ten
that goes with them. -/
structure Magnitude where
  significand : Nat
  exponent : Int

namespace Magnitude

/-- Takes in digits as long as the significand fits into 64 bits; gives the digits left over. -/
def absorb (step : Int) : List Char → Magnitude → Magnitude × List Char
  | [], m => (m, [])
  | d :: ds, m =>
    let n := m.significand * 10 + (d.toNat - 0x30)
    if n < UInt64.size then absorb step ds ⟨n, m.exponent + step⟩ else (m, d :: ds)

/-- Whether the magnitude lies beyond the largest binary64 number. -/
def isHuge (m : Magnitude) : Bool :=
  m.significand ≠ 0 &&
    (m.exponent > 308 ||
      m.exponent ≥ 0 &&
        ((UInt64.ofNat m.significand).toFloat * Float.ofScientific 1 false m.exponent.toNat).isInf)

end Magnitude

namespace Numeral

/-- The numeral's magnitude. -/
def magnitude (n : Numeral) : Magnitude :=
  let (m, left) := Magnitude.absorb 0 n.whole ⟨0, 0⟩
  let (m, _) := Magnitude.absorb (-1) (n.fraction.getD []) ⟨m.significand, left.length⟩
  match n.exponent with
  | none => m
  | some (true, ds) => ⟨m.significand, m.exponent - digitsValue ds⟩
  | some (false, ds) => ⟨m.significand, m.exponent + digitsValue ds⟩

/-- The natural number of at most 64 bits that a numeral without sign, fraction and exponent is. -/
def natural? (n : Numeral) : Option Nat :=
  let value := digitsValue n.whole
  if !n.negative && n.fraction.isNone && n.exponent.isNone && value < UInt64.size then some value
  else none

end Numeral

namespace Reader

/-- Digits of which there must be one; `atEnd` is the fault if the text ends instead. -/
def someDigits (atEnd : Fault) : Reader (List Char) := do
  match ← digits with
  | [] =>
    match ← here with
    | none => fail atEnd
    | some _ => fail .malformed
  | ds => return ds

/-- The digits before the point: a zero stands alone. -/
def wholeDigits (atEnd : Fault) : Reader (List Char) := do
  match ← someDigits atEnd with
  | '0' :: _ :: _ => fail .malformed
  | ds => return ds

/-- The digits after a point, if there is one. -/
def fractionDigits (atEnd : Fault) : Reader (Option (List Char)) := do
  match ← here with
  | some '.' => do
    advance
    some <$> someDigits atEnd
  | _ => return none

/-- The sign of an exponent; tells whether it is negative. -/
def exponentSign : Reader Bool := do
  match ← here with
  | some '-' => do
    advance
    return true
  | some '+' => do
    advance
    return false
  | _ => return false

/-- The exponent, if there is one. -/
def exponentDigits (atEnd : Fault) : Reader (Option (Bool × List Char)) := do
  match ← here with
  | some 'e' | some 'E' => do
    advance
    let negative ← exponentSign
    return some (negative, ← someDigits atEnd)
  | _ => return none

/-- A number; `atEnd` is the fault if the text ends within it. -/
def numeral (atEnd : Fault) : Reader Numeral := do
  let negative := (← here) = some '-'
  if negative then advance
  let whole ← wholeDigits atEnd
  let fraction ← fractionDigits atEnd
  return ⟨negative, whole, fraction, ← exponentDigits atEnd⟩

/-! ## Texts -/

/-- Four hexadecimal digits. They are missed only where fewer than four bytes are left. -/
def hexUnit : Reader Nat := fun text =>
  let four := text.take 4
  if four.foldl (fun n c => n + c.utf8Size) 0 < 4 then .error .cutShort
  else
    match four.mapM hexValue? with
    | some ds => .ok (ds.foldl (fun n d => n * 16 + d) 0, text.drop 4)
    | none => .error .malformed

/-- The next character, which must be the one given. -/
def demand (c : Char) : Reader Unit := do
  match ← next with
  | none => fail .cutShort
  | some d => if d = c then return () else fail .malformed

/-- Whether a unit is the second half of a character. -/
def isTrailing (u : Nat) : Bool := 0xDC00 ≤ u && u ≤ 0xDFFF

/-- Whether a unit is the first half of a character. -/
def isLeading (u : Nat) : Bool := 0xD800 ≤ u && u ≤ 0xDBFF

/-- The character that an escape of one or two units stands for. -/
def escapedUnit : Reader Char := do
  let u ← hexUnit
  if isTrailing u then fail .malformed
  else if isLeading u then do
    demand '\\'
    demand 'u'
    let v ← hexUnit
    if isTrailing v then return Char.ofNat (0x10000 + (u - 0xD800) * 0x400 + (v - 0xDC00))
    else fail .malformed
  else return Char.ofNat u

/-- The character that an escape stands for, after the backslash. Where the text is not wanted, halves of
characters may stand alone. -/
def escaped (wanted : Bool) : Reader Char := do
  match ← next with
  | none => fail .cutShort
  | some 'b' => return Char.ofNat 8
  | some 'f' => return Char.ofNat 12
  | some 'n' => return '\n'
  | some 'r' => return '\r'
  | some 't' => return '\t'
  | some 'u' =>
    if wanted then escapedUnit
    else do
      let _ ← hexUnit
      return '?'
  | some c => if c = '"' || c = '\\' || c = '/' then return c else fail .malformed

/-- The characters up to the closing quote, after those read so far, the last one first. -/
def textAfter (wanted : Bool) : Nat → List Char → Reader (List Char)
  | 0, _ => fail .cutShort
  | bound + 1, done => do
    match ← next with
    | none => fail .cutShort
    | some '"' => return done.reverse
    | some '\\' => do
      let c ← escaped wanted
      textAfter wanted bound (c :: done)
    | some c => if c.toNat < 0x20 then fail .malformed else textAfter wanted bound (c :: done)

/-- A text in quotes, at its opening quote. -/
def quotedText (wanted : Bool) : Reader String := do
  advance
  let bound := (← get).length + 1
  return String.ofList (← textAfter wanted bound [])

/-! ## Values that are passed over -/

/-- The colon between a key and its value. -/
def colon : Reader Unit := do
  if (← peekIn) = ':' then advance else fail .malformed

/-- The key of a field that is passed over, with its colon. -/
def skipKey : Reader Unit := do
  if (← peekIn) = '"' then
    let _ ← quotedText false
    colon
  else fail .malformed

/-- What has been opened and not yet closed. -/
inductive Bracket where
  | list
  | record
  deriving DecidableEq, Repr

/-- The character that closes a bracket. -/
def Bracket.closing : Bracket → Char
  | .list => ']'
  | .record => '\x7d'

/-- Passes over what precedes a value inside a bracket. -/
def Bracket.lead : Bracket → Reader Unit
  | .list => pure ()
  | .record => skipKey

/-- A value that is no list and no record, at its first character `c`. -/
def skipPlain (c : Char) : Reader Unit := do
  if c = 'n' then word ['n', 'u', 'l', 'l']
  else if c = 't' then word ['t', 'r', 'u', 'e']
  else if c = 'f' then word ['f', 'a', 'l', 's', 'e']
  else if c = '"' then
    let _ ← quotedText false
  else if c = '-' || isDigit c then
    let _ ← numeral .malformed
  else fail .malformed

/-- Passes over the rest of a value: `due` says whether a value comes next or has just ended, and the
brackets are those still open, the innermost first. -/
def skipRest : Nat → Bool → List Bracket → Reader Unit
  | 0, _, _ => fail .cutShort
  | bound + 1, true, opened => do
    let c ← peekIn
    if c = '[' || c = '\x7b' then
      let bracket : Bracket := if c = '[' then .list else .record
      advance
      if (← peekIn) = bracket.closing then
        advance
        skipRest bound false opened
      else
        bracket.lead
        skipRest bound true (bracket :: opened)
    else
      skipPlain c
      skipRest bound false opened
  | _ + 1, false, [] => pure ()
  | bound + 1, false, bracket :: opened => do
    let c ← peekIn
    if c = ',' then
      advance
      bracket.lead
      skipRest bound true (bracket :: opened)
    else if c = bracket.closing then
      advance
      skipRest bound false opened
    else fail .malformed

/-- Passes over a value. -/
def skipValue : Reader Unit := do
  skipRest (2 * (← get).length + 2) true []

end Reader

end Linkage.Json
