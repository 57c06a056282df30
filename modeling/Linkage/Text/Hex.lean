import Linkage.Json.Token
import Linkage.Json.Value

/-!
# Bytes in hexadecimal digits

Each byte is written with two digits, small letters for those above nine.
-/

namespace Linkage.Text

/-- Bytes as digits. -/
def toHex (bytes : List UInt8) : String :=
  String.ofList (bytes.flatMap fun b => [Json.hexDigit (b.toNat / 16), Json.hexDigit (b.toNat % 16)])

/-- The bytes that pairs of digits stand for. -/
def pairsToBytes? : List Char → Option (List UInt8)
  | [] => some []
  | a :: b :: rest => do
    let byte := UInt8.ofNat ((← Json.hexValue? a) * 16 + (← Json.hexValue? b))
    return byte :: (← pairsToBytes? rest)
  | [_] => none

/-- The bytes that a text of digits stands for. -/
def ofHex? (s : String) : Option (List UInt8) := pairsToBytes? s.toList

end Linkage.Text
