import DelayedQueue.Json.Text

/-! # Compact JSON

Values are joined without blanks.
-/

namespace DelayedQueue.Json

def digits (n : Nat) : Bytes := (Nat.toDigits 10 n).map fun c => c.toNat.toUInt8

def integer (n : Int) : Bytes := if n < 0 then 0x2D :: digits n.natAbs else digits n.natAbs

def commaSeparated : List Bytes → Bytes
  | [] => []
  | [v] => v
  | v :: vs => v ++ 0x2C :: commaSeparated vs

def array (items : List Bytes) : Bytes := 0x5B :: (commaSeparated items ++ [0x5D])

def member (key : String) (value : Bytes) : Bytes := quote key ++ 0x3A :: value

def object (members : List Bytes) : Bytes := 0x7B :: (commaSeparated members ++ [0x7D])

end DelayedQueue.Json
