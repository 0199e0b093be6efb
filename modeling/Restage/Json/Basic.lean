import Restage.Number.Binary64

/-!
JSON values. Strings are UTF-16 units, so that an escaped lone surrogate is a string like any
other; integers have any size, and numbers with a point or an exponent are binary.
-/

set_option autoImplicit false

namespace Restage.Json

abbrev Units := List UInt16

/-- The UTF-16 units of a character. -/
def unitsOf (c : Char) : Units :=
  let n := c.toNat
  if n < 0x10000 then [n.toUInt16]
  else [(0xD800 + (n - 0x10000) / 0x400).toUInt16, (0xDC00 + (n - 0x10000) % 0x400).toUInt16]

def unitsOfText (t : Text) : Units := t.flatMap unitsOf

inductive Value where
  | null
  | bool (b : Bool)
  | int (i : Int)
  | real (x : Binary64)
  | str (units : Units)
  | arr (items : List Value)
  | obj (members : List (Units × Value))
deriving Repr

/-- Sets a member: the last value of a key wins and stays in the key's first place. -/
def setMember (k : Units) (v : Value) : List (Units × Value) → List (Units × Value)
  | [] => [(k, v)]
  | m :: ms => if m.1 = k then (k, v) :: ms else m :: setMember k v ms

end Restage.Json
