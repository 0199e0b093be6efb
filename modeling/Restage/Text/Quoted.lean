import Restage.Text.Basic
import Restage.Text.UnprintableTable

/-!
Quoted texts in messages. The quotes are single ones unless the text holds one and no double quote;
what is not printed is written as an escape.
-/

set_option autoImplicit false

namespace Restage.Text

def hexDigit (n : Nat) : Char := if n < 10 then Char.ofNat (48 + n) else Char.ofNat (87 + n)

/-- The last hexadecimal digits of a number, so many of them. -/
def hexDigits : Nat → Nat → Text
  | 0, _ => []
  | k + 1, n => hexDigits k (n / 16) ++ [hexDigit (n % 16)]

def isPrinted (c : Char) : Bool := 32 ≤ c.toNat && !inRanges c.toNat unprintableRanges

/-- The escape of a character by its number, as short as it goes. -/
def numericEscape (c : Char) : Text :=
  if c.toNat < 0x100 then ['\\', 'x'] ++ hexDigits 2 c.toNat
  else if c.toNat < 0x10000 then ['\\', 'u'] ++ hexDigits 4 c.toNat
  else ['\\', 'U'] ++ hexDigits 8 c.toNat

def quotedChar (quote c : Char) : Text :=
  if c = quote ∨ c = '\\' then ['\\', c]
  else if c = '\n' then ['\\', 'n']
  else if c = '\r' then ['\\', 'r']
  else if c = '\t' then ['\\', 't']
  else if isPrinted c then [c]
  else numericEscape c

def quoted (t : Text) : Text :=
  let quote := if t.contains '\x27' && !t.contains '\x22' then '\x22' else '\x27'
  quote :: t.flatMap (quotedChar quote) ++ [quote]

end Restage.Text
