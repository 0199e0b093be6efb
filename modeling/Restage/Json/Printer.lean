import Restage.Json.Basic
import Restage.Text.Quoted

/-!
Writing of JSON text: ASCII only, two blanks of indentation per level, one item a line.
-/

set_option autoImplicit false

namespace Restage.Json

def unicodeEscape (u : UInt16) : Text := ['\\', 'u'] ++ Text.hexDigits 4 u.toNat

/-- A unit inside a string: printable ASCII as it is, the common controls by a letter, all else by
number. -/
def unitText (u : UInt16) : Text :=
  if u = 0x22 then ['\\', '\x22']
  else if u = 0x5C then ['\\', '\\']
  else if u = 10 then ['\\', 'n']
  else if u = 13 then ['\\', 'r']
  else if u = 9 then ['\\', 't']
  else if u = 12 then ['\\', 'f']
  else if u = 8 then ['\\', 'b']
  else if 32 ≤ u ∧ u < 127 then [Char.ofNat u.toNat]
  else unicodeEscape u

def stringText (us : Units) : Text := '\x22' :: us.flatMap unitText ++ ['\x22']

def realText : Binary64 → Text
  | .nan => "NaN".toList
  | .infinite false => "Infinity".toList
  | .infinite true => "-Infinity".toList
  | .finite negative m q => Binary64.finiteText negative m q

/-- A line end and the indentation of a level. -/
def newline (level : Nat) : Text := '\n' :: List.replicate (2 * level) ' '

mutual
/-- A value whose own line has the given level. -/
def render (level : Nat) : Value → Text
  | .null => "null".toList
  | .bool true => "true".toList
  | .bool false => "false".toList
  | .int i => Text.ofInt i
  | .real x => realText x
  | .str us => stringText us
  | .arr [] => ['[', ']']
  | .arr (v :: vs) =>
    '[' :: newline (level + 1) ++ render (level + 1) v ++ renderItems (level + 1) vs ++
      newline level ++ [']']
  | .obj [] => ['{', '}']
  | .obj ((k, v) :: ms) =>
    '{' :: newline (level + 1) ++ stringText k ++ [':', ' '] ++ render (level + 1) v ++
      renderMembers (level + 1) ms ++ newline level ++ ['}']
/-- The items after the first. -/
def renderItems (level : Nat) : List Value → Text
  | [] => []
  | v :: vs => ',' :: newline level ++ render level v ++ renderItems level vs
/-- The members after the first. -/
def renderMembers (level : Nat) : List (Units × Value) → Text
  | [] => []
  | (k, v) :: ms =>
    ',' :: newline level ++ stringText k ++ [':', ' '] ++ render level v ++ renderMembers level ms
end

def dump (v : Value) : Text := render 0 v

end Restage.Json
