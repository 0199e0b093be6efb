import Restage.Script.Code

/-!
Brackets of a script. `closingBrace` pairs braces by depth and looks at no other bracket;
`firstMismatch` reads all three kinds with a stack.
-/

set_option autoImplicit false

namespace Restage.Script

/-! Braces. -/

inductive BraceFault where
  | outOfRange
  | notBrace (index : Nat)
  | unclosed (line : Nat)
  | overrun (line : Nat)
deriving DecidableEq, Repr

def BraceFault.message : BraceFault → String
  | outOfRange => "string index out of range"
  | notBrace i => "Expected '\x7b' at index " ++ toString i
  | unclosed n => "Unbalanced braces: block opened on line " ++ toString n ++ " is never closed"
  | overrun n => "Block opened on line " ++ toString n ++ " runs past its enclosing block"

/-- The position of the brace that closes the given number of open ones. -/
def closeFrom : Nat → List Marked → Option Nat
  | _, [] => none
  | depth, m :: ms =>
    if !m.code then closeFrom depth ms
    else if m.char = '{' then closeFrom (depth + 1) ms
    else if m.char = '}' then if depth ≤ 1 then some m.index else closeFrom (depth - 1) ms
    else closeFrom depth ms

/-- The position of the brace that closes the one at the head of marked characters. -/
def closeOf? : List Marked → Option Nat
  | [] => none
  | m :: ms => if m.code && m.char = '{' then closeFrom 1 ms else none

/-- The brace that closes the one at a position, in a text whose marked characters are at hand;
it has to stand before `stop`. -/
def closingBraceIn (ms : List Marked) (t : Text) (i : Nat) (stop : Option Nat) :
    Except BraceFault Nat :=
  match t[i]? with
  | none => .error .outOfRange
  | some c =>
    if c ≠ '{' then .error (.notBrace i)
    else match closeOf? (ms.drop i) with
      | none => .error (.unclosed (t.lineOf i))
      | some j =>
        if stop.any (· ≤ j) then .error (.overrun (t.lineOf i)) else .ok j

/-- The brace that closes the one at a position; it has to stand before `stop`. -/
def closingBrace (t : Text) (i : Nat) (stop : Option Nat) : Except BraceFault Nat :=
  closingBraceIn (marked t) t i stop

/-! All three kinds of bracket. -/

/-- The closing bracket of an opening one. -/
def closerOf? : Char → Option Char
  | '{' => some '}'
  | '(' => some ')'
  | '[' => some ']'
  | _ => none

def isCloser (c : Char) : Bool := c == '}' || c == ')' || c == ']'

inductive Mismatch where
  | unexpected (closer : Char) (line : Nat)
  | crossed (closer : Char) (line : Nat) (opener : Char) (openedOn : Nat)
  | unclosed (opener : Char) (openedOn : Nat)
deriving DecidableEq, Repr

def quoted (c : Char) : String := String.ofList ['\x27', c, '\x27']

def Mismatch.message : Mismatch → String
  | unexpected c n => "unexpected " ++ quoted c ++ " on line " ++ toString n
  | crossed c n o m =>
    quoted c ++ " on line " ++ toString n ++ " closes " ++ quoted o ++ " opened on line " ++
      toString m
  | unclosed o m => quoted o ++ " opened on line " ++ toString m ++ " is never closed"

/-- Where the brackets among code characters first go wrong: at a closer that does not fit the
innermost open bracket, or, when no closer is wrong, at the innermost bracket left open. The
second position is that of the opener a wrong closer met. -/
def mismatchFrom : List Marked → List Marked → Option (Marked × Option Marked)
  | [], [] => none
  | o :: _, [] => some (o, none)
  | stack, m :: ms =>
    if (closerOf? m.char).isSome then mismatchFrom (m :: stack) ms
    else if isCloser m.char then
      match stack with
      | [] => some (m, none)
      | o :: os =>
        if closerOf? o.char = some m.char then mismatchFrom os ms else some (m, some o)
    else mismatchFrom stack ms

def mismatchOf (t : Text) (m : Marked) : Option Marked → Mismatch
  | some o => .crossed m.char (t.lineOf m.index) o.char (t.lineOf o.index)
  | none =>
    if isCloser m.char then .unexpected m.char (t.lineOf m.index)
    else .unclosed m.char (t.lineOf m.index)

/-- The first bracket mismatch of a script, with its position. -/
def firstMismatch (t : Text) : Option (Nat × Mismatch) :=
  (mismatchFrom [] ((marked t).filter (·.code))).map fun x => (x.1.index, mismatchOf t x.1 x.2)

end Restage.Script
