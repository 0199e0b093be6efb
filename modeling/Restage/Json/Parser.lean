import Restage.Json.Basic

/-!
Reading of JSON text. A fault is a cause and the rest of the text at which it was found; its
message gives the place by line, column and index.
-/

set_option autoImplicit false

namespace Restage.Json

inductive Cause where
  | value | extraData | memberName | colon | comma
  | unterminatedString | controlCharacter | escape | unicodeEscape | byteOrderMark
deriving DecidableEq, Repr

def Cause.message : Cause → String
  | value => "Expecting value"
  | extraData => "Extra data"
  | memberName => "Expecting property name enclosed in double quotes"
  | colon => "Expecting ':' delimiter"
  | comma => "Expecting ',' delimiter"
  | unterminatedString => "Unterminated string starting at"
  | controlCharacter => "Invalid control character at"
  | escape => "Invalid \\escape"
  | unicodeEscape => "Invalid \\uXXXX escape"
  | byteOrderMark => "Unexpected UTF-8 BOM (decode using utf-8-sig)"

structure Fault where
  cause : Cause
  rest : Text
deriving DecidableEq, Repr

/-- The message of a fault in the given text. -/
def Fault.message (whole : Text) (f : Fault) : String :=
  let at_ := whole.length - f.rest.length
  let before := whole.take at_
  let column := (before.reverse.takeWhile (· != '\n')).length + 1
  f.cause.message ++ ": line " ++ toString (whole.lineOf at_) ++ " column " ++ toString column ++
    " (char " ++ toString at_ ++ ")"

def isSpace (c : Char) : Bool := c == ' ' || c == '\t' || c == '\n' || c == '\r'

def skip (t : Text) : Text := t.dropWhile isSpace

/-! Strings. -/

def hexDigit? (c : Char) : Option Nat :=
  if '0' ≤ c ∧ c ≤ '9' then some (c.toNat - 48)
  else if 'a' ≤ c ∧ c ≤ 'f' then some (c.toNat - 87)
  else if 'A' ≤ c ∧ c ≤ 'F' then some (c.toNat - 55)
  else none

def hexUnit? (a b c d : Char) : Option UInt16 :=
  match hexDigit? a, hexDigit? b, hexDigit? c, hexDigit? d with
  | some w, some x, some y, some z => some (((w * 16 + x) * 16 + y) * 16 + z).toUInt16
  | _, _, _, _ => none

def simpleEscape? : Char → Option UInt16
  | '\x22' => some 0x22
  | '\\' => some 0x5C
  | '/' => some 0x2F
  | 'b' => some 8
  | 'f' => some 12
  | 'n' => some 10
  | 'r' => some 13
  | 't' => some 9
  | _ => none

/-- The rest of a string after its opening quote; `opening` is the text at that quote. A hexadecimal
escape needs a character behind it. -/
def stringFrom (opening : Text) : Text → Except Fault (Units × Text)
  | [] => .error ⟨.unterminatedString, opening⟩
  | '\x22' :: cs => .ok ([], cs)
  | '\\' :: 'u' :: a :: b :: c :: d :: cs =>
    match hexUnit? a b c d with
    | none => .error ⟨.unicodeEscape, 'u' :: a :: b :: c :: d :: cs⟩
    | some u =>
      if cs.isEmpty then .error ⟨.unicodeEscape, 'u' :: a :: b :: c :: d :: cs⟩
      else (stringFrom opening cs).map fun x => (u :: x.1, x.2)
  | '\\' :: c :: cs =>
    if c = 'u' then .error ⟨.unicodeEscape, c :: cs⟩
    else match simpleEscape? c with
      | none => .error ⟨.escape, '\\' :: c :: cs⟩
      | some u => (stringFrom opening cs).map fun x => (u :: x.1, x.2)
  | c :: cs =>
    if c = '\\' then .error ⟨.unterminatedString, opening⟩
    else if c.toNat < 32 then .error ⟨.controlCharacter, c :: cs⟩
    else (stringFrom opening cs).map fun x => (unitsOf c ++ x.1, x.2)

/-! Numbers. -/

def digitsValue (ds : Text) : Nat := ds.foldl (fun n d => n * 10 + (d.toNat - 48)) 0

/-- The integer part: a zero, or digits that begin with another digit. -/
def integerPart? : Text → Option (Text × Text)
  | '0' :: cs => some (['0'], cs)
  | c :: cs =>
    if Text.isDigit c then some ((c :: cs).takeWhile Text.isDigit, (c :: cs).dropWhile Text.isDigit)
    else none
  | [] => none

/-- Digits after a point; the point is left alone when none follow. -/
def fraction (t : Text) : Text × Text :=
  match t with
  | '.' :: cs =>
    if cs.head?.any Text.isDigit then (cs.takeWhile Text.isDigit, cs.dropWhile Text.isDigit)
    else ([], t)
  | _ => ([], t)

def exponentDigits (negative : Bool) (cs t : Text) : Option Int × Text :=
  if cs.head?.any Text.isDigit then
    let n : Int := digitsValue (cs.takeWhile Text.isDigit)
    (some (if negative then -n else n), cs.dropWhile Text.isDigit)
  else (none, t)

/-- An exponent; the letter is left alone when no digit follows. -/
def exponent (t : Text) : Option Int × Text :=
  match t with
  | c :: '-' :: cs => if c = 'e' ∨ c = 'E' then exponentDigits true cs t else (none, t)
  | c :: '+' :: cs => if c = 'e' ∨ c = 'E' then exponentDigits false cs t else (none, t)
  | c :: cs => if c = 'e' ∨ c = 'E' then exponentDigits false cs t else (none, t)
  | [] => (none, t)

def number? (t : Text) : Option (Value × Text) :=
  let (negative, body) := match t with
    | '-' :: cs => (true, cs)
    | _ => (false, t)
  match integerPart? body with
  | none => none
  | some (whole, r) =>
    let (frac, r) := fraction r
    let (exp, r) := exponent r
    if frac.isEmpty ∧ exp.isNone then
      let n : Int := digitsValue whole
      some (.int (if negative then -n else n), r)
    else
      some (.real (Binary64.ofDecimal negative (digitsValue (whole ++ frac))
        (exp.getD 0 - frac.length)), r)

/-- The words that stand for values. -/
def words : List (Text × Value) :=
  [("null".toList, .null), ("true".toList, .bool true), ("false".toList, .bool false),
   ("NaN".toList, .real .nan), ("Infinity".toList, .real (.infinite false)),
   ("-Infinity".toList, .real (.infinite true))]

def scalar (t : Text) : Except Fault (Value × Text) :=
  match words.findSome? fun w => (Text.after? w.1 t).map (w.2, ·) with
  | some x => .ok x
  | none =>
    match number? t with
    | some x => .ok x
    | none => .error ⟨.value, t⟩

/-! Arrays and objects. Every call takes one unit of fuel; twice the length of the text and two
more never run out, since every second call takes a character. -/

mutual
def value : Nat → Text → Except Fault (Value × Text)
  | 0, t => .error ⟨.value, t⟩
  | fuel + 1, t =>
    match t with
    | '\x22' :: cs => (stringFrom t cs).map fun x => (.str x.1, x.2)
    | '[' :: cs =>
      match skip cs with
      | ']' :: r => .ok (.arr [], r)
      | r => (items fuel r).map fun x => (.arr x.1, x.2)
    | '{' :: cs =>
      match skip cs with
      | '}' :: r => .ok (.obj [], r)
      | r => (members fuel r []).map fun x => (.obj x.1, x.2)
    | _ => scalar t
/-- The items of an array from the first one on. -/
def items : Nat → Text → Except Fault (List Value × Text)
  | 0, t => .error ⟨.value, t⟩
  | fuel + 1, t => do
    let (v, r) ← value fuel t
    match skip r with
    | ']' :: r => .ok ([v], r)
    | ',' :: r => (items fuel (skip r)).map fun x => (v :: x.1, x.2)
    | r => .error ⟨.comma, r⟩
/-- The members of an object from a name on, after those that were read. -/
def members : Nat → Text → List (Units × Value) → Except Fault (List (Units × Value) × Text)
  | 0, t, _ => .error ⟨.value, t⟩
  | fuel + 1, t, done =>
    match t with
    | '\x22' :: cs => do
      let (k, r) ← stringFrom t cs
      match skip r with
      | ':' :: r => do
        let (v, r) ← value fuel (skip r)
        match skip r with
        | '}' :: r => .ok (setMember k v done, r)
        | ',' :: r => members fuel (skip r) (setMember k v done)
        | r => .error ⟨.comma, r⟩
      | r => .error ⟨.colon, r⟩
    | _ => .error ⟨.memberName, t⟩
end

/-- The value of a whole text. -/
def parse (t : Text) : Except Fault Value :=
  if t.head?.any fun c => c.toNat = 0xFEFF then .error ⟨.byteOrderMark, t⟩
  else do
    let (v, r) ← value (2 * t.length + 2) (skip t)
    match skip r with
    | [] => .ok v
    | r => .error ⟨.extraData, r⟩

end Restage.Json
