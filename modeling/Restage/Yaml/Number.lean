import Restage.Number.Arithmetic
import Restage.Text.Quoted

/-!
Numbers as YAML writes them. Underscores between digits do not count; colons separate the digits of
base sixty.
-/

set_option autoImplicit false

namespace Restage.Yaml.Number

/-- Why a text is no number: nothing is left of it, or a part of it is none. -/
inductive Fault where
  | empty
  | notInteger (base : Nat) (part : Text)
  | notReal (part : Text)
deriving DecidableEq, Repr

def Fault.message : Fault → String
  | empty => "string index out of range"
  | notInteger base part =>
    "invalid literal for int() with base " ++ toString base ++ ": " ++ part.quoted.str
  | notReal part => "could not convert string to float: " ++ part.quoted.str

def digitValue? (base : Nat) (c : Char) : Option Nat :=
  let v :=
    if Text.isDigit c then some (c.toNat - 48)
    else if 'a' ≤ c ∧ c ≤ 'z' then some (c.toNat - 87)
    else if 'A' ≤ c ∧ c ≤ 'Z' then some (c.toNat - 55)
    else none
  v.filter (· < base)

/-- The number that the digits of a base write; there must be one at least. -/
def ofDigits? (base : Nat) (t : Text) : Option Nat :=
  if t.isEmpty then none
  else t.foldlM (fun n c => (digitValue? base c).map (n * base + ·)) 0

/-- The letter that may announce the digits of a base, behind a zero. -/
def baseLetter? : Nat → Option Char
  | 2 => some 'b'
  | 8 => some 'o'
  | 16 => some 'x'
  | _ => none

def withoutBase (base : Nat) (t : Text) : Text :=
  match t with
  | '0' :: c :: r => if baseLetter? base = some c.toLower then r else t
  | _ => t

def withoutSign (t : Text) : Bool × Text :=
  match t with
  | '+' :: r => (false, r)
  | '-' :: r => (true, r)
  | _ => (false, t)

/-- An integer in a base, with its own sign and with blanks around it. -/
def integer (base : Nat) (t : Text) : Except Fault Int :=
  let (negative, r) := withoutSign t.strip
  match ofDigits? base (withoutBase base r) with
  | some n => .ok (if negative then -n else n)
  | none => .error (.notInteger base t)

/-- The sign of a number and the rest of it; something must be there. -/
def signed (t : Text) : Except Fault (Bool × Text) :=
  if t.isEmpty then .error .empty else .ok (withoutSign t)

def withoutUnderscores (t : Text) : Text := t.filter (· != '_')

def sixtyInt (parts : List Int) : Int := parts.foldl (fun n d => n * 60 + d) 0

def unsignedInt (t : Text) : Except Fault Int :=
  match t with
  | [] => .error .empty
  | ['0'] => .ok 0
  | '0' :: 'b' :: r => integer 2 r
  | '0' :: 'x' :: r => integer 16 r
  | '0' :: _ => integer 8 t
  | _ =>
    if t.contains ':' then ((Text.splitOn ':' t).mapM (integer 10)).map sixtyInt
    else integer 10 t

/-- The integer that a scalar writes. -/
def int (t : Text) : Except Fault Int := do
  let (negative, r) ← signed (withoutUnderscores t)
  let n ← unsignedInt r
  return if negative then -n else n

/-- The exponent at the end of a decimal. -/
def exponent? (t : Text) : Option Int :=
  match t with
  | [] => some 0
  | c :: r =>
    if c = 'e' then
      let (negative, ds) := withoutSign r
      (ofDigits? 10 ds).map fun n => if negative then -(n : Int) else n
    else none

/-- A decimal without a sign: digits, of which a point may stand before, between or behind, and an
exponent. -/
def decimal? (negative : Bool) (t : Text) : Option Binary64 :=
  let whole := t.takeWhile Text.isDigit
  let r := t.drop whole.length
  let (frac, r) := match r with
    | '.' :: r => (r.takeWhile Text.isDigit, r.dropWhile Text.isDigit)
    | _ => ([], r)
  match ofDigits? 10 (whole ++ frac), exponent? r with
  | some n, some e => some (Binary64.ofDecimal negative n (e - frac.length))
  | _, _ => none

/-- A real in small letters, with its own sign and with blanks around it. -/
def real (t : Text) : Except Fault Binary64 :=
  let (negative, r) := withoutSign t.strip
  if r = "inf".toList ∨ r = "infinity".toList then .ok (.infinite negative)
  else if r = "nan".toList then .ok .nan
  else match decimal? negative r with
    | some x => .ok x
    | none => .error (.notReal t)

/-- The value of digits of base sixty, the last one first, with the weight of the next one. -/
def sixtyReal : Nat → Binary64 → List Binary64 → Binary64
  | _, sum, [] => sum
  | weight, sum, d :: ds => sixtyReal (weight * 60) (sum.add (d.mul (.ofNat weight))) ds

/-- The real that a scalar writes. -/
def float (t : Text) : Except Fault Binary64 := do
  let (negative, r) ← signed ((withoutUnderscores t).map Char.toLower)
  let x ←
    if r = ".inf".toList then .ok (.infinite false)
    else if r = ".nan".toList then .ok .nan
    else if r.contains ':' then
      ((Text.splitOn ':' r).mapM real).map fun ds => sixtyReal 1 (.ofNat 0) ds.reverse
    else real r
  return if negative then x.neg else x

end Restage.Yaml.Number
