import Restage.Text.Basic

/-!
Numbers of 64-bit binary floating point, as exact integers. `ofRatio` rounds a quotient to the
nearest number, ties to even; `shortest` finds the fewest decimal digits that read back.
-/

set_option autoImplicit false

namespace Restage

/-- A number `m * 2 ^ q`, with `m` below `2 ^ 53` and `q` from -1074 to 971, or one of the three
values that are not finite. -/
inductive Binary64 where
  | finite (negative : Bool) (m : Nat) (q : Int)
  | infinite (negative : Bool)
  | nan
deriving DecidableEq, Repr

namespace Binary64

def leastExponent : Int := -1074
def greatestExponent : Int := 971

/-- A power of two; one where the exponent is negative. -/
def twoTo (q : Int) : Nat := Nat.pow 2 q.toNat

/-- A power of ten; one where the exponent is negative. -/
def tenTo (k : Int) : Nat := Nat.pow 10 k.toNat

/-- A quotient rounded to the nearest integer, a half to the even neighbour. -/
def roundDiv (num den : Nat) : Nat :=
  let q := num / den
  let r := num % den
  if 2 * r < den then q
  else if den < 2 * r then q + 1
  else if q % 2 = 0 then q else q + 1

/-- `num * 2 ^ -q / den` as a pair of naturals. -/
def scaleTwo (num den : Nat) (q : Int) : Nat × Nat :=
  if q < 0 then (num * twoTo (-q), den) else (num, den * twoTo q)

/-- The exponent at which a positive quotient has 53 digits, or the least one. -/
def exponentOf (num den : Nat) : Int :=
  let l : Int := (Nat.log2 num : Int) - Nat.log2 den
  let (a, b) := scaleTwo num den l
  max leastExponent (if a < b then l - 53 else l - 52)

/-- The number nearest to `num / den`. -/
def ofRatio (negative : Bool) (num den : Nat) : Binary64 :=
  if num = 0 then finite negative 0 leastExponent
  else
    let q := exponentOf num den
    let (a, b) := scaleTwo num den q
    let m := roundDiv a b
    let (m, q) := if m = twoTo 53 then (twoTo 52, q + 1) else (m, q)
    if greatestExponent < q then infinite negative else finite negative m q

/-- The number nearest to `digits * 10 ^ e`. Magnitudes beyond `10 ^ 400` and below `10 ^ -400`
round as if they were there. -/
def ofDecimal (negative : Bool) (digits : Nat) (e : Int) : Binary64 :=
  let size : Int := (Text.decimal digits).length + e
  if digits = 0 then finite negative 0 leastExponent
  else if 400 < size then infinite negative
  else if size < -400 then finite negative 0 leastExponent
  else if e < 0 then ofRatio negative digits (tenTo (-e))
  else ofRatio negative (digits * tenTo e) 1

/-- `num / den / 10 ^ k` as a pair of naturals. -/
def scaleTen (num den : Nat) (k : Int) : Nat × Nat :=
  if k < 0 then (num * tenTo (-k), den) else (num, den * tenTo k)

/-- The exponent of the first decimal digit of a positive quotient. -/
def decimalExponent (num den : Nat) : Int :=
  let e := Int.fdiv (((Nat.log2 num : Int) - Nat.log2 den) * 30103) 100000
  let atLeast (k : Int) : Bool := let (a, b) := scaleTen num den k; b ≤ a
  if atLeast (e + 1) then e + 1 else if atLeast e then e else e - 1

/-- The reals that round to `m * 2 ^ q`, in units of a quarter of the last place: the least and
the greatest; both belong to it when `m` is even. -/
def interval (m : Nat) (q : Int) : Nat × Nat :=
  (if m = twoTo 52 ∧ leastExponent < q then 4 * m - 1 else 4 * m - 2, 4 * m + 2)

/-- The point of the grid of `10 ^ k` that reads back as `m * 2 ^ q` and is nearest to it, among
the two neighbours of that number. -/
def gridPoint? (m : Nat) (q : Int) (k : Int) : Option Nat :=
  let (lo, hi) := interval m q
  -- all of the interval in units of `10 ^ k / b`
  let (unit, b₀) := if q - 2 < 0 then (1, twoTo (2 - q)) else (twoTo (q - 2), 1)
  let (a, b) := scaleTen unit b₀ k
  let value := 4 * m * a
  let down := value / b
  let inside (x : Nat) : Bool :=
    if m % 2 = 0 then lo * a ≤ x * b && x * b ≤ hi * a else lo * a < x * b && x * b < hi * a
  match inside down, inside (down + 1) with
  | true, true =>
    let below := value - down * b
    let above := (down + 1) * b - value
    some (if below < above then down
      else if above < below then down + 1
      else if down % 2 = 0 then down else down + 1)
  | true, false => some down
  | false, true => some (down + 1)
  | false, false => none

/-- Tries grids of more and more digits. -/
def searchGrid (m : Nat) (q : Int) (top : Int) : Nat → Nat → Nat × Int
  | 0, n => (m, top - n)
  | fuel + 1, n =>
    match gridPoint? m q (top + 1 - n) with
    | some d => (d, top + 1 - n)
    | none => searchGrid m q top fuel (n + 1)

/-- The fewest decimal digits that read back as a positive number `m * 2 ^ q`, with the exponent
of their last one. Seventeen always do. -/
def shortest (m : Nat) (q : Int) : Nat × Int :=
  let (a, b) := if q < 0 then (m, twoTo (-q)) else (m * twoTo q, 1)
  searchGrid m q (decimalExponent a b) 17 1

/-- Takes trailing zeros of digits into the exponent. -/
def stripZeros : Nat → Nat → Int → Nat × Int
  | 0, d, k => (d, k)
  | fuel + 1, d, k => if d ≠ 0 ∧ d % 10 = 0 then stripZeros fuel (d / 10) (k + 1) else (d, k)

/-- Digits with the point after `point` of them: positional while the first digit's exponent is
from -4 to 15, else scientific with at least two digits in the exponent. -/
def place (digits : Text) (point : Int) : Text :=
  let n : Int := digits.length
  if -4 < point ∧ point ≤ 16 then
    if point ≤ 0 then "0.".toList ++ List.replicate (-point).toNat '0' ++ digits
    else if n ≤ point then digits ++ List.replicate (point - n).toNat '0' ++ ".0".toList
    else digits.take point.toNat ++ ['.'] ++ digits.drop point.toNat
  else
    let e := point - 1
    let size := Text.decimal e.natAbs
    digits.take 1 ++ (if digits.length ≤ 1 then [] else '.' :: digits.drop 1) ++
      ['e', if e < 0 then '-' else '+'] ++ (if size.length < 2 then '0' :: size else size)

def sign (negative : Bool) : Text := if negative then ['-'] else []

/-- The shortest text of a finite number. -/
def finiteText (negative : Bool) (m : Nat) (q : Int) : Text :=
  if m = 0 then sign negative ++ "0.0".toList
  else
    let (d, k) := shortest m q
    let (d, k) := stripZeros 20 d k
    let digits := Text.decimal d
    sign negative ++ place digits (k + digits.length)

end Binary64
end Restage
