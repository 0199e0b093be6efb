import Restage.Number.Binary64

/-!
Sums and products of floating point numbers: the exact result, rounded to the nearest number.
-/

set_option autoImplicit false

namespace Restage.Binary64

def neg : Binary64 → Binary64
  | finite negative m q => finite (!negative) m q
  | infinite negative => infinite (!negative)
  | nan => nan

def ofNat (n : Nat) : Binary64 := ofRatio false n 1

def isZero : Binary64 → Bool
  | finite _ m _ => m == 0
  | _ => false

def isNegative : Binary64 → Bool
  | finite negative _ _ => negative
  | infinite negative => negative
  | nan => false

/-- The number nearest to `m * 2 ^ q`. -/
def ofScaled (negative : Bool) (m : Nat) (q : Int) : Binary64 :=
  if q < 0 then ofRatio negative m (twoTo (-q)) else ofRatio negative (m * twoTo q) 1

def mul : Binary64 → Binary64 → Binary64
  | finite s m p, finite t n q => ofScaled (s != t) (m * n) (p + q)
  | nan, _ => nan
  | _, nan => nan
  | x, y =>
    if x.isZero || y.isZero then nan else infinite (x.isNegative != y.isNegative)

/-- A number in units of `2 ^ q`, where `q` is not above its exponent. -/
def units (negative : Bool) (m : Nat) (p q : Int) : Int :=
  let n : Int := m * twoTo (p - q)
  if negative then -n else n

/-- The sign of a zero sum is negative only where both parts are. -/
def add : Binary64 → Binary64 → Binary64
  | finite s m p, finite t n q =>
    let k := min p q
    let sum := units s m p k + units t n q k
    ofScaled (if sum = 0 then s && t else sum < 0) sum.natAbs k
  | nan, _ => nan
  | _, nan => nan
  | infinite s, infinite t => if s = t then infinite s else nan
  | infinite s, _ => infinite s
  | _, infinite t => infinite t

end Restage.Binary64
