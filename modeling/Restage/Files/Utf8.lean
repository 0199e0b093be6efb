import Restage.Text.Quoted

/-!
UTF-8. `decode` reads bytes and says what is wrong with the first run that is not well formed;
`encode` writes a text.
-/

set_option autoImplicit false

namespace Restage

abbrev Bytes := List UInt8

namespace Utf8

inductive Flaw where
  | startByte | continuation | truncated
deriving DecidableEq, Repr

def Flaw.message : Flaw → String
  | startByte => "invalid start byte"
  | continuation => "invalid continuation byte"
  | truncated => "unexpected end of data"

/-- The first run of bytes that is not well formed. -/
structure Fault where
  start : Nat
  length : Nat
  first : UInt8
  flaw : Flaw
deriving DecidableEq, Repr

def Fault.message (f : Fault) : String :=
  "'utf-8' codec can't decode " ++
    (if f.length = 1 then
      "byte 0x" ++ (Text.hexDigits 2 f.first.toNat).str ++ " in position " ++ toString f.start
    else "bytes in position " ++ toString f.start ++ "-" ++ toString (f.start + f.length - 1)) ++
    ": " ++ f.flaw.message

def isContinuation (b : UInt8) : Bool := 0x80 ≤ b && b ≤ 0xBF

/-- How many bytes follow a first byte. -/
def following (b : UInt8) : Option Nat :=
  if b < 0x80 then some 0
  else if 0xC2 ≤ b && b ≤ 0xDF then some 1
  else if 0xE0 ≤ b && b ≤ 0xEF then some 2
  else if 0xF0 ≤ b && b ≤ 0xF4 then some 3
  else none

/-- Whether a second byte fits a first one: no overlong form, no surrogate, nothing past the last
code point. -/
def secondFits (b c : UInt8) : Bool :=
  isContinuation c && (b != 0xE0 || 0xA0 ≤ c) && (b != 0xED || c < 0xA0) &&
    (b != 0xF0 || 0x90 ≤ c) && (b != 0xF4 || c < 0x90)

/-- The bits that a byte of a longer form carries. -/
def leadBits (n : Nat) (b : UInt8) : Nat :=
  match n with
  | 0 => b.toNat
  | 1 => b.toNat % 32
  | 2 => b.toNat % 16
  | _ => b.toNat % 8

/-- The code point of a form, or its flaw and how many bytes it spoils. -/
def form (b : UInt8) (rest : Bytes) : Except (Flaw × Nat) (Nat × Nat) :=
  match following b with
  | none => .error (.startByte, 1)
  | some n =>
    let good := match rest with
      | c :: cs => if secondFits b c then c :: cs.takeWhile isContinuation else []
      | [] => []
    let tail := good.take n
    if tail.length = n then
      .ok (tail.foldl (fun v c => v * 64 + c.toNat % 64) (leadBits n b), n)
    else if tail.length = rest.length then .error (.truncated, tail.length + 1)
    else .error (.continuation, tail.length + 1)

/-- Decodes bytes that begin at a position; the first `skip` of them belong to a form already
read. -/
def decodeFrom : Nat → Nat → Bytes → Except Fault Text
  | _, _, [] => .ok []
  | i, skip + 1, _ :: bs => decodeFrom (i + 1) skip bs
  | i, 0, b :: bs =>
    match form b bs with
    | .error (flaw, n) => .error ⟨i, n, b, flaw⟩
    | .ok (v, n) => (decodeFrom (i + 1) n bs).map (Char.ofNat v :: ·)

def decode (bs : Bytes) : Except Fault Text := decodeFrom 0 0 bs

def encodeChar (c : Char) : Bytes :=
  let n := c.toNat
  if n < 0x80 then [n.toUInt8]
  else if n < 0x800 then [(0xC0 + n / 64).toUInt8, (0x80 + n % 64).toUInt8]
  else if n < 0x10000 then
    [(0xE0 + n / 4096).toUInt8, (0x80 + n / 64 % 64).toUInt8, (0x80 + n % 64).toUInt8]
  else
    [(0xF0 + n / 262144).toUInt8, (0x80 + n / 4096 % 64).toUInt8, (0x80 + n / 64 % 64).toUInt8,
      (0x80 + n % 64).toUInt8]

def encode (t : Text) : Bytes := t.flatMap encodeChar

/-- Every line end of a file is read as a line feed. -/
def unifyLineEnds : Text → Text
  | [] => []
  | '\r' :: '\n' :: cs => '\n' :: unifyLineEnds cs
  | c :: cs => (if c = '\r' then '\n' else c) :: unifyLineEnds cs

end Utf8
end Restage
