import Restage.Text.Basic

/-!
A place in a YAML text: what is left of it, and how far from its beginning and from the beginning
of its line that is. The end reads as a null character, which no text holds.
-/

set_option autoImplicit false

namespace Restage.Yaml

/-- Texts that YAML cannot hold, and structure that it does not allow. -/
inductive Fault where
  | unprintable
  | token
  | node
  | anchor
  | tag
  | key
deriving DecidableEq, Repr

def Fault.message : Fault → String
  | unprintable => "a character is not allowed"
  | token => "no token can begin here"
  | node => "a node is out of place"
  | anchor => "an anchor is unknown or set twice"
  | tag => "a tag is unknown"
  | key => "a key is out of place"

def isBreak (c : Char) : Bool :=
  c == '\n' || c == '\r' || c.toNat == 0x85 || c.toNat == 0x2028 || c.toNat == 0x2029

def isEnd (c : Char) : Bool := c == '\x00'
def isBreakOrEnd (c : Char) : Bool := isBreak c || isEnd c

/-- A blank or tab, a line break or the end. -/
def isGap (c : Char) : Bool := c == ' ' || c == '\t' || isBreakOrEnd c

/-- A blank, a line break or the end. -/
def isSpaceOrEnd (c : Char) : Bool := c == ' ' || isBreakOrEnd c

def isPrintable (c : Char) : Bool :=
  let n := c.toNat
  n == 9 || n == 10 || n == 13 || (0x20 ≤ n && n ≤ 0x7E) || n == 0x85 ||
    (0xA0 ≤ n && n ≤ 0xFFFD) || 0x10000 ≤ n

def isWordChar (c : Char) : Bool := c.isAlphanum || c == '-' || c == '_'

structure Cursor where
  rest : Text
  index : Nat
  line : Nat
  column : Nat
deriving Repr

namespace Cursor

def ofText (t : Text) : Cursor := ⟨t, 0, 0, 0⟩

def peek (c : Cursor) (n : Nat) : Char := c.rest.getD n '\x00'
def here (c : Cursor) : Char := c.peek 0

/-- Goes past so many characters. -/
def advance (c : Cursor) : Nat → Cursor
  | 0 => c
  | n + 1 =>
    match c.rest with
    | [] => c
    | x :: xs =>
      let next : Cursor :=
        if isBreak x && !(x == '\r' && xs.head? == some '\n') then ⟨xs, c.index + 1, c.line + 1, 0⟩
        else if x.toNat = 0xFEFF then ⟨xs, c.index + 1, c.line, c.column⟩
        else ⟨xs, c.index + 1, c.line, c.column + 1⟩
      next.advance n

/-- The run of a class at this place. -/
def run (c : Cursor) (p : Char → Bool) : Text := c.rest.takeWhile p

def skipRun (c : Cursor) (p : Char → Bool) : Cursor := c.advance (c.run p).length

def skipBlanks (c : Cursor) : Cursor := c.skipRun (· == ' ')

/-- A line break at this place, as it counts in a scalar, and the place behind it. -/
def lineBreak (c : Cursor) : Text × Cursor :=
  if c.here == '\r' && c.peek 1 == '\n' then (['\n'], c.advance 2)
  else if c.here.toNat == 0x2028 || c.here.toNat == 0x2029 then ([c.here], c.advance 1)
  else if isBreak c.here then (['\n'], c.advance 1)
  else ([], c)

/-- Whether a document marker stands here. -/
def atMarker (c : Cursor) : Bool :=
  (Text.startsWith c.rest ['-', '-', '-'] || Text.startsWith c.rest ['.', '.', '.']) &&
    isGap (c.peek 3)

/-- Takes breaks, each with the blanks before it, as long as `more` blanks are allowed. -/
def breaks (p : Cursor → Bool) : Nat → Cursor → Text × Cursor
  | 0, c => ([], c)
  | fuel + 1, c =>
    if p c then breaks p fuel (c.advance 1)
    else if isBreak c.here then
      let (b, d) := c.lineBreak
      let (bs, e) := breaks p fuel d
      (b ++ bs, e)
    else ([], c)

def size (c : Cursor) : Nat := c.rest.length

end Cursor
end Restage.Yaml
