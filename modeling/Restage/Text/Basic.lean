import Restage.Text.WordTable
import Restage.Text.IdentifierTable

/-!
Texts, positions in them, and the character classes that the rest of the library asks for. A text
is a list of characters, a position is an index into that list, and a span is half open.
-/

set_option autoImplicit false

namespace Restage

abbrev Text := List Char

/-- The positions from `start` up to, not including, `stop`. -/
structure Span where
  start : Nat
  stop : Nat
deriving DecidableEq, Repr

namespace Text

/-- A property of all characters of a text is decided by going through the text. -/
instance (priority := high) decidableAll (p : Char → Prop) [DecidablePred p] (t : List Char) :
    Decidable (∀ c ∈ t, p c) := List.decidableBAll p t

def ofString (s : String) : Text := s.toList

def str (t : Text) : String := String.ofList t

/-- Membership in a list of closed ranges. -/
def inRanges (n : Nat) (ranges : List (Nat × Nat)) : Bool :=
  ranges.any fun r => r.1 ≤ n && n ≤ r.2

/-- White space of Unicode together with the four ASCII separators. -/
def isBlank (c : Char) : Bool :=
  let n := c.toNat
  (9 ≤ n && n ≤ 13) || (28 ≤ n && n ≤ 32) || n == 0x85 || n == 0xA0 || n == 0x1680 ||
    (0x2000 ≤ n && n ≤ 0x200A) || n == 0x2028 || n == 0x2029 || n == 0x202F || n == 0x205F ||
    n == 0x3000

/-- Letters, numeric characters and the underscore. -/
def isWord (c : Char) : Bool :=
  if c.toNat < 128 then c.isAlphanum || c == '_' else inRanges c.toNat wordRanges

def isDigit (c : Char) : Bool := '0' ≤ c && c ≤ '9'

/-- The first character of a script name, as the recognised forms write it. -/
def isNameStart (c : Char) : Bool := c.isAlpha || c == '_' || c == '$'

/-- A later character of a script name. -/
def isNamePart (c : Char) : Bool := isWord c || c == '$'

def isIdentifierStart (c : Char) : Bool :=
  if c.toNat < 128 then c.isAlpha || c == '_' else inRanges c.toNat identifierStartRanges

def isIdentifierPart (c : Char) : Bool :=
  if c.toNat < 128 then c.isAlphanum || c == '_' else inRanges c.toNat identifierPartRanges

/-- A plain identifier: a start character and then identifier parts. -/
def isIdentifier : Text → Bool
  | [] => false
  | c :: cs => isIdentifierStart c && cs.all isIdentifierPart

/-- A script name: a name start and then name parts. -/
def isName : Text → Bool
  | [] => false
  | c :: cs => isNameStart c && cs.all isNamePart

/-- Drops the characters of a class from both ends. -/
def trim (p : Char → Bool) (t : Text) : Text :=
  ((t.dropWhile p).reverse.dropWhile p).reverse

/-- Drops the characters of a class from the end. -/
def trimEnd (p : Char → Bool) (t : Text) : Text := (t.reverse.dropWhile p).reverse

def strip (t : Text) : Text := trim isBlank t

/-- The part of a text in a span. -/
def slice (t : Text) (s : Span) : Text := (t.take s.stop).drop s.start

/-- The line of a position, counted from one; lines end at a line feed. -/
def lineOf (t : Text) (i : Nat) : Nat := (t.take i).count '\n' + 1

/-- The decimal digits of a number. -/
def decimal (n : Nat) : Text := Nat.toDigits 10 n

/-- The decimal digits of an integer behind its sign. -/
def ofInt (i : Int) : Text := if i < 0 then '-' :: decimal i.natAbs else decimal i.natAbs

/-- What follows a given beginning. -/
def after? : Text → Text → Option Text
  | [], t => some t
  | _ :: _, [] => none
  | c :: cs, d :: ds => if c = d then after? cs ds else none

def startsWith (t s : Text) : Bool := (after? s t).isSome

def endsWith (t s : Text) : Bool := startsWith t.reverse s.reverse

/-- The parts between the occurrences of a character. -/
def splitOn (sep : Char) : Text → List Text
  | [] => [[]]
  | c :: cs =>
    if c = sep then [] :: splitOn sep cs
    else match splitOn sep cs with
      | [] => [[c]]
      | p :: ps => (c :: p) :: ps

/-- The parts between the characters of a class. -/
def splitWhere (p : Char → Bool) : Text → List Text
  | [] => [[]]
  | c :: cs =>
    if p c then [] :: splitWhere p cs
    else match splitWhere p cs with
      | [] => [[c]]
      | q :: qs => (c :: q) :: qs

def joinWith (sep : Text) : List Text → Text
  | [] => []
  | [t] => t
  | t :: u :: ts => t ++ sep ++ joinWith sep (u :: ts)

/-- Position of the first occurrence of a non-empty text. -/
def find? (s : Text) : Text → Option Nat
  | [] => if s.isEmpty then some 0 else none
  | c :: cs => if startsWith (c :: cs) s then some 0 else (find? s cs).map (· + 1)

/-- The text without the first occurrence of a part; unchanged when there is none. -/
def erase (t part : Text) : Text :=
  match find? part t with
  | none => t
  | some i => t.take i ++ t.drop (i + part.length)

theorem after?_eq_some {s t r : Text} : after? s t = some r ↔ t = s ++ r := by
  induction s generalizing t with
  | nil => simp [after?, eq_comm]
  | cons c cs ih =>
    cases t with
    | nil => simp [after?]
    | cons d ds =>
      by_cases h : c = d
      · subst h; simp [after?, ih]
      · simp [after?, h]; intro h'; exact absurd h'.symm h

theorem joinWith_splitOn (sep : Char) (t : Text) : joinWith [sep] (splitOn sep t) = t := by
  induction t with
  | nil => rfl
  | cons c cs ih =>
    unfold splitOn
    split
    · next h =>
      subst h
      cases hs : splitOn c cs with
      | nil => cases cs <;> simp [splitOn] at hs; split at hs <;> (try split at hs) <;> simp at hs
      | cons p ps => simp [joinWith, ← hs, ih]
    · cases hs : splitOn sep cs with
      | nil => simp [hs, joinWith] at ih; simp [joinWith, ← ih]
      | cons p ps =>
        rw [hs] at ih
        cases ps <;> simp_all [joinWith]

end Text
end Restage
