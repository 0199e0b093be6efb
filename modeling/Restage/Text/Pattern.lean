import Restage.Text.Basic

/-!
Patterns over text. A pattern asks for something about the character before it and then reads
its pieces from left to right; every piece takes one determined stretch of text, so a pattern fits
at a position in at most one way. `Piece.split?_append` says that a piece only cuts the text in two.
-/

set_option autoImplicit false

namespace Restage

/-- One step of a pattern. -/
inductive Piece where
  /-- exactly these characters -/
  | word (s : Text)
  /-- the longest run of a class, at least so many characters -/
  | run (least : Nat) (p : Char → Bool)
  /-- these characters if they stand here, else nothing -/
  | maybe (s : Text)
  /-- the first of these words that stands here -/
  | oneOf (ws : List Text)
  /-- takes nothing, and asks for something about what follows -/
  | ahead (ok : Text → Bool)

namespace Piece

def split? : Piece → Text → Option (Text × Text)
  | word s, t => (Text.after? s t).map (s, ·)
  | run least p, t =>
    if least ≤ (t.takeWhile p).length then some (t.takeWhile p, t.dropWhile p) else none
  | maybe s, t =>
    match Text.after? s t with
    | some r => some (s, r)
    | none => some ([], t)
  | oneOf ws, t => ws.findSome? fun w => (Text.after? w t).map (w, ·)
  | ahead ok, t => if ok t then some ([], t) else none

theorem split?_append {p : Piece} {t a r : Text} (h : p.split? t = some (a, r)) :
    t = a ++ r := by
  cases p with
  | word s =>
    simp only [split?, Option.map_eq_some_iff] at h
    obtain ⟨u, hu, he⟩ := h
    cases he; exact Text.after?_eq_some.1 hu
  | run least p =>
    simp only [split?] at h
    split at h <;> simp at h
    rw [← h.1, ← h.2, List.takeWhile_append_dropWhile]
  | maybe s =>
    simp only [split?] at h
    split at h
    · next hr => simp at h; rw [← h.1, ← h.2]; exact Text.after?_eq_some.1 hr
    · simp at h; simp [← h.1, ← h.2]
  | oneOf ws =>
    simp only [split?] at h
    obtain ⟨w, _, hw⟩ := List.exists_of_findSome?_eq_some h
    simp only [Option.map_eq_some_iff] at hw
    obtain ⟨u, hu, he⟩ := hw
    cases he; exact Text.after?_eq_some.1 hu
  | ahead ok =>
    simp only [split?] at h
    split at h <;> simp at h
    simp [← h.1, ← h.2]

/-- What each piece takes, in order, and what is left. -/
def readAll : List Piece → Text → Option (List Text × Text)
  | [], t => some ([], t)
  | p :: ps, t =>
    match p.split? t with
    | none => none
    | some (a, r) => (readAll ps r).map fun x => (a :: x.1, x.2)

theorem readAll_flatten {ps : List Piece} {t r : Text} {parts : List Text}
    (h : readAll ps t = some (parts, r)) : t = parts.flatten ++ r := by
  induction ps generalizing t parts with
  | nil =>
    simp only [readAll, Option.some.injEq, Prod.mk.injEq] at h
    rw [← h.1, ← h.2]; simp
  | cons p ps ih =>
    simp only [readAll] at h
    split at h
    · simp at h
    · next a u hp =>
      simp only [Option.map_eq_some_iff] at h
      obtain ⟨⟨qs, v⟩, hq, he⟩ := h
      simp at he
      obtain ⟨rfl, rfl⟩ := he
      rw [split?_append hp, ih hq]; simp

end Piece

/-- A condition on the character before, and pieces. -/
structure Pattern where
  behind : Option Char → Bool
  pieces : List Piece

/-- A fit of a pattern: where it begins and what each piece took. -/
structure Hit where
  start : Nat
  parts : List Text
deriving DecidableEq, Repr

namespace Hit

def text (h : Hit) : Text := h.parts.flatten
def stop (h : Hit) : Nat := h.start + h.text.length
def span (h : Hit) : Span := ⟨h.start, h.stop⟩

/-- What the piece of the given number took. -/
def part (h : Hit) (i : Nat) : Text := h.parts.getD i []

end Hit

/-- A stretch of a text, with the character before it. -/
structure Window where
  before : Option Char
  start : Nat
  text : Text
deriving Repr

def Text.window (t : Text) (start stop : Nat) : Window where
  before := if start = 0 then none else t[start - 1]?
  start := start
  text := (t.take stop).drop start

def Text.entire (t : Text) : Window := ⟨none, 0, t⟩

namespace Pattern

/-- The parts taken when the pattern fits at the head of a text. -/
def fits? (p : Pattern) (before : Option Char) (t : Text) : Option (List Text) :=
  if p.behind before then (Piece.readAll p.pieces t).map (·.1) else none

/-- The fits from the left that do not overlap; the first `skip` characters are passed over.
After an empty fit the next one begins a character later. -/
def hitsFrom (p : Pattern) : Option Char → Nat → Nat → Text → List Hit
  | before, i, 0, [] =>
    match p.fits? before [] with
    | some parts => [⟨i, parts⟩]
    | none => []
  | _, _, _ + 1, [] => []
  | before, i, 0, c :: cs =>
    match p.fits? before (c :: cs) with
    | some parts => ⟨i, parts⟩ :: hitsFrom p (some c) (i + 1) (parts.flatten.length - 1) cs
    | none => hitsFrom p (some c) (i + 1) 0 cs
  | _, i, skip + 1, c :: cs => hitsFrom p (some c) (i + 1) skip cs

def hits (p : Pattern) (w : Window) : List Hit := p.hitsFrom w.before w.start 0 w.text

/-- The leftmost fit. -/
def firstFrom? (p : Pattern) : Option Char → Nat → Text → Option Hit
  | before, i, [] => (p.fits? before []).map (⟨i, ·⟩)
  | before, i, c :: cs =>
    match p.fits? before (c :: cs) with
    | some parts => some ⟨i, parts⟩
    | none => firstFrom? p (some c) (i + 1) cs

def first? (p : Pattern) (w : Window) : Option Hit := p.firstFrom? w.before w.start w.text

theorem head?_hitsFrom (p : Pattern) (before : Option Char) (i : Nat) (t : Text) :
    (p.hitsFrom before i 0 t).head? = p.firstFrom? before i t := by
  induction t generalizing before i with
  | nil => cases h : p.fits? before [] <;> simp [hitsFrom, firstFrom?, h]
  | cons c cs ih => cases h : p.fits? before (c :: cs) <;> simp [hitsFrom, firstFrom?, h, ih]

end Pattern

/-! Conditions that several patterns share. -/

namespace Pattern

/-- At the beginning of a text or right after a line feed. -/
def lineStart : Option Char → Bool
  | none => true
  | some c => c == '\n'

/-- Not after a name character or a dot, so that a name begins here. -/
def freshName : Option Char → Bool
  | none => true
  | some c => !(Text.isNamePart c || c == '.')

def anywhere : Option Char → Bool := fun _ => true

/-- Not after a word character. -/
def wordStart : Option Char → Bool
  | none => true
  | some c => !Text.isWord c

end Pattern

namespace Piece

/-- The next character, if any, is in the class. -/
def nextIs (p : Char → Bool) : Piece :=
  ahead fun t => match t with
    | [] => false
    | c :: _ => p c

/-- The next character, if any, is outside the class. -/
def nextIsNot (p : Char → Bool) : Piece :=
  ahead fun t => match t with
    | [] => true
    | c :: _ => !p c

def blanks : Piece := run 0 Text.isBlank

def isIndent (c : Char) : Bool := c == ' ' || c == '\t'

/-- Spaces and tabs, possibly none. -/
def gap : Piece := run 0 isIndent

/-- At least one space or tab. -/
def gaps : Piece := run 1 isIndent

/-- The two pieces of a name: its start is checked, then it is taken whole. -/
def name : List Piece := [nextIs Text.isNameStart, run 1 Text.isNamePart]

def lit (s : String) : Piece := word s.toList

end Piece
end Restage
