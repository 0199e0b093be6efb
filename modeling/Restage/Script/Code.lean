import Restage.Script.Lexeme
import Restage.Text.Pattern

/-!
Which characters of a script are code. `codeMask` marks every character, `literalSpans` lists the
literals, and `codeIn` goes through the code characters of a stretch.
-/

set_option autoImplicit false

namespace Restage.Script

/-- One mark per character: whether it is code. -/
def maskOf (xs : List Lexeme) : List Bool :=
  xs.flatMap fun x => List.replicate x.text.length (!x.kind.isLiteral)

def codeMask (t : Text) : List Bool := maskOf (lexemes t)

/-- The spans of the literals among lexemes that begin at a position. -/
def spansFrom : Nat → List Lexeme → List Span
  | _, [] => []
  | i, x :: xs =>
    let rest := spansFrom (i + x.text.length) xs
    if x.kind.isLiteral then ⟨i, i + x.text.length⟩ :: rest else rest

/-- The literals of a script, from left to right; neighbours are not merged. -/
def literalSpans (t : Text) : List Span := spansFrom 0 (lexemes t)

/-- Whether a position is outside every literal; positions past the end are. -/
def isCode (t : Text) (i : Nat) : Bool := (codeMask t).getD i true

/-- A character of a script with its position and whether it is code. -/
structure Marked where
  index : Nat
  char : Char
  code : Bool
deriving DecidableEq, Repr

def markedFrom : Nat → Text → List Bool → List Marked
  | i, c :: cs, b :: bs => ⟨i, c, b⟩ :: markedFrom (i + 1) cs bs
  | _, _, _ => []

def marked (t : Text) : List Marked := markedFrom 0 t (codeMask t)

/-- The code characters in a stretch, in order. -/
def codeWithin (ms : List Marked) (start stop : Nat) : List Marked :=
  ms.filter fun m => m.code && start ≤ m.index && m.index < stop

/-- The code characters of a script in a stretch of it, in order. -/
def codeIn (t : Text) (start stop : Nat) : List Marked := codeWithin (marked t) start stop

/-- Those among code characters that stand outside every pair of braces, for a given depth. -/
def topLevelFrom : Int → List Marked → List Nat
  | _, [] => []
  | depth, m :: ms =>
    if m.char = '{' then topLevelFrom (depth + 1) ms
    else if m.char = '}' then topLevelFrom (depth - 1) ms
    else if depth = 0 then m.index :: topLevelFrom depth ms
    else topLevelFrom depth ms

/-- The code positions of a stretch at brace depth zero, in ascending order. -/
def topLevel (t : Text) (start stop : Nat) : List Nat := topLevelFrom 0 (codeIn t start stop)

/-- The leftmost fit of a pattern in a stretch that begins at brace depth zero, in a text whose
marked characters are at hand. -/
def searchTopLevelIn (ms : List Marked) (p : Pattern) (t : Text) (start stop : Nat) : Option Hit :=
  let hits := p.hits (t.window start stop)
  if hits.isEmpty then none
  else
    let top := topLevelFrom 0 (codeWithin ms start stop)
    hits.find? fun h => top.contains h.start

/-- The leftmost fit of a pattern in a stretch that begins at brace depth zero. -/
def searchTopLevel (p : Pattern) (t : Text) (start stop : Nat) : Option Hit :=
  searchTopLevelIn (marked t) p t start stop

theorem length_maskOf (xs : List Lexeme) :
    (maskOf xs).length = (xs.flatMap (·.text)).length := by
  induction xs with
  | nil => rfl
  | cons x xs ih => simp [maskOf] at ih ⊢

theorem length_codeMask (t : Text) : (codeMask t).length = t.length := by
  rw [codeMask, length_maskOf, flatMap_lexemes]

end Restage.Script
