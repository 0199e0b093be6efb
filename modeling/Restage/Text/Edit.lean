import Restage.Text.Basic

/-!
Replacing several spans of a text at once. The edits are applied from the last to the first, so
that the positions of those still to come stay those of the text at the outset.
-/

set_option autoImplicit false

namespace Restage

structure Edit where
  span : Span
  text : Text
deriving DecidableEq, Repr

namespace Edit

/-- Whether an edit starts later than another, or at the same place and ends no earlier. -/
def later (a b : Edit) : Bool :=
  b.span.start < a.span.start || (a.span.start == b.span.start && b.span.stop ≤ a.span.stop)

def apply (e : Edit) (t : Text) : Text :=
  t.take e.span.start ++ e.text ++ t.drop e.span.stop

/-- Applies edits in the given order; each has to end where the one before it starts, or earlier.
The error is the start of the first that does not. -/
def applyFrom : Option Nat → Text → List Edit → Except Nat Text
  | _, t, [] => .ok t
  | none, t, e :: es => applyFrom (some e.span.start) (e.apply t) es
  | some limit, t, e :: es =>
    if limit < e.span.stop then .error e.span.start
    else applyFrom (some e.span.start) (e.apply t) es

/-- Applies edits given in any order. -/
def applyAll (t : Text) (es : List Edit) : Except Nat Text :=
  applyFrom none t (es.mergeSort later)

/-- Replaces spans given in ascending order, in one pass from the left. The text begins at
position `i`. -/
def splice : Nat → Text → List Edit → Text
  | _, t, [] => t
  | i, t, e :: es =>
    t.take (e.span.start - i) ++ e.text ++ splice e.span.stop (t.drop (e.span.stop - i)) es

end Edit
end Restage
