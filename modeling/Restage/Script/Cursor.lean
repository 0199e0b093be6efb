import Restage.Script.Code

/-!
Two ways to ask which characters are code. `outside` asks for one position and finds the literal at it
by binary search; `scanCode` goes through a stretch with a cursor over the literals, which a binary
search sets where the stretch begins.
-/

set_option autoImplicit false

namespace Restage.Script

/-- How many of ascending numbers are at most `x`, when those in front of `lo` are and those from
`hi` on are not. -/
def bisectFrom (xs : Array Nat) (x lo hi : Nat) : Nat :=
  if lo < hi then
    if x < xs.getD ((lo + hi) / 2) 0 then bisectFrom xs x lo ((lo + hi) / 2)
    else bisectFrom xs x ((lo + hi) / 2 + 1) hi
  else lo
termination_by hi - lo

/-- How many spans begin at a position or before it. -/
def begunBy (ss : List Span) (i : Nat) : Nat :=
  bisectFrom (ss.map (·.start)).toArray i 0 ss.length

/-- Whether a position is outside spans: the last one begun by then is over. -/
def outside (ss : List Span) (i : Nat) : Bool :=
  match begunBy ss i with
  | 0 => true
  | n + 1 => ss[n]?.all fun s => s.stop ≤ i

/-- The spans that are not over at a position, from the first such one on. -/
def pending (i : Nat) (ss : List Span) : List Span := ss.dropWhile fun s => s.stop ≤ i

theorem pending_head {i : Nat} {s : Span} {ss rest : List Span} (h : pending i ss = s :: rest) :
    i < s.stop := by
  have hhead := List.head?_dropWhile_not (fun s : Span => decide (s.stop ≤ i)) ss
  rw [← pending, h] at hhead
  simpa using hhead

/-- The characters of a text that begins at position `i`, up to `stop`, which are outside spans. -/
def scanCodeFrom (stop : Nat) (ss : List Span) (i : Nat) (t : Text) : List (Nat × Char) :=
  match t with
  | [] => []
  | c :: cs =>
    if stop ≤ i then []
    else match h : pending i ss with
      | [] => (i, c) :: scanCodeFrom stop [] (i + 1) cs
      | s :: rest =>
        if s.start ≤ i then scanCodeFrom stop (s :: rest) s.stop ((c :: cs).drop (s.stop - i))
        else (i, c) :: scanCodeFrom stop (s :: rest) (i + 1) cs
termination_by t.length
decreasing_by
  · simp
  · have hlater := pending_head h
    simp only [List.length_drop, List.length_cons]
    omega
  · simp

/-- Where a stretch ends that is to end at a position, or else at the end of a text. -/
def stopWithin (t : Text) : Option Int → Nat
  | none => t.length
  | some e => (min e t.length).toNat

/-- The code characters of a stretch with their positions. -/
def scanCode (t : Text) (start : Nat) (stop : Option Int) : List (Nat × Char) :=
  scanCodeFrom (stopWithin t stop) ((literalSpans t).drop (begunBy (literalSpans t) start - 1)) start
    (t.drop start)

end Restage.Script
