import Restage.Yaml.Cursor

/-!
Scalars of YAML: block scalars, quoted scalars and plain ones. Each reader returns the text of the
scalar and the place behind it.
-/

set_option autoImplicit false

namespace Restage.Yaml

/-! Quoted scalars. -/

def escapes : List (Char × Nat) :=
  [('0', 0), ('a', 7), ('b', 8), ('t', 9), ('\t', 9), ('n', 10), ('v', 11), ('f', 12), ('r', 13),
   ('e', 27), (' ', 32), ('\x22', 34), ('\\', 92), ('/', 47), ('N', 0x85), ('_', 0xA0),
   ('L', 0x2028), ('P', 0x2029)]

def escapeLength? : Char → Option Nat
  | 'x' => some 2
  | 'u' => some 4
  | 'U' => some 8
  | _ => none

def hexValue? : Text → Option Nat
  | [] => some 0
  | t => t.foldl (fun n c => match n with
      | none => none
      | some v =>
        if '0' ≤ c ∧ c ≤ '9' then some (v * 16 + (c.toNat - 48))
        else if 'a' ≤ c ∧ c ≤ 'f' then some (v * 16 + (c.toNat - 87))
        else if 'A' ≤ c ∧ c ≤ 'F' then some (v * 16 + (c.toNat - 55))
        else none) (some 0)

/-- Breaks inside a quoted scalar; a document marker may not stand at the beginning of a line. -/
def quotedBreaks : Nat → Cursor → Except Fault (Text × Cursor)
  | 0, c => .ok ([], c)
  | fuel + 1, c =>
    if c.atMarker then .error .token
    else
      let c := c.skipRun fun x => x == ' ' || x == '\t'
      if isBreak c.here then
        let (b, d) := c.lineBreak
        (quotedBreaks fuel d).map fun x => (b ++ x.1, x.2)
      else .ok ([], c)

/-- A break folded into a blank, or kept together with those after it. -/
def folded (b bs : Text) : Text :=
  if b ≠ ['\n'] then b ++ bs else if bs.isEmpty then [' '] else bs

/-- What stands behind a backslash in a double-quoted scalar. -/
def escaped (fuel : Nat) (c : Cursor) : Except Fault (Text × Cursor) :=
  match escapes.lookup c.here with
  | some n => .ok ([Char.ofNat n], c.advance 1)
  | none =>
    match escapeLength? c.here with
    | some n =>
      let digits := (c.rest.drop 1).take n
      match hexValue? digits with
      | some v =>
        if digits.length = n then .ok ([Char.ofNat v], c.advance (n + 1)) else .error .token
      | none => .error .token
    | none =>
      if isBreak c.here then quotedBreaks fuel c.lineBreak.2 else .error .token

/-- The rest of a quoted scalar up to its closing quote. -/
def quotedFrom (double : Bool) : Nat → Cursor → Except Fault (Text × Cursor)
  | 0, _ => .error .token
  | fuel + 1, c =>
    let x := c.here
    if isEnd x then .error .token
    else if !double && x == '\x27' then
      if c.peek 1 == '\x27' then
        (quotedFrom double fuel (c.advance 2)).map fun r => ('\x27' :: r.1, r.2)
      else .ok ([], c.advance 1)
    else if double && x == '\x22' then .ok ([], c.advance 1)
    else if double && x == '\\' then do
      let (t, d) ← escaped fuel (c.advance 1)
      (quotedFrom double fuel d).map fun r => (t ++ r.1, r.2)
    else if x == ' ' || x == '\t' || isBreak x then
      let blanks := c.run fun y => y == ' ' || y == '\t'
      let d := c.advance blanks.length
      if isEnd d.here then .error .token
      else if isBreak d.here then do
        let (b, e) := d.lineBreak
        let (bs, e) ← quotedBreaks fuel e
        (quotedFrom double fuel e).map fun r => (folded b bs ++ r.1, r.2)
      else (quotedFrom double fuel d).map fun r => (blanks ++ r.1, r.2)
    else (quotedFrom double fuel (c.advance 1)).map fun r => (x :: r.1, r.2)

/-! Plain scalars. -/

def isFlowMark (c : Char) : Bool := c == ',' || c == '[' || c == ']' || c == '{' || c == '}'

/-- The part of a plain scalar up to a blank, a colon before a blank or, in a flow collection, a
mark of it. -/
def plainRun (flow : Bool) : Text → Text
  | [] => []
  | x :: xs =>
    let next := xs.headD '\x00'
    if isGap x || (x == ':' && (isGap next || (flow && isFlowMark next))) ||
        (flow && (isFlowMark x || x == '?')) then []
    else x :: plainRun flow xs

/-- What separates two parts of a plain scalar: nothing when it ends here. The mark says whether a
line was ended. -/
def plainSpaces (c : Cursor) : Text × Bool × Cursor :=
  let blanks := c.run (· == ' ')
  let d := c.advance blanks.length
  if isBreak d.here then
    let (b, e) := d.lineBreak
    if e.atMarker then ([], true, e)
    else
      let (bs, f) := e.breaks (fun c => c.here == ' ') (e.size + 1)
      -- a marker in the first column ends the scalar
      if f.atMarker && f.column == 0 then ([], true, f) else (folded b bs, true, f)
  else (blanks, false, d)

/-- The parts of a plain scalar, and whether its last separator ended a line. -/
def plainFrom (flow : Bool) (indent : Nat) (pending : Text) (ended : Bool) :
    Nat → Cursor → Text × Bool × Cursor
  | 0, c => ([], ended, c)
  | fuel + 1, c =>
    let part := plainRun flow c.rest
    if c.here == '#' || part.isEmpty then ([], ended, c)
    else
      let (spaces, ends, d) := plainSpaces (c.advance part.length)
      if spaces.isEmpty || d.here == '#' || (!flow && d.column < indent) then
        (pending ++ part, ends, d)
      else
        let (t, e, f) := plainFrom flow indent spaces ends fuel d
        (pending ++ part ++ t, e, f)

/-! Block scalars. -/

inductive Chomping where
  | clip | strip | keep
deriving DecidableEq, Repr

/-- Goes to the end of a line that may hold only blanks and a comment. -/
def ignoredLine (c : Cursor) : Except Fault Cursor :=
  let c := c.skipBlanks
  let c := if c.here == '#' then c.skipRun fun x => !isBreak x else c
  if isBreakOrEnd c.here then .ok c.lineBreak.2 else .error .token

def chompingOf? : Char → Option Chomping
  | '+' => some .keep
  | '-' => some .strip
  | _ => none

def digitOf? (c : Char) : Option Nat := if Text.isDigit c then some (c.toNat - 48) else none

/-- The chomping and indentation indicators of a block scalar, in either order. -/
def indicators (c : Cursor) : Except Fault (Chomping × Option Nat × Cursor) := do
  let (chomping, step, d) ← match chompingOf? c.here with
    | some k =>
      match digitOf? (c.peek 1) with
      | some n => pure (k, some n, c.advance 2)
      | none => pure (k, none, c.advance 1)
    | none =>
      match digitOf? c.here with
      | some n =>
        match chompingOf? (c.peek 1) with
        | some k => pure (k, some n, c.advance 2)
        | none => pure (Chomping.clip, some n, c.advance 1)
      | none => pure (Chomping.clip, none, c)
  if step = some 0 then .error .token
  else if isSpaceOrEnd d.here then .ok (chomping, step, d)
  else .error .token

/-- The widest column of the leading blank lines of a block scalar, its breaks, and the place
behind them. -/
def leadingLines : Nat → Nat → Cursor → Text × Nat × Cursor
  | 0, widest, c => ([], widest, c)
  | fuel + 1, widest, c =>
    if c.here == ' ' then
      let d := c.advance 1
      leadingLines fuel (max widest d.column) d
    else if isBreak c.here then
      let (b, d) := c.lineBreak
      let (bs, w, e) := leadingLines fuel widest d
      (b ++ bs, w, e)
    else ([], widest, c)

def blockBreaks (indent : Nat) (c : Cursor) : Text × Cursor :=
  c.breaks (fun c => c.column < indent && c.here == ' ') (c.size + 1)

/-- The lines of a block scalar from one on, after the breaks before it. -/
def blockLines (fold : Bool) (chomping : Chomping) (indent : Nat) (breaks : Text) :
    Nat → Cursor → Text × Cursor
  | 0, c => ([], c)
  | fuel + 1, c =>
    let line := c.run fun x => !isBreakOrEnd x
    let solid := !(c.here == ' ' || c.here == '\t')
    let (b, d) := (c.advance line.length).lineBreak
    let (bs, e) := blockBreaks indent d
    if e.column = indent ∧ !isEnd e.here then
      let join :=
        if fold && b == ['\n'] && solid && !(e.here == ' ' || e.here == '\t') then
          if bs.isEmpty then [' '] else []
        else b
      let (t, f) := blockLines fold chomping indent bs fuel e
      (breaks ++ line ++ join ++ t, f)
    else
      let tail := match chomping with
        | .clip => b
        | .strip => []
        | .keep => b ++ bs
      (breaks ++ line ++ tail, e)

/-- A block scalar behind its first mark, in a block of the given indentation. -/
def blockScalar (fold : Bool) (parent : Int) (c : Cursor) : Except Fault (Text × Cursor) := do
  let (chomping, step, c) ← indicators c
  let c ← ignoredLine c
  let least := max 1 (parent + 1).toNat
  let (breaks, indent, c) := match step with
    | none =>
      let (bs, widest, d) := leadingLines (c.size + 1) 0 c
      (bs, max least widest, d)
    | some n =>
      let indent := least + n - 1
      let (bs, d) := blockBreaks indent c
      (bs, indent, d)
  if c.column = indent ∧ !isEnd c.here then
    .ok (blockLines fold chomping indent breaks (c.size + 1) c)
  else .ok (if chomping = .keep then breaks else [], c)

end Restage.Yaml
