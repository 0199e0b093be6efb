import Restage.Text.Basic

/-!
Where the lexer stands in a script. A slash begins a regular expression or divides, a brace opens a
block or an object, and a keyword may be a plain name: all of this follows from what may come
next, which `Place` records, and from the brackets that are open, which `Frame` records.
-/

set_option autoImplicit false

namespace Restage.Script

/-- What may come next. -/
inductive Place where
  | statement
  | operand
  | operator
  /-- after a dot: any name is a property -/
  | property
  /-- a key of an object or a member of a class -/
  | key
  /-- after a keyword whose parentheses are followed by a statement -/
  | guard
  /-- in the head of a function, up to its parameters; its body is followed by the given place -/
  | head (follow : Place)
  /-- a body is due -/
  | body (follow : Place)
  | classHead (follow : Place)
deriving DecidableEq, Repr

namespace Place

/-- Whether a slash begins a regular expression here. -/
def allowsRegex : Place → Bool
  | statement | operand | body _ | guard => true
  | _ => false

/-- The place after a function or class that begins here: a declaration ends a statement, an
expression is an operand. -/
def afterDefinition : Place → Place
  | statement | operator => statement
  | _ => operator

end Place

inductive Enclosure where
  | block | object | classBody | round | loopHead | square | substitution
deriving DecidableEq, Repr

/-- An open bracket. -/
structure Frame where
  enclosure : Enclosure
  /-- the place after it closes -/
  follow : Place
  /-- conditional operators whose colon is still due -/
  conditionals : Nat
  /-- a class whose body is due after its heritage expression, with the place after that body -/
  heritage : Option Place
deriving DecidableEq, Repr

def Frame.opened (e : Enclosure) (follow : Place) : Frame := ⟨e, follow, 0, none⟩

structure State where
  place : Place
  /-- the open brackets, innermost first -/
  frames : List Frame
  /-- no token yet on this line -/
  fresh : Bool
deriving DecidableEq, Repr

namespace State

def start : State := ⟨.statement, [.opened .block .statement], true⟩

def top (st : State) : Frame := st.frames.headD (.opened .block .statement)

/-- After a token that leaves the given place. -/
def at_ (st : State) (p : Place) : State := { st with place := p, fresh := false }

def setTop (st : State) (f : Frame) : State := { st with frames := f :: st.frames.tail }

def push (st : State) (f : Frame) (p : Place) : State := ⟨p, f :: st.frames, false⟩

def blank (st : State) (newline : Bool) : State := { st with fresh := st.fresh || newline }

/-! Keywords, by the place that they leave. -/

def guardWords : List Text :=
  ["if", "while", "for", "with", "switch", "catch"].map (·.toList)

def statementWords : List Text :=
  ["do", "else", "try", "finally", "export"].map (·.toList)

def operandWords : List Text :=
  ["return", "throw", "typeof", "void", "delete", "new", "in", "instanceof", "case", "await",
   "yield", "var", "let", "const", "import", "default", "extends"].map (·.toList)

def joiningWords : List Text := ["in", "instanceof"].map (·.toList)

/-- A name where keywords count. -/
def keyword (st : State) (w : Text) : State :=
  if st.fresh && st.place == .operator && st.top.enclosure == .classBody &&
      !joiningWords.contains w then st.at_ .key
  else if w = "function".toList then st.at_ (.head st.place.afterDefinition)
  else if w = "class".toList then st.at_ (.classHead st.place.afterDefinition)
  else if guardWords.contains w then st.at_ .guard
  else if statementWords.contains w then st.at_ .statement
  else if operandWords.contains w then st.at_ .operand
  else if w = "of".toList && st.place == .operator && st.top.enclosure == .loopHead then
    st.at_ .operand
  else st.at_ .operator

def name (st : State) (w : Text) : State :=
  match st.place with
  | .property => st.at_ .operator
  | .key => st.at_ .key
  | .head f => st.at_ (.head f)
  | .classHead f =>
    if w = "extends".toList then (st.setTop { st.top with heritage := some f }).at_ .operand
    else st.at_ (.classHead f)
  | .guard => st.at_ .guard
  | _ => st.keyword w

/-- A value: a number, a string, a regular expression or a template. -/
def value (st : State) : State :=
  st.at_ (if st.place = .key then .key else .operator)

def openBrace (st : State) : State :=
  match st.place with
  | .key =>
    if st.top.enclosure = .classBody then st.push (.opened .block .key) .statement
    else st.push (.opened .object .operator) .key
  | .head f | .body f => st.push (.opened .block f) .statement
  | .classHead f => st.push (.opened .classBody f) .key
  | .operand => st.push (.opened .object .operator) .key
  | .statement | .guard => st.push (.opened .block .statement) .statement
  | .operator | .property =>
    match st.top.heritage with
    | some f =>
      (st.setTop { st.top with heritage := none }).push (.opened .classBody f) .key
    | none => st.push (.opened .block .statement) .statement

def openRound (st : State) : State :=
  match st.place with
  | .guard => st.push (.opened .loopHead .statement) .operand
  | .head f => st.push (.opened .round (.body f)) .operand
  | .key =>
    st.push (.opened .round
      (.body (if st.top.enclosure = .classBody then .key else .operator))) .operand
  | _ => st.push (.opened .round .operator) .operand

def openSquare (st : State) : State :=
  st.push (.opened .square (if st.place = .key then .key else .operator)) .operand

def close (st : State) (e : List Enclosure) : State :=
  match st.frames with
  | f :: g :: fs =>
    if e.contains f.enclosure then ⟨f.follow, g :: fs, false⟩ else st.at_ .operator
  | _ => st.at_ .operator

/-- Forgets round and square brackets that were never closed, down to a brace. -/
def toBrace (st : State) : State :=
  { st with frames := st.frames.dropWhile fun f =>
      f.enclosure = .round || f.enclosure = .loopHead || f.enclosure = .square }

def closeBrace (st : State) : State :=
  match st.toBrace.frames with
  | f :: g :: fs =>
    if f.enclosure = .substitution then st.at_ .operator else ⟨f.follow, g :: fs, false⟩
  | fs => ⟨.statement, fs, false⟩

/-- Whether the next closing brace ends a substitution. -/
def inSubstitution (st : State) : Bool := st.toBrace.top.enclosure == .substitution

def colon (st : State) : State :=
  let f := st.top
  if f.conditionals > 0 then (st.setTop { f with conditionals := f.conditionals - 1 }).at_ .operand
  else st.at_ (if f.enclosure = .block then .statement else .operand)

def semicolon (st : State) : State :=
  let f := st.top
  (st.setTop { f with conditionals := 0 }).at_ <|
    match f.enclosure with
    | .block => .statement
    | .classBody => .key
    | _ => .operand

def comma (st : State) : State :=
  st.at_ (if st.top.enclosure = .object then .key else .operand)

def conditional (st : State) : State :=
  (st.setTop { st.top with conditionals := st.top.conditionals + 1 }).at_ .operand

/-- An increment or decrement: after an operand on the same line it belongs to that operand. -/
def increment (st : State) : State :=
  st.at_ (if st.place = .operator ∧ st.fresh = false then .operator else .operand)

def star (st : State) : State :=
  match st.place with
  | .key => st.at_ .key
  | .head f => st.at_ (.head f)
  | _ => st.at_ .operand

end State
end Restage.Script
