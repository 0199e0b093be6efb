import Restage.Script.Place

/-!
Lexemes of a script. The lexemes of a text concatenate to the text (`flatMap_lexemes`); comments,
strings, regular expressions and the text parts of templates are its literals, all else is code.
A quote, a comment or a template that is never closed opens no literal.
-/

set_option autoImplicit false

namespace Restage.Script

/-- The text parts of a template: the whole of one without substitutions, else the part up to the
first substitution, between two, and after the last. -/
inductive TemplatePart where
  | whole | opening | middle | closing
deriving DecidableEq, Repr

inductive Kind where
  | blank
  | comment
  | string
  | regex
  | template (part : TemplatePart)
  | name
  | number
  | mark
deriving DecidableEq, Repr

namespace Kind

def isLiteral : Kind → Bool
  | comment | string | regex | template _ => true
  | _ => false

end Kind

structure Lexeme where
  kind : Kind
  text : Text
deriving DecidableEq, Repr

/-! Character classes of scripts. -/

def isNewline (c : Char) : Bool :=
  c == '\n' || c == '\r' || c.toNat == 0x2028 || c.toNat == 0x2029

def isSpace (c : Char) : Bool := !isNewline c && (Text.isBlank c || c.toNat == 0xFEFF)

def isNameChar (c : Char) : Bool :=
  c.isAlphanum || c == '_' || c == '$' || c == '\\' ||
    (128 ≤ c.toNat && !isNewline c && !isSpace c)

/-! Lengths of the lexemes that are more than a run of one class. Each counts what follows the
opening, the closing included. -/

def blockCommentLength? : Text → Option Nat
  | [] => none
  | '*' :: '/' :: _ => some 2
  | _ :: cs => (blockCommentLength? cs).map (· + 1)

/-- A string ends at its quote; a line end may stand in it only behind a backslash. -/
def stringLength? (quote : Char) : Text → Option Nat
  | [] => none
  | '\\' :: '\r' :: '\n' :: cs => (stringLength? quote cs).map (· + 3)
  | '\\' :: _ :: cs => (stringLength? quote cs).map (· + 2)
  | c :: cs =>
    if c = quote then some 1
    else if c = '\n' ∨ c = '\r' then none
    else (stringLength? quote cs).map (· + 1)

/-- A part of a template, and whether a substitution opens at its end. -/
def templateLength? : Text → Option (Nat × Bool)
  | [] => none
  | '\x60' :: _ => some (1, false)
  | '$' :: '{' :: _ => some (2, true)
  | '\\' :: _ :: cs => (templateLength? cs).map fun x => (x.1 + 2, x.2)
  | _ :: cs => (templateLength? cs).map fun x => (x.1 + 1, x.2)

def isFlag (c : Char) : Bool := 'a' ≤ c && c ≤ 'z'

/-- A regular expression ends at a slash outside its character classes, and takes its flags. -/
def regexLength? (inClass : Bool) : Text → Option Nat
  | [] => none
  | '\n' :: _ => none
  | '\\' :: c :: cs => if c = '\n' then none else (regexLength? inClass cs).map (· + 2)
  | c :: cs =>
    if c = '/' ∧ inClass = false then some (1 + (cs.takeWhile isFlag).length)
    else (regexLength? (c = '[' ∨ (inClass ∧ c ≠ ']')) cs).map (· + 1)

/-- The kind of the next lexeme, how many characters follow its first, and the state after it. -/
structure Step where
  kind : Kind
  more : Nat
  state : State

def markStep (st : State) (c : Char) (cs : Text) : Step :=
  match c, cs with
  | '=', '>' :: _ => ⟨.mark, 1, st.at_ (.body .operator)⟩
  | '+', '+' :: _ => ⟨.mark, 1, st.increment⟩
  | '-', '-' :: _ => ⟨.mark, 1, st.increment⟩
  | '.', '.' :: '.' :: _ => ⟨.mark, 2, st.at_ .operand⟩
  | '.', _ => ⟨.mark, 0, st.at_ .property⟩
  | '?', '.' :: d :: _ =>
    if Text.isDigit d then ⟨.mark, 0, st.conditional⟩ else ⟨.mark, 1, st.at_ .property⟩
  | '?', '?' :: _ => ⟨.mark, 1, st.at_ .operand⟩
  | '?', _ => ⟨.mark, 0, st.conditional⟩
  | ':', _ => ⟨.mark, 0, st.colon⟩
  | ';', _ => ⟨.mark, 0, st.semicolon⟩
  | ',', _ => ⟨.mark, 0, st.comma⟩
  | '{', _ => ⟨.mark, 0, st.openBrace⟩
  | '(', _ => ⟨.mark, 0, st.openRound⟩
  | '[', _ => ⟨.mark, 0, st.openSquare⟩
  | ')', _ => ⟨.mark, 0, st.close [.round, .loopHead]⟩
  | ']', _ => ⟨.mark, 0, st.close [.square]⟩
  | '}', _ => ⟨.mark, 0, st.closeBrace⟩
  | '*', _ => ⟨.mark, 0, st.star⟩
  | '#', _ => ⟨.mark, 0, { st with fresh := false }⟩
  | _, _ => ⟨.mark, 0, st.at_ .operand⟩

/-- A backtick opens a template. -/
def templateStep (st : State) (cs : Text) : Step :=
  match templateLength? cs with
  | some (n, false) => ⟨.template .whole, n, st.value⟩
  | some (n, true) =>
    ⟨.template .opening, n, st.push (.opened .substitution .operator) .operand⟩
  | none => ⟨.mark, 0, st.value⟩

/-- The brace that ends a substitution goes on with the template. -/
def resumeStep (st : State) (cs : Text) : Step :=
  match templateLength? cs with
  | some (n, false) =>
    ⟨.template .closing, n, ⟨.operator, st.toBrace.frames.tail, false⟩⟩
  | some (n, true) =>
    ⟨.template .middle, n,
      ⟨.operand, .opened .substitution .operator :: st.toBrace.frames.tail, false⟩⟩
  | none => ⟨.mark, 0, st.closeBrace⟩

def slashStep (st : State) (cs : Text) : Step :=
  if st.place.allowsRegex then
    match regexLength? false cs with
    | some n => ⟨.regex, n, st.value⟩
    | none => ⟨.mark, 0, st.at_ .operand⟩
  else ⟨.mark, 0, st.at_ .operand⟩

def lineComment (st : State) (cs : Text) : Step :=
  ⟨.comment, (cs.takeWhile fun d => !isNewline d).length, st⟩

def blockComment (st : State) (cs : Text) : Step :=
  match blockCommentLength? (cs.drop 1) with
  | some n => ⟨.comment, n + 1, st.blank ((cs.take n).any isNewline)⟩
  | none => slashStep st cs

/-- The step at a character and what follows it. -/
def step (st : State) (c : Char) (cs : Text) : Step :=
  if isNewline c then ⟨.blank, 0, st.blank true⟩
  else if isSpace c then ⟨.blank, (cs.takeWhile isSpace).length, st⟩
  else if Text.isDigit c || (c == '.' && st.place.allowsRegex && (cs.head?.any Text.isDigit)) then
    ⟨.number, (cs.takeWhile fun d => isNameChar d || d == '.').length, st.value⟩
  else if isNameChar c then
    ⟨.name, (cs.takeWhile isNameChar).length, st.name (c :: cs.takeWhile isNameChar)⟩
  else if c == '\x22' || c == '\x27' then
    match stringLength? c cs with
    | some n => ⟨.string, n, st.value⟩
    | none => ⟨.mark, 0, st.value⟩
  else if c == '\x60' then templateStep st cs
  else if c == '}' && st.inSubstitution then resumeStep st cs
  else if c == '/' && cs.head? == some '/' then lineComment st cs
  else if c == '/' && cs.head? == some '*' then blockComment st cs
  else if c == '/' then slashStep st cs
  else if c == '-' && st.fresh && Text.startsWith cs "->".toList then lineComment st cs
  else markStep st c cs

/-- The lexemes from a state on, before templates that never close are told apart. -/
def lexemesFrom (st : State) : Text → List Lexeme
  | [] => []
  | c :: cs =>
    let s := step st c cs
    ⟨s.kind, c :: cs.take s.more⟩ :: lexemesFrom s.state (cs.drop s.more)
termination_by t => t.length
decreasing_by simp only [List.length_drop, List.length_cons]; omega

/-- Turns the parts of templates that never close into code. Counts, from the right, the closing
parts whose template has not been opened yet. -/
def settle : List Lexeme → List Lexeme × Nat
  | [] => ([], 0)
  | x :: xs =>
    let (ys, n) := settle xs
    match x.kind with
    | .template .closing => (x :: ys, n + 1)
    | .template .middle => (if n = 0 then { x with kind := .mark } :: ys else x :: ys, n)
    | .template .opening => (if n = 0 then { x with kind := .mark } :: ys else x :: ys, n - 1)
    | _ => (x :: ys, n)

/-- The lexemes of a script. A first line that begins with a number sign and an exclamation mark
is one code lexeme. -/
def lexemes (t : Text) : List Lexeme :=
  match t with
  | '#' :: '!' :: cs =>
    ⟨.mark, '#' :: '!' :: cs.takeWhile (· != '\n')⟩ ::
      (settle (lexemesFrom .start (cs.dropWhile (· != '\n')))).1
  | _ => (settle (lexemesFrom .start t)).1

theorem flatMap_lexemesFrom (st : State) (t : Text) :
    (lexemesFrom st t).flatMap (·.text) = t := by
  fun_induction lexemesFrom st t with
  | case1 => rfl
  | case2 st c cs s ih => simp [ih]

theorem flatMap_settle (xs : List Lexeme) :
    (settle xs).1.flatMap (·.text) = xs.flatMap (·.text) := by
  induction xs with
  | nil => rfl
  | cons x xs ih =>
    simp only [settle]
    split <;> (try split) <;> simp [ih]

theorem flatMap_lexemes (t : Text) : (lexemes t).flatMap (·.text) = t := by
  unfold lexemes
  split
  · simp [flatMap_settle, flatMap_lexemesFrom, List.takeWhile_append_dropWhile]
  · simp [flatMap_settle, flatMap_lexemesFrom]

end Restage.Script
