import Restage.Legacy.Landmark

/-!
Definitions of legacy classes. A definition assigns `<Base>.extend(function (...) {...})` to a
member of the library or to a variable; definitions nest, and `Definition.findAll` returns them
as a forest whose spans are positions of one text.
-/

set_option autoImplicit false

namespace Restage.Legacy

structure Definition where
  name : Text
  target : Text
  base : Base
  params : Text
  indent : Text
  header : Span
  body : Span
  footer : Span
  exported : Bool
  superCall : Option Span
  children : List Definition
deriving Repr

namespace Definition

mutual
/-- A definition and all that it contains, parents first. -/
def walk : Definition → List Definition
  | ⟨n, t, b, p, i, h, y, f, e, s, cs⟩ => ⟨n, t, b, p, i, h, y, f, e, s, cs⟩ :: walkAll cs
def walkAll : List Definition → List Definition
  | [] => []
  | d :: ds => walk d ++ walkAll ds
end

/-- What follows the target of a header, up to the brace that opens the body. -/
def headerRest : List Piece :=
  [.gap, .lit "=", .gap, .oneOf (Base.all.map Base.text), .lit ".extend(", .gap, .lit "function",
    .gap, .lit "(", .run 0 (· != ')'), .lit ")", .gap, .lit "\x7b"]

def headerOf (target : List Piece) : Pattern where
  behind := Pattern.lineStart
  pieces := [.gap] ++ target ++ Piece.name ++ headerRest

/-- The header of a member of the library. -/
def memberHeader (library : Text) : Pattern := headerOf [.word (library ++ ['.']), .word []]

/-- The header of a variable. -/
def variableHeader : Pattern := headerOf [.lit "var", .gaps]

/-- The leftmost header, and whether its target is a member of the library. -/
def header? (library : Text) (w : Window) : Option (Hit × Bool) :=
  match (memberHeader library).first? w, variableHeader.first? w with
  | some m, some v => if m.start ≤ v.start then some (m, true) else some (v, false)
  | some m, none => some (m, true)
  | none, some v => some (v, false)
  | none, none => none

def footerPattern : Pattern where
  behind := Pattern.anywhere
  pieces := [.lit "\x7d", .blanks, .lit ")", .gap, .maybe [';']]

/-- A call of the base class on `this`, up to its further arguments. -/
def superCallOf (b : Base) : Pattern where
  behind := Pattern.freshName
  pieces := [.word b.text, .lit ".call(", .blanks, .lit "this",
    .ahead fun t => match t.dropWhile Text.isBlank with
      | [] => false
      | c :: _ => c == ',' || c == ')',
    .blanks, .maybe [','], .blanks]

/-- The definition that a header begins, without its children. -/
def ofHeader (ms : List Script.Marked) (t : Text) (h : Hit) (exported : Bool) (stop : Nat) :
    Except Fault Definition := do
  let openAt := h.stop - 1
  let closeAt ← (Script.closingBraceIn ms t openAt (some stop)).mapError Fault.brace
  match footerPattern.fits? none (t.window closeAt stop).text with
  | none => .error (.unclosedDefinition (h.part 4) (t.lineOf h.start) (t.lineOf closeAt))
  | some parts =>
    let base := (Base.ofIdentifier? (h.part 8)).getD .animated
    let call := Script.searchTopLevelIn ms (superCallOf base) t (openAt + 1) closeAt
    .ok {
      name := h.part 4
      target := h.part 1 ++ h.part 2 ++ h.part 4
      base := base
      params := Text.strip (h.part 14)
      indent := h.part 0
      header := h.span
      body := ⟨openAt + 1, closeAt⟩
      footer := ⟨closeAt, closeAt + parts.flatten.length⟩
      exported := exported
      superCall := call.map Hit.span
      children := [] }

/-- The definitions in a stretch. Every definition is longer than its header, so the stretches
searched for its children and its successors are shorter, and fuel of one more than the length of
the stretch never runs out. -/
def findIn (library : Text) (ms : List Script.Marked) (t : Text) :
    Nat → Nat → Nat → Except Fault (List Definition)
  | 0, _, _ => .ok []
  | fuel + 1, start, stop =>
    match header? library (t.window start stop) with
    | none => .ok []
    | some (h, exported) => do
      let d ← ofHeader ms t h exported stop
      let children ← findIn library ms t fuel d.body.start d.body.stop
      let rest ← findIn library ms t fuel d.footer.stop stop
      return { d with children := children } :: rest

/-- The definitions of a text as a forest. -/
def findAll (library : Text) (t : Text) : Except Fault (List Definition) :=
  findIn library (Script.marked t) t (t.length + 1) 0 t.length

end Definition
end Restage.Legacy
