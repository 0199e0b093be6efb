import Restage.Legacy.Definition
import Restage.Text.Edit

/-!
Conversion of legacy definitions into class declarations. A header becomes the head of a class and
of its constructor, the call of the base class becomes `super`, and a footer closes both.
-/

set_option autoImplicit false

namespace Restage.Legacy

structure Conversion where
  text : Text
  /-- the definitions in the order of their headers -/
  definitions : List Definition
  warnings : List String
deriving Repr

namespace Conversion

def classNames (c : Conversion) : List Text := c.definitions.map (·.name)

/-- The classes of the library, in source order. -/
def exports (c : Conversion) : List Text :=
  (c.definitions.filter (·.exported)).map (·.name)

/-- The head of the class and of its constructor. -/
def classHead (d : Definition) : Text :=
  d.indent ++ d.target ++ " = class ".toList ++ d.name ++ " extends ".toList ++ d.base.text ++
    " \x7b\n".toList ++ d.indent ++ "    constructor(".toList ++ d.params ++ ") \x7b".toList

/-- The call written for a definition that never calls its base class. -/
def insertedCall (d : Definition) : Text :=
  '\n' :: d.indent ++ "        super();".toList

def classFoot (d : Definition) : Text := "\x7d\n".toList ++ d.indent ++ ['}']

def edits (d : Definition) : List Edit :=
  match d.superCall with
  | some s => [⟨s, "super(".toList⟩, ⟨d.header, classHead d⟩, ⟨d.footer, classFoot d⟩]
  | none => [⟨d.header, classHead d ++ insertedCall d⟩, ⟨d.footer, classFoot d⟩]

def warning? (t : Text) (d : Definition) : Option String :=
  if d.superCall.isSome then none
  else some (d.name.str ++ " (line " ++ toString (t.lineOf d.header.start) ++ ") never calls " ++
    d.base.identifier ++ ".call(this); inserted super()")

def convertedNote (t : Text) (d : Definition) : Note :=
  .plain .debug .classes ("Converted " ++ d.name.str ++ " (extends " ++ d.base.identifier ++
    ", line " ++ toString (t.lineOf d.header.start) ++ ")")

/-- Whether a header starts no later than another. -/
def inOrder (a b : Definition) : Bool := a.header.start ≤ b.header.start

end Conversion

open Conversion in
/-- Converts every definition of a text. -/
def convert (library : Text) (t : Text) : Traced Fault Conversion := do
  let tree ← Traced.ofExcept (Definition.findAll library t)
  let ds := (Definition.walkAll tree).mergeSort inOrder
  let warnings := ds.filterMap (warning? t)
  Traced.noteAll (warnings.map (.plain .warning .classes ·))
  let out ← Traced.ofExcept <|
    (Edit.applyAll t (ds.flatMap edits)).mapError fun i => Fault.overlap (t.lineOf i)
  Traced.noteAll (ds.map (convertedNote t))
  return ⟨out, ds, warnings⟩

end Restage.Legacy
