import Restage.Legacy.Landmark
import Restage.Text.Edit

/-!
Renaming of legacy references. Eight substitutions run in a fixed order; each replaces the fits of
its pattern that begin at code and leaves the others alone.
-/

set_option autoImplicit false

namespace Restage.Legacy

/-- The names that the substitutions of one setup body work with. -/
structure Names where
  /-- the alias of the rendering namespace in the legacy text -/
  namespaceAlias : Text
  /-- the alias of the library in the legacy text -/
  libraryAlias : Text
  /-- the namespace of the emitted module -/
  emitted : Text
deriving DecidableEq, Repr

structure Substitution where
  title : String
  pattern : Pattern
  replacement : Hit → Text

namespace Substitution

/-- Replaces the fits at code, and counts them. -/
def run (s : Substitution) (t : Text) : Text × Nat :=
  let mask := (Script.codeMask t).toArray
  let hits := (s.pattern.hits t.entire).filter fun h => mask.getD h.start true
  (Edit.splice 0 t (hits.map fun h => ⟨h.span, s.replacement h⟩), hits.length)

/-- A whole line that binds a variable to a member of the namespace. -/
def bindingLine (name : String) (value : Text) : Pattern where
  behind := Pattern.lineStart
  pieces := [.gap, .lit "var", .gaps, .lit name, .gap, .lit "=", .gap, .word (value ++ [';']),
    .gap, .maybe ['\r'], .maybe ['\n']]

def primitives : List Text := ["Container", "Sprite", "Text", "Graphics"].map (·.toList)

def dropShapes (n : Names) : Substitution where
  title := "drop shapes cache binding"
  pattern := bindingLine "shapes" (n.namespaceAlias ++ ".animate.ShapesCache".toList)
  replacement := fun _ => []

def dropFromFrame (n : Names) : Substitution where
  title := "drop fromFrame binding"
  pattern := bindingLine "fromFrame" (n.namespaceAlias ++ ".Texture.fromFrame".toList)
  replacement := fun _ => []

def namespaceMembers (n : Names) : Substitution where
  title := "animate namespace members"
  pattern := ⟨Pattern.freshName,
    [.word (n.namespaceAlias ++ ".animate.".toList), .nextIs Text.isNameStart]⟩
  replacement := fun _ => n.emitted ++ ['.']

def renderingPrimitives (n : Names) : Substitution where
  title := "rendering primitives"
  pattern := ⟨Pattern.freshName,
    [.word (n.namespaceAlias ++ ['.']), .oneOf primitives, .nextIsNot Text.isNamePart]⟩
  replacement := fun h => n.emitted ++ ['.'] ++ h.part 1

def libraryTable (n : Names) : Substitution where
  title := "library table"
  pattern := ⟨Pattern.freshName, [.word n.libraryAlias, .nextIs (· == '.')]⟩
  replacement := fun _ => "data.lib".toList

def shapesCache : Substitution where
  title := "shapes cache"
  pattern := ⟨Pattern.freshName, [.lit "shapes", .nextIs (· == '.')]⟩
  replacement := fun _ => "data.shapes".toList

def textureLookup : Substitution where
  title := "texture lookup"
  pattern := ⟨Pattern.freshName, [.lit "fromFrame",
    .ahead fun t => (t.dropWhile Text.isBlank).head? == some '(']⟩
  replacement := fun _ => "data.getTexture".toList

def declarations : Substitution where
  title := "var declarations"
  pattern := ⟨Pattern.freshName, [.lit "var", .nextIs Text.isBlank]⟩
  replacement := fun _ => "const".toList

/-- All substitutions, in the order in which they run. -/
def all (n : Names) : List Substitution :=
  [dropShapes n, dropFromFrame n, namespaceMembers n, renderingPrimitives n, libraryTable n,
    shapesCache, textureLookup, declarations]

def note (s : Substitution) (count : Nat) : Note :=
  .plain .debug .references (s.title ++ ": " ++ toString count ++ " replacement(s)")

/-- Runs substitutions one after another. -/
def runAll : List Substitution → Text → List Note × Text
  | [], t => ([], t)
  | s :: ss, t =>
    let (u, count) := s.run t
    let (notes, v) := runAll ss u
    (if count = 0 then notes else s.note count :: notes, v)

end Substitution

/-- Renames the references of a setup body. -/
def rename (n : Names) (t : Text) : Traced Fault Text :=
  let r := Substitution.runAll (Substitution.all n) t
  ⟨r.1, .ok r.2⟩

end Restage.Legacy
