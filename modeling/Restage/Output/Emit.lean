import Restage.Legacy.Landmark
import Restage.Mode

/-!
The text of a migrated module, in one of the three export conventions.
-/

set_option autoImplicit false

namespace Restage.Output

open Legacy

/-- The namespace that the emitted setup function takes, and where it is imported from. -/
structure Target where
  namespaceName : Text
  importSource : Text
deriving DecidableEq, Repr

def Target.default : Target := ⟨"animate".toList, "pixi-animate".toList⟩

/-- The assignment of the stage class that stands in for the assets assignment. -/
def stageStatement (stage : Text) : Text :=
  "data.stage = data.lib.".toList ++ stage ++ [';']

def assetsAssignment (stage : Text) : Pattern where
  behind := Pattern.freshName
  pieces := [.word ("data.lib.".toList ++ stage ++ ".assets".toList), .blanks, .lit "=", .blanks,
    .lit "\x7b", .run 0 (· != '}'), .lit "\x7d", .maybe [';']]

/-- Replaces the first assignment of the assets mapping by one of the stage class. -/
def attachStage (stage : Text) (body : Text) : Traced Fault Text :=
  match (assetsAssignment stage).first? body.entire with
  | some h => .ok (body.take h.start ++ stageStatement stage ++ body.drop h.stop)
  | none => do
    Traced.note (.plain .warning .module
      ("Assets assignment for stage '" ++ stage.str ++ "' not found in setup body"))
    return body

def textureAccessor : List Text :=
  ["    getTexture: function(id) \x7b",
   "        if (data.textures[id]) \x7b",
   "            return data.textures[id];",
   "        \x7d",
   "        const atlas = data.spritesheets.find(atlas => !!atlas.textures[id]);",
   "        return atlas ? atlas.textures[id] : null;",
   "    \x7d,"].map (·.toList)

def importLine (target : Target) : Text :=
  "import ".toList ++ target.namespaceName ++ " from '".toList ++ target.importSource ++
    "';".toList

def setupCall (target : Target) : Text :=
  "data.setup(".toList ++ target.namespaceName ++ ");".toList

/-- The two lines that export a class of the library by name. -/
def exportLines (name : Text) : List Text :=
  ["const ".toList ++ name ++ " = data.lib.".toList ++ name ++ [';'],
   "export \x7b".toList ++ name ++ "\x7d;".toList]

/-- The `data` object around a setup body. -/
def dataLines (target : Target) (assets : Assets) (stage : Stage) (body : Text) : List Text :=
  ["const data = \x7b".toList, "    stage: null,".toList] ++
  stage.lines.map ("    ".toList ++ ·) ++
  ["    assets: ".toList ++ assets.mapping ++ [','],
   "    lib: \x7b\x7d,".toList, "    shapes: \x7b\x7d,".toList, "    textures: \x7b\x7d,".toList,
   "    spritesheets: [],".toList] ++ textureAccessor ++
  ["    setup: function(".toList ++ target.namespaceName ++ ") \x7b".toList,
   body.trim fun c => c == '\r' || c == '\n', "    \x7d".toList, "\x7d;".toList]

def lastLine (mode : Mode) : Text :=
  if mode.isEs6 then "export default data;".toList else "module.exports = data;".toList

def lines (target : Target) (assets : Assets) (stage : Stage) (mode : Mode)
    (exports : List Text) (body : Text) : List Text :=
  (if mode.autorun then [importLine target] else []) ++
  dataLines target assets stage body ++
  (if mode.autorun then setupCall target :: exports.flatMap exportLines else []) ++
  [[], lastLine mode]

/-- The module around a rewritten setup body. -/
def emit (target : Target) (assets : Assets) (stage : Stage) (mode : Mode) (exports : List Text)
    (body : Text) : Traced Fault Text := do
  let body ← match assets.found, assets.stageName with
    | true, some name => if name.isEmpty then .ok body else attachStage name body
    | _, _ => .ok body
  Traced.note (.plain .debug .module ("Emitted " ++ mode.name ++ " module with " ++
    toString (if mode.autorun then exports.length else 0) ++ " named export(s)"))
  return Text.joinWith ['\n'] (lines target assets stage mode exports body) ++ ['\n']

end Restage.Output
