import Restage.Legacy.Conversion
import Restage.Legacy.Reference
import Restage.Output.Check
import Restage.Output.Emit

/-!
Migration of one legacy export: find its landmarks, convert its definitions, rename its
references, emit the module and check it.
-/

set_option autoImplicit false

namespace Restage

open Legacy Output

/-- Why an export is not migrated. -/
inductive Refusal where
  /-- its structure is not recognised -/
  | structure_ (fault : Fault)
  /-- the emitted module did not pass its checks -/
  | invalid (issues : List Issue)
deriving DecidableEq, Repr

def Refusal.message : Refusal → String
  | structure_ f => f.message
  | invalid issues => toString issues.length ++ " validation issue(s) in emitted module"

structure Migration where
  output : Text
  assets : Assets
  classes : List Text
  exports : List Text
  warnings : List String
deriving DecidableEq, Repr

/-- How exports are migrated: the target of the emitted modules, and the checks they must pass. -/
structure Settings where
  target : Target
  checks : List Check
deriving DecidableEq, Repr

def Traced.refuse {α : Type} (x : Traced Fault α) : Traced Refusal α :=
  ⟨x.notes, x.result.mapError .structure_⟩

/-- The setup body without the stage literal. -/
def bodyWithoutStage (setup : Setup) (stage : Stage) : Text :=
  match stage.statement with
  | some s => if s.isEmpty then setup.body else Text.erase setup.body s
  | none => setup.body

/-- Migrates the text of a legacy export; `source` names it in messages. -/
def migrate (settings : Settings) (source : String) (mode : Mode) (t : Text) :
    Traced Refusal Migration := do
  let setup ← (findSetup t).refuse
  let assets ← (findAssets setup.libraryAlias source t).refuse
  let stage ← (findStage t).refuse
  let body := bodyWithoutStage setup stage
  let conversion ← (convert setup.libraryAlias body).refuse
  let names := ⟨setup.namespaceAlias, setup.libraryAlias, settings.target.namespaceName⟩
  let renamed ← (rename names conversion.text).refuse
  let output ← (emit settings.target assets stage mode conversion.exports renamed).refuse
  let issues := runChecks settings.checks ⟨output, conversion.classNames, assets.stageName⟩
  if !issues.isEmpty then Traced.fail (.invalid issues)
  else
    let missing := if assets.found then [] else [Assets.missingMessage source]
    return ⟨output, assets, conversion.classNames, conversion.exports,
      missing ++ conversion.warnings⟩

end Restage
