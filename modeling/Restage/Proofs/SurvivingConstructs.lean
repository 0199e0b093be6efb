import Restage.Proofs.Surroundings
import Restage.Proofs.Verdicts

/-!
Legacy constructs in migrated modules. A module that has passed the check of legacy constructs may
still hold one, but only where the base class is reached through a namespace
(`survivor_qualified`), as in `animate.MovieClip.extend(function` (`qualified_definition_survives`).
-/

set_option autoImplicit false

namespace Restage.Output

open Legacy
open Text (endOf)

/-- A legacy construct behind a front part of a script: it stands in the code, and the name of the
base class is an identifier of its own. -/
structure Survives (out front : Text) : Prop where
  begins : ∃ v, out = front ++ v ∧ BeginsLegacy v
  code : Script.isCode out front.length = true
  whole : (endOf none front).all (fun c => !Text.isNamePart c) = true

/-- A legacy construct in a module without issues stands behind a dot. -/
theorem unflagged_qualified {out front : Text} (h : legacyIssues out = [])
    (hs : Survives out front) : endOf none front = some '.' := by
  obtain ⟨v, hcut, hlegacy⟩ := hs.begins
  by_contra hdot
  have hfresh : Pattern.freshName (endOf none front) = true := by
    have hwhole := hs.whole
    cases he : endOf none front with
    | none => rfl
    | some c =>
      rw [he] at hwhole hdot
      have hc : c ≠ '.' := fun h => hdot (by rw [h])
      simpa [Pattern.freshName, hc] using hwhole
  have hcode := legacy_issues_nil_iff.1 h front v hcut hfresh hlegacy
  rw [hs.code] at hcode
  exact Bool.noConfusion hcode

end Restage.Output

namespace Restage

open Legacy Output
open Text (endOf)

/-- A legacy construct that survives a migration stands behind a dot. -/
theorem survivor_qualified {settings : Settings} (hchecks : .legacyResidue ∈ settings.checks)
    {source : String} {mode : Mode} {t : Text} {m : Migration}
    (h : (migrate settings source mode t).result = .ok m) {front : Text}
    (hs : Survives m.output front) : endOf none front = some '.' := by
  obtain ⟨l, c, _, _, hissues, rfl⟩ := migrate_accepted h
  exact unflagged_qualified ((passes_iff.1 hissues).converted hchecks) hs

/-! A definition whose base class is reached through the namespace. -/

def qualifiedSetup : Setup := ⟨"PIXI".toList, "lib".toList,
  ("\n    lib.Scene = PIXI.animate.MovieClip.extend(function (mode) \x7b\n" ++
    "        PIXI.animate.MovieClip.call(this, mode);\n    \x7d);\n").toList⟩

def qualifiedSource : Text :=
  "(function (PIXI, lib) \x7b".toList ++ qualifiedSetup.body ++ "\x7d)(PIXI, lib = \x7b\x7d);".toList

/-- The module that is made of it. -/
def qualifiedModule : Text := plainModule
  ("\n    data.lib.Scene = animate.MovieClip.extend(function (mode) \x7b\n" ++
    "        animate.MovieClip.call(this, mode);\n    \x7d);\n").toList

/-- Where the name of the base class stands in it. -/
def qualifiedPlace : Nat := 517

/-- The module up to the name of the base class. -/
def qualifiedFront : Text := qualifiedModule.take qualifiedPlace

theorem qualified_migrated : ∃ m, (migrate standard "scene.js" .commonjs qualifiedSource).result =
    .ok m ∧ m.output = qualifiedModule := by
  have hlandmarks : landmarks qualifiedSource = .ok (plainLandmarks qualifiedSetup) := by
    unfold qualifiedSource qualifiedSetup
    simp only [String.toList_append]
    repeat rw [String.toList_ofList]
    decide +kernel
  have hruns : (plainLandmarks qualifiedSetup).conversion.toOption.map
        (fun c => (c.text, c.classNames, c.exports)) = some (qualifiedSetup.body, [], []) ∧
      (Substitution.runAll (Substitution.all ⟨qualifiedSetup.namespaceAlias,
        qualifiedSetup.libraryAlias, standard.target.namespaceName⟩) qualifiedSetup.body).2 =
        ("\n    data.lib.Scene = animate.MovieClip.extend(function (mode) \x7b\n" ++
          "        animate.MovieClip.call(this, mode);\n    \x7d);\n").toList := by
    unfold qualifiedSetup
    simp only [String.toList_append]
    repeat rw [String.toList_ofList]
    decide +kernel
  have hclean : runChecks standard.checks ⟨qualifiedModule, [], none⟩ = [] := by
    refine checks_bare ?_
    rw [Script.Bare, qualifiedModule, plain_module_lines]
    simp only [String.toList_append]
    repeat rw [String.toList_ofList]
    decide +kernel
  obtain ⟨m, hm, hmodule, _⟩ := @Landmarks.accepted (plainLandmarks qualifiedSetup) standard .commonjs
    _ _ _ _ hruns.1 (congrArg plainModule hruns.2) hclean "scene.js"
  exact ⟨m, by rw [migrate_outcome, hlandmarks]; exact hm, hmodule⟩

theorem qualified_survives : Survives qualifiedModule qualifiedFront := by
  have hplace : Script.isCode qualifiedModule qualifiedFront.length = true ∧
      (endOf none qualifiedFront).all (fun c => !Text.isNamePart c) = true ∧
      qualifiedModule.drop qualifiedPlace = "MovieClip.extend(".toList ++ ([] ++
        ("function".toList ++ qualifiedModule.drop (qualifiedPlace + 25))) ∧
      (qualifiedModule.drop (qualifiedPlace + 25)).head?.all (fun c => !Text.isWord c) = true := by
    rw [qualifiedFront, qualifiedModule, plain_module_lines]
    simp only [String.toList_append]
    repeat rw [String.toList_ofList]
    decide +kernel
  obtain ⟨hcode, hwhole, hword, hend⟩ := hplace
  exact ⟨⟨_, (List.take_append_drop _ _).symm, .animated, ("MovieClip.extend(".toList,
    "function".toList), by decide, [], _, by simp, hword, hend⟩, hcode, hwhole⟩

theorem qualified_survivor_behind_dot : ∃ m,
    (migrate standard "scene.js" .commonjs qualifiedSource).result = .ok m ∧
      Survives m.output qualifiedFront ∧ endOf none qualifiedFront = some '.' := by
  obtain ⟨m, hm, hmodule⟩ := qualified_migrated
  have hs : Survives m.output qualifiedFront := hmodule ▸ qualified_survives
  exact ⟨m, hm, hs, survivor_qualified (by decide) hm hs⟩

/-- A definition survives its migration. -/
theorem qualified_definition_survives : ∃ m front,
    (migrate standard "scene.js" .commonjs qualifiedSource).result = .ok m ∧
      Survives m.output front := by
  obtain ⟨m, hm, hmodule⟩ := qualified_migrated
  exact ⟨m, qualifiedFront, hm, hmodule ▸ qualified_survives⟩

end Restage
