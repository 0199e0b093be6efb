import Restage.Proofs.Occurrence
import Restage.Proofs.Outcome
import Restage.Proofs.Splitting

/-!
The lines of an emitted module. The template has no opening of a function expression in
parentheses, so a module has one only where a part put into the template has it
(`opening_in_parts`).
-/

set_option autoImplicit false

namespace Restage

namespace Text

theorem infix_join {w : Text} (hw : '\n' ∉ w) (hne : w ≠ []) {ls : List Text}
    (h : w <:+: joinWith ['\n'] ls) : ∃ l ∈ ls, w <:+: l := by
  induction ls with
  | nil => exact absurd (List.infix_nil.1 h) hne
  | cons l ls ih =>
    cases ls with
    | nil => exact ⟨l, by simp, h⟩
    | cons m ls =>
      rw [joinWith, List.append_assoc, List.singleton_append] at h
      rcases infix_across hw h with h | h
      · exact ⟨l, by simp, h⟩
      · obtain ⟨k, hk, h⟩ := ih h
        exact ⟨k, by simp [hk], h⟩

end Text

namespace Output

open Legacy

/-- The word that opens a function expression in parentheses. -/
def functionWord : Text := "(function".toList

/-- The parts that are put into the template. The namespace stands behind a parenthesis. -/
def suppliedParts (target : Target) (assets : Assets) (stage : Stage) (body : Text) : List Text :=
  ['(' :: target.namespaceName, target.importSource, assets.mapping, body] ++ stage.lines

theorem function_word_right {u v : Text} (hu : '(' ∉ u) (h : functionWord <:+: u ++ v) :
    functionWord <:+: v :=
  Text.infix_right_of_head (w := "function".toList) hu h

/-- A part with something of the template around it. -/
theorem function_word_between {c : Char} {u v w : Text} (hu : '(' ∉ u) (hc : c ∉ functionWord)
    (hw : '(' ∉ w) (h : functionWord <:+: u ++ (v ++ c :: w)) : functionWord <:+: v := by
  rcases Text.infix_across hc (function_word_right hu h) with h | h
  · exact h
  · exact absurd (h.subset (by decide : '(' ∈ functionWord)) hw

theorem function_word_lacking {u : Text} (hu : '(' ∉ u) : ¬ functionWord <:+: u :=
  fun h => hu (h.subset (by decide))

section

variable {target : Target} {assets : Assets} {stage : Stage} {body : Text}

theorem opening_in_import (h : functionWord <:+: importLine target) :
    functionWord <:+: '(' :: target.namespaceName ∨ functionWord <:+: target.importSource := by
  have hline : ∀ name source : Text,
      "import ".toList ++ name ++ " from '".toList ++ source ++ "';".toList =
        "import ".toList ++ (name ++ ' ' :: ("from '".toList ++ (source ++ '\x27' :: [';']))) :=
    fun _ _ => by simp
  unfold importLine at h
  rw [hline] at h
  have hname := function_word_right (u := "import ".toList) (by decide) h
  rcases Text.infix_across (c := ' ') (by decide) hname with hname | hsource
  · exact Or.inl (hname.trans (List.suffix_cons _ _).isInfix)
  · exact Or.inr (function_word_between (u := "from '".toList) (by decide) (by decide) (by decide)
      hsource)

theorem opening_in_accessor {l : Text} (hl : l ∈ textureAccessor) : ¬ functionWord <:+: l := by
  have hall : ∀ l ∈ textureAccessor, ¬ functionWord <:+: l := by decide +kernel
  exact hall l hl

theorem opening_in_data {l : Text} (hl : l ∈ dataLines target assets stage body)
    (h : functionWord <:+: l) : ∃ p ∈ suppliedParts target assets stage body, functionWord <:+: p := by
  simp only [dataLines, List.mem_append, List.mem_cons, List.mem_map, List.not_mem_nil,
    or_false] at hl
  have hlacking : ∀ t : Text, '(' ∉ t → l ≠ t := by
    rintro t ht rfl
    exact function_word_lacking ht h
  have hns : ∀ u w : Text, '(' ∉ u → '(' ∉ w → l = u ++ ('(' :: target.namespaceName ++ ')' :: w) →
      functionWord <:+: '(' :: target.namespaceName := by
    rintro u w hu hw rfl
    exact function_word_between hu (by decide) hw h
  rcases hl with (((hl | hl) | hl) | hl) | hl
  · rcases hl with hl | hl
    · exact absurd hl (hlacking _ (by decide))
    · exact absurd hl (hlacking _ (by decide))
  · obtain ⟨entry, hentry, rfl⟩ := hl
    exact ⟨entry, by simp [suppliedParts, hentry], function_word_right (by decide) h⟩
  · rcases hl with rfl | hl | hl | hl | hl
    · refine ⟨assets.mapping, by simp [suppliedParts], ?_⟩
      exact function_word_between (u := "    assets: ".toList) (c := ',') (w := []) (by decide)
        (by decide) (by decide) (by rwa [List.append_assoc] at h)
    all_goals exact absurd hl (hlacking _ (by decide))
  · exact absurd h (opening_in_accessor hl)
  · rcases hl with hl | rfl | hl | hl
    · refine ⟨_, by simp [suppliedParts], hns "    setup: function".toList " \x7b".toList
        (by decide) (by decide) (by rw [hl]; simp)⟩
    · exact ⟨body, by simp [suppliedParts], h.trans (Text.trim_infix _ _)⟩
    all_goals exact absurd hl (hlacking _ (by decide))

/-- A module opens a function expression in parentheses only in a part put into the template. -/
theorem opening_in_parts {mode : Mode} {exports : List Text}
    (hexports : ∀ n ∈ exports, '(' ∉ n)
    (h : functionWord <:+:
      Text.joinWith ['\n'] (lines target assets stage mode exports body) ++ ['\n']) :
    ∃ p ∈ suppliedParts target assets stage body, functionWord <:+: p := by
  have h : functionWord <:+: Text.joinWith ['\n'] (lines target assets stage mode exports body) :=
    (Text.infix_across (c := '\n') (v := []) (by decide) h).resolve_right
      (function_word_lacking (by simp))
  obtain ⟨l, hl, h⟩ := Text.infix_join (by decide) (by decide) h
  simp only [lines, List.mem_append, List.mem_cons, List.not_mem_nil, or_false] at hl
  rcases hl with ((hl | hl) | hl) | rfl | rfl
  · split at hl
    · rw [List.mem_singleton] at hl
      rcases opening_in_import (hl ▸ h) with h | h
      · exact ⟨_, by simp [suppliedParts], h⟩
      · exact ⟨_, by simp [suppliedParts], h⟩
    · simp at hl
  · exact opening_in_data hl h
  · split at hl
    · rcases List.mem_cons.1 hl with rfl | hl
      · refine ⟨'(' :: target.namespaceName, by simp [suppliedParts], ?_⟩
        have hline : ∀ name : Text, "data.setup(".toList ++ name ++ ");".toList =
            "data.setup".toList ++ ('(' :: name ++ ')' :: [';']) := fun _ => by simp
        unfold setupCall at h
        rw [hline] at h
        exact function_word_between (by decide) (by decide) (by decide) h
      · obtain ⟨n, hn, hl⟩ := List.mem_flatMap.1 hl
        have hparen := hexports n hn
        simp only [exportLines, List.mem_cons, List.not_mem_nil, or_false] at hl
        rcases hl with rfl | rfl <;>
          exact absurd h (function_word_lacking (by simpa using hparen))
    · simp at hl
  · exact absurd h (function_word_lacking (by simp))
  · exact absurd h (function_word_lacking (by cases mode <;> decide))

end

end Output

end Restage
