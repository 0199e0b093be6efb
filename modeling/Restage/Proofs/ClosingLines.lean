import Restage.Proofs.AttachedBody
import Restage.Proofs.LineEnds

/-!
The lines behind the `data` object: the call of the setup function, the two lines that export a
class, and the last line. They are code in which no check finds anything (`Closing`), and so is what
they make together (`closing_text`).
-/

set_option autoImplicit false

namespace Restage

namespace Text

theorem split_on_append (sep : Char) (u v : Text) :
    splitOn sep (u ++ sep :: v) = splitOn sep u ++ splitOn sep v := by
  induction u with
  | nil =>
    simp [splitOn]
  | cons d u ih =>
    rw [List.cons_append, splitOn, splitOn, ih]
    split_ifs
    · rfl
    · obtain ⟨q, qs, hq⟩ := List.exists_cons_of_ne_nil (split_on_some sep u)
      rw [hq]
      rfl

theorem split_on_whole {sep : Char} {u : Text} (hu : sep ∉ u) : splitOn sep u = [u] := by
  rw [split_on_where]
  refine split_whole fun c hc => beq_eq_false_iff_ne.2 ?_
  rintro rfl
  exact hu hc

end Text

namespace Script

theorem tame_line {u v : Text} (hu : Tame u) (hv : Tame v) : Tame (u ++ '\n' :: v) where
  bare := Legacy.bare_line hu.bare hv.bare
  no_substitution h :=
    (Text.infix_across (by decide) h).elim hu.no_substitution hv.no_substitution

end Script

namespace Output

open Legacy
open Export (assetsWord)

/-- The words of a class declaration that are looked for. -/
def classWord (name : Text) : Text := "class ".toList ++ name ++ " extends".toList

/-- A line declares no class if no part behind its second blank begins with `extends`. -/
theorem class_word_absent {l : Text}
    (h : ∀ w ∈ (Text.splitOn ' ' l).drop 2, ¬ "extends".toList <+: w) (name : Text) :
    ¬ classWord name <:+: l := by
  rintro ⟨a, b, rfl⟩
  have hcut : a ++ classWord name ++ b =
      (a ++ "class".toList) ++ ' ' :: (name ++ ' ' :: ("extends".toList ++ b)) := by
    unfold classWord
    simp
  obtain ⟨w, ws, _, hlast⟩ := Text.split_tail (p := (· == ' ')) (u := "extends".toList) (by decide) b
  obtain ⟨x, xs, hx⟩ := List.exists_cons_of_ne_nil (Text.split_on_some ' ' (a ++ "class".toList))
  obtain ⟨y, ys, hy⟩ := List.exists_cons_of_ne_nil (Text.split_on_some ' ' name)
  rw [← Text.split_on_where] at hlast
  rw [hcut, Text.split_on_append, Text.split_on_append, hx, hy, hlast] at h
  refine h ("extends".toList ++ w) ?_ (List.prefix_append _ _)
  cases xs <;> simp

/-- A line in which no check finds anything. -/
structure Closing (l : Text) : Prop where
  clean : ∀ stage, Clean stage l
  paired : Script.Balanced l
  no_substitution : ¬ ['$', '{'] <:+: l
  no_heritage : ∀ w ∈ (Text.splitOn ' ' l).drop 2, ¬ "extends".toList <+: w

/-! The lines. -/

theorem balanced_filter {l : Text} (h : Script.Balanced (l.filter Script.isBracket)) :
    Script.Balanced l := by rwa [Script.Balanced, Script.pair_brackets] at h

/-- The call of the setup function. -/
theorem call_closing {target : Target} (hn : Text.isIdentifier target.namespaceName = true) :
    Closing (setupCall target) := by
  have hname := Text.identifier_parts hn
  have hlacks : ∀ {x : Char}, Text.isIdentifierPart x = false → x ∉ target.namespaceName :=
    Text.not_mem_of_all hname
  have hshape : setupCall target =
      "data.setup(".toList ++ (target.namespaceName ++ ");".toList) := by
    unfold setupCall
    rw [List.append_assoc]
  have hparen : '(' ∉ target.namespaceName ++ ");".toList := by
    have hnone := hlacks (x := '(') (by decide)
    simp [hnone]
  -- a word that ends in a parenthesis ends in front of the namespace
  have hfront : ∀ {w : Text}, w ++ ['('] <:+: setupCall target →
      w ++ ['('] <:+: "data.setup(".toList := by
    intro w h
    rw [hshape] at h
    exact Text.infix_left_of_last hparen h
  have hharmless : ∀ c ∈ setupCall target, Script.opensLiteral c = false ∧ c ≠ '>' := by
    intro c hc
    rw [hshape, List.mem_append, List.mem_append] at hc
    rcases hc with hc | hc | hc
    · exact (by decide : ∀ c ∈ "data.setup(".toList, Script.opensLiteral c = false ∧ c ≠ '>') c hc
    · exact harmless_of (by decide) (hname c hc)
    · exact (by decide : ∀ c ∈ ");".toList, Script.opensLiteral c = false ∧ c ≠ '>') c hc
  refine ⟨fun stage => ⟨bare_harmless hharmless,
    fun h => absurd (hfront (w := ".extend".toList) h) (by decide),
    fun h => absurd (hfront (w := ".call".toList) h) (by decide), word_absent ?_⟩,
    balanced_filter ?_, fun h => ?_, ?_⟩
  · have h1 := List.count_eq_zero.2 (hlacks (x := '.') (by decide))
    have h2 : "data.setup(".toList.count '.' = 1 := by decide
    have h3 : ");".toList.count '.' = 0 := by decide
    rw [hshape, List.count_append, List.count_append, h1, h2, h3]
    decide
  · have hnone : target.namespaceName.filter Script.isBracket = [] :=
      unbracketed hname fun c => not_bracket (by decide)
    have h1 : "data.setup(".toList.filter Script.isBracket = ['('] := by decide
    have h2 : ");".toList.filter Script.isBracket = [')'] := by decide
    rw [hshape, List.filter_append, List.filter_append, h1, hnone, h2]
    decide
  · have hbrace : '{' ∉ setupCall target := by
      have hnone := hlacks (x := '{') (by decide)
      rw [hshape]
      simp [hnone]
    exact hbrace (h.subset (by simp))
  · have hblank : ' ' ∉ setupCall target := by
      have hnone := hlacks (x := ' ') (by decide)
      rw [hshape]
      simp [hnone]
    rw [Text.split_on_whole hblank]
    simp

section

variable {name : Text} (hn : ∀ c ∈ name, Text.isNamePart c = true)
include hn

/-- The binding of a class. -/
theorem binding_closing :
    Closing ("const ".toList ++ name ++ " = data.lib.".toList ++ name ++ [';']) := by
  have hlacks : ∀ {x : Char}, Text.isNamePart x = false → x ∉ name := Text.not_mem_of_all hn
  have hnone := unbracketed hn fun c => name_not_bracket
  refine ⟨fun stage => clean_unopened (fun c hc => ?_) ?_ (word_absent ?_), balanced_filter ?_,
    fun h => ?_, ?_⟩
  · simp only [List.mem_append] at hc
    rcases hc with (((hc | hc) | hc) | hc) | hc
    · exact (by decide : ∀ c ∈ "const ".toList, Script.opensLiteral c = false ∧ c ≠ '>') c hc
    · exact harmless_of (by decide) (hn c hc)
    · exact (by decide : ∀ c ∈ " = data.lib.".toList,
        Script.opensLiteral c = false ∧ c ≠ '>') c hc
    · exact harmless_of (by decide) (hn c hc)
    · exact (by decide : ∀ c ∈ [';'], Script.opensLiteral c = false ∧ c ≠ '>') c hc
  · have hparen := hlacks (x := '(') (by decide)
    simp [hparen]
  · have h0 := count_zero hn (c := '.') (by decide)
    have h1 : "const ".toList.count '.' = 0 := by decide
    have h2 : " = data.lib.".toList.count '.' = 2 := by decide
    have h3 : [';'].count '.' = 0 := by decide
    simp only [List.count_append, h0, h1, h2, h3]
    decide
  · have h1 : "const ".toList.filter Script.isBracket = [] := by decide
    have h2 : " = data.lib.".toList.filter Script.isBracket = [] := by decide
    have h3 : [';'].filter Script.isBracket = [] := by decide
    simp only [List.filter_append, hnone, h1, h2, h3]
    decide
  · have hbrace := hlacks (x := '{') (by decide)
    exact absurd (h.subset (by simp : '{' ∈ ['$', '{'])) (by simp [hbrace])
  · have hblank := hlacks (x := ' ') (by decide)
    have hshape : "const ".toList ++ name ++ " = data.lib.".toList ++ name ++ [';'] =
        "const".toList ++ ' ' :: (name ++ ' ' :: (['='] ++ ' ' ::
          ("data.lib.".toList ++ (name ++ [';'])))) := by simp
    rw [hshape, Text.split_on_append, Text.split_on_append, Text.split_on_append,
      Text.split_on_whole (by decide), Text.split_on_whole hblank, Text.split_on_whole (by decide),
      Text.split_on_whole (by simp [hblank])]
    intro w hw
    simp only [List.cons_append, List.nil_append, List.drop_succ_cons, List.drop_zero,
      List.mem_cons, List.not_mem_nil, or_false] at hw
    rcases hw with rfl | rfl
    · decide
    · exact fun h => absurd (List.cons_prefix_cons.1 h).1 (by decide)

/-- The export of a class. -/
theorem export_closing : Closing ("export \x7b".toList ++ name ++ "\x7d;".toList) := by
  have hlacks : ∀ {x : Char}, Text.isNamePart x = false → x ∉ name := Text.not_mem_of_all hn
  have hnone := unbracketed hn fun c => name_not_bracket
  refine ⟨fun stage => clean_undotted (fun c hc => ?_) ?_, balanced_filter ?_, fun h => ?_, ?_⟩
  · simp only [List.mem_append] at hc
    rcases hc with (hc | hc) | hc
    · exact (by decide : ∀ c ∈ "export \x7b".toList, Script.opensLiteral c = false ∧ c ≠ '>') c hc
    · exact harmless_of (by decide) (hn c hc)
    · exact (by decide : ∀ c ∈ "\x7d;".toList, Script.opensLiteral c = false ∧ c ≠ '>') c hc
  · have hdot := hlacks (x := '.') (by decide)
    simp [hdot]
  · have h1 : "export \x7b".toList.filter Script.isBracket = ['{'] := by decide
    have h2 : "\x7d;".toList.filter Script.isBracket = ['}'] := by decide
    simp only [List.filter_append, hnone, h1, h2]
    decide
  · have hbrace := hlacks (x := '{') (by decide)
    rw [List.append_assoc] at h
    exact absurd (Text.infix_left_of_last (w := ['$']) (by simp [hbrace]) h) (by decide)
  · have hblank := hlacks (x := ' ') (by decide)
    have hshape : "export \x7b".toList ++ name ++ "\x7d;".toList =
        "export".toList ++ ' ' :: ('{' :: (name ++ "\x7d;".toList)) := by simp
    rw [hshape, Text.split_on_append, Text.split_on_whole (by decide),
      Text.split_on_whole (by simp [hblank])]
    simp

end

theorem last_closing (mode : Mode) : Closing (lastLine mode) := by
  have hplain : ∀ m, Row.Plain (lastLine m) := by
    intro m
    cases m <;> decide
  refine ⟨fun stage => clean_plain (hplain mode), ?_, ?_, ?_⟩ <;> cases mode <;> decide

theorem empty_closing : Closing [] :=
  ⟨fun _ => clean_plain (by decide), by decide, by decide, by decide⟩

/-- The lines behind the `data` object. -/
def closingLines (target : Target) (mode : Mode) (exports : List Text) : List Text :=
  (if mode.autorun then setupCall target :: exports.flatMap exportLines else []) ++
    [[], lastLine mode]

theorem closing_lines {target : Target} (hn : Text.isIdentifier target.namespaceName = true)
    (mode : Mode) {exports : List Text}
    (he : ∀ n ∈ exports, ∀ c ∈ n, Text.isNamePart c = true) :
    ∀ l ∈ closingLines target mode exports, Closing l := by
  intro l hl
  simp only [closingLines, List.mem_append, List.mem_cons, List.not_mem_nil, or_false] at hl
  rcases hl with hl | rfl | rfl
  · split at hl
    · rcases List.mem_cons.1 hl with rfl | hl
      · exact call_closing hn
      · obtain ⟨n, hin, hl⟩ := List.mem_flatMap.1 hl
        simp only [exportLines, List.mem_cons, List.not_mem_nil, or_false] at hl
        rcases hl with rfl | rfl
        · exact binding_closing (he n hin)
        · exact export_closing (he n hin)
    · simp at hl
  · exact empty_closing
  · exact last_closing mode

/-! Lines together. -/

section

variable {ls : List Text}

theorem infix_module {w : Text} (hw : '\n' ∉ w) (hne : w ≠ []) (h : w <:+: moduleText ls) :
    ∃ l ∈ ls, w <:+: l := by
  induction ls with
  | nil => exact absurd (List.infix_nil.1 h) hne
  | cons l ls ih =>
    rw [module_cons] at h
    rcases Text.infix_across hw h with h | h
    · exact ⟨l, by simp, h⟩
    · obtain ⟨k, hk, h⟩ := ih h
      exact ⟨k, by simp [hk], h⟩

/-- A text behind a module in which no check finds anything. -/
structure ClosingText (v : Text) : Prop where
  tame : Script.Tame v
  paired : Script.Balanced v
  no_extend : ¬ ".extend(".toList <:+: v
  no_call : ¬ ".call(".toList <:+: v
  no_assets : ∀ {stage}, Text.isName stage = true → ¬ assetsWord stage <:+: v
  no_class : ∀ {name : Text}, '\n' ∉ name → ¬ classWord name <:+: v

theorem closing_text (h : ∀ l ∈ ls, Closing l) : ClosingText (moduleText ls) where
  tame := by
    induction ls with
    | nil => exact ⟨⟨by simp [moduleText], by decide⟩, by decide⟩
    | cons l ls ih =>
      rw [module_cons]
      exact Script.tame_line ⟨((h l (by simp)).clean []).bare, (h l (by simp)).no_substitution⟩
        (ih fun k hk => h k (by simp [hk]))
  paired := by
    induction ls with
    | nil => rfl
    | cons l ls ih =>
      have hline : Script.Balanced ['\n'] := by decide
      rw [module_cons, List.append_cons]
      exact Script.balanced_append (Script.balanced_append (h l (by simp)).paired hline)
        (ih fun k hk => h k (by simp [hk]))
  no_extend hin := by
    obtain ⟨l, hl, hin⟩ := infix_module (by decide) (by decide) hin
    exact ((h l hl).clean []).no_extend hin
  no_call hin := by
    obtain ⟨l, hl, hin⟩ := infix_module (by decide) (by decide) hin
    exact ((h l hl).clean []).no_call hin
  no_assets {stage} hs hin := by
    have hline : '\n' ∉ assetsWord stage := Text.not_mem_of_all (assets_word_chars hs) (by decide)
    obtain ⟨l, hl, hin⟩ := infix_module hline (List.ne_nil_of_mem (assets_word_dot stage)) hin
    exact ((h l hl).clean stage).no_assets hin
  no_class {name} hname hin := by
    have hline : '\n' ∉ classWord name := by
      unfold classWord
      simp [hname]
    obtain ⟨l, hl, hin⟩ := infix_module hline (by unfold classWord; simp) hin
    exact class_word_absent (h l hl).no_heritage name hin

end

end Output
end Restage
