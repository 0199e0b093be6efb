import Restage.Proofs.ClosingLines
import Restage.Proofs.ImportLine
import Restage.Proofs.Verdicts

/-!
The checks of a module with lines added to it. Lines behind a module that ends a statement change no
verdict (`passing_behind`), and neither does an import line in front of it, unless the import source
itself spells what a check looks for (`passing_import`).
-/

set_option autoImplicit false

namespace Restage

namespace Script

/-! The code of a text with something added. -/

/-- The characters of a text that a mask marks. -/
def kept (t : Text) (bs : List Bool) : Text := ((t.zip bs).filter (·.2)).map (·.1)

theorem kept_append {u : Text} {bs : List Bool} (h : bs.length = u.length) (v : Text)
    (cs : List Bool) : kept (u ++ v) (bs ++ cs) = kept u bs ++ kept v cs := by
  simp [kept, List.zip_append h.symm]

theorem kept_all (t : Text) : kept t (List.replicate t.length true) = t := by
  induction t with
  | nil => rfl
  | cons c t ih => simpa [kept, List.replicate_succ] using ih

theorem kept_none (t : Text) : kept t (List.replicate t.length false) = [] := by
  induction t with
  | nil => rfl
  | cons c t ih => simpa [kept, List.replicate_succ] using ih

theorem code_text_kept (t : Text) : codeText t = kept t (codeMask t) := by
  have hmarked : ∀ (i : Nat) (t : Text) (bs : List Bool),
      ((markedFrom i t bs).filter (·.code)).map (·.char) = kept t bs := by
    intro i t bs
    induction t generalizing i bs with
    | nil => rfl
    | cons c t ih =>
      cases bs with
      | nil => rfl
      | cons b bs =>
        have ih := ih (i + 1) bs
        cases b <;> simp_all [markedFrom, kept]
  exact hmarked 0 t _

section

variable {u v : Text} (hu : [';', '\n'] <:+ u) (hfirst : u.head? ≠ some '#') (hv : Tame v)
include hu hfirst hv

theorem code_text_behind : codeText (u ++ v) = codeText u ++ v := by
  rw [code_text_kept, code_mask_ended (Or.inr hu) hfirst hv, kept_append (length_codeMask u),
    kept_all, code_text_kept]

theorem is_code_behind {i : Nat} (hi : i < u.length) : isCode (u ++ v) i = isCode u i := by
  rw [isCode, isCode, code_mask_ended (Or.inr hu) hfirst hv]
  exact List.getD_append _ _ _ _ (by rwa [length_codeMask])

end

/-- An import line with its line end. -/
def importText (name source : Text) : Text := importHead name ++ (importString source ++ ";\n".toList)

section

variable {name source v : Text} (hn : Text.isIdentifier name = true)
  (hs : InQuotes '\x27' source) (hv : v.head? ≠ some '#')
include hn hs hv

theorem import_text_mask : codeMask (importText name source ++ v) =
    List.replicate (importHead name).length true ++
      (List.replicate (importString source).length false ++ ([true, true] ++ codeMask v)) := by
  rw [← import_mask hn hs hv, importText]
  simp only [List.append_assoc]

theorem code_text_import :
    codeText (importText name source ++ v) = importHead name ++ (";\n".toList ++ codeText v) := by
  have hend : kept ";\n".toList [true, true] = ";\n".toList := kept_all ";\n".toList
  rw [code_text_kept, import_text_mask hn hs hv, importText]
  simp only [List.append_assoc]
  rw [kept_append (by simp), kept_append (by simp), kept_append (by simp), kept_all, kept_none, hend,
    code_text_kept]
  rfl

theorem is_code_import (i : Nat) :
    isCode (importText name source ++ v) ((importText name source).length + i) = isCode v i := by
  have hlength : (importText name source).length = (List.replicate (importHead name).length true ++
      (List.replicate (importString source).length false ++ [true, true])).length := by
    simp [importText]
  have hmask := import_text_mask hn hs hv
  rw [isCode, isCode, hmask, hlength]
  simp only [← List.append_assoc]
  rw [List.getD_append_right _ _ _ _ (by simp only [List.append_assoc]; omega)]
  simp

/-- The string of an import line is no code. -/
theorem is_code_string {i : Nat} (h1 : (importHead name).length ≤ i)
    (h2 : i < (importHead name).length + (importString source).length) :
    isCode (importText name source ++ v) i = false := by
  rw [isCode, import_text_mask hn hs hv, List.getD_append_right _ _ _ _ (by simpa using h1),
    List.getD_append _ _ _ _ (by simp; omega)]
  rw [List.getD_eq_getElem _ _ (by simp; omega)]
  simp

end

end Script

namespace Output

open Legacy
open Export (Assigns assetsWord)
open Text (endOf)
open Script (importText importHead importString InQuotes)

/-! Where a legacy construct can begin. -/

/-- What a text begins with that begins with a legacy construct. -/
theorem begins_legacy_word {v : Text} (h : BeginsLegacy v) : ∃ k, k <+: v ∧ '.' ∈ k ∧
    '\x27' ∉ k ∧ k.head?.any Text.isNameStart = true ∧
      (".extend(".toList <:+: k ∨ ".call(".toList <:+: k) := by
  obtain ⟨b, w, hw, gap, rest, _, rfl, _⟩ := h
  obtain ⟨hplain, _, hdot, _⟩ := residue_words_plain b w hw
  obtain ⟨hhead, _⟩ := residue_words_marks b w hw
  refine ⟨w.1, List.prefix_append _ _, hdot, fun hin => ?_, hhead, ?_⟩
  · exact absurd (hplain _ (List.mem_append_left _ hin)).1 (by decide)
  · simp only [residueWords, List.mem_cons, List.not_mem_nil, or_false] at hw
    rcases hw with rfl | rfl
    · exact Or.inl (List.suffix_append _ _).isInfix
    · exact Or.inr (List.suffix_append _ _).isInfix

theorem begins_legacy_some {v : Text} (h : BeginsLegacy v) : v ≠ [] := by
  obtain ⟨k, hk, hdot, _⟩ := begins_legacy_word h
  exact List.ne_nil_of_mem (hk.subset hdot)

/-- A text that ends a line does not end within a construct. -/
theorem ended_not_within {u k : Text} (hu : Script.Ended u) (hsemicolon : ';' ∉ k)
    (hline : k.head? ≠ some '\n') : ¬ u <+: k := by
  rintro ⟨r, rfl⟩
  rcases hu with rfl | hu
  · exact hline rfl
  · exact hsemicolon (List.mem_append_left _ (hu.subset (by simp)))

/-- A construct lies within a text that ends a line, or begins behind it. -/
theorem begins_legacy_ended {u : Text} (hu : Script.Ended u) (v : Text) :
    BeginsLegacy (u ++ v) ↔ BeginsLegacy u := by
  have hwithin : ∀ {b : Base} {w : Text × Text} {gap : Text}, w ∈ residueWords b →
      (∀ c ∈ gap, Text.isBlank c = true) → ¬ u <+: w.1 ++ (gap ++ w.2) := by
    intro b w gap hw hgap
    have hsemicolon : ∀ b, ∀ r ∈ residueWords b, ';' ∉ r.1 ∧ ';' ∉ r.2 := by
      intro b
      cases b <;> decide
    obtain ⟨⟨c, k, hk, _, _, hc⟩, _⟩ := residue_words_capital hw
    refine ended_not_within hu ?_ ?_
    · simp only [List.mem_append, not_or]
      exact ⟨(hsemicolon b w hw).1, Text.not_mem_of_all hgap (by decide), (hsemicolon b w hw).2⟩
    · rw [hk]
      rintro h
      have : c = '\n' := Option.some.inj h
      rw [this] at hc
      exact absurd hc (by decide)
  constructor
  · rintro ⟨b, w, hw, gap, rest, hgap, hcut, hend⟩
    have hwithin := hwithin hw hgap
    rw [← List.append_assoc gap, ← List.append_assoc w.1] at hcut
    rcases List.append_eq_append_iff.1 hcut with ⟨x, hx, _⟩ | ⟨x, hx, hrest⟩
    · exact absurd ⟨x, hx.symm⟩ hwithin
    · cases x with
      | nil => exact absurd ⟨[], by rw [hx, List.append_nil, List.append_nil]⟩ hwithin
      | cons d x =>
        refine ⟨b, w, hw, gap, d :: x, hgap, by rw [hx]; simp, ?_⟩
        rw [hrest] at hend
        exact hend
  · rintro ⟨b, w, hw, gap, rest, hgap, rfl, hend⟩
    have hwithin := hwithin hw hgap
    cases rest with
    | nil => exact absurd ⟨[], by simp⟩ hwithin
    | cons d rest => exact ⟨b, w, hw, gap, d :: rest ++ v, hgap, by simp, hend⟩

/-! Where a class can be declared. -/

theorem class_word_some (name : Text) : classWord name ≠ [] := by
  unfold classWord
  simp

theorem declares_word {name t : Text} (h : Declares name t) : classWord name <:+: t := by
  obtain ⟨u, v, rfl, _, _⟩ := h
  exact ⟨u, v, List.append_assoc _ _ _⟩

/-- A declaration lies on one side of a mark that it lacks. -/
theorem declares_cut {name u v : Text} {x : Char} (hx : Text.isWord x = false)
    (hname : x ∉ classWord name) :
    Declares name (u ++ x :: v) ↔ Declares name u ∨ Declares name v := by
  have hstart : ∀ y, Pattern.wordStart (endOf none (u ++ x :: y)) = Pattern.wordStart (endOf none y) := by
    intro y
    rw [Text.endOf_append]
    cases y with
    | nil => simp [endOf, Pattern.wordStart, hx]
    | cons d y => rfl
  have hend : ∀ z : Text, (z ++ x :: v).head?.all (fun c => !Text.isWord c) =
      z.head?.all fun c => !Text.isWord c := by
    intro z
    cases z <;> simp [hx]
  constructor
  · rintro ⟨a, b, hcut, ha, hb⟩
    have hcut : u ++ x :: v = a ++ (classWord name ++ b) := hcut
    rcases List.append_eq_append_iff.1 hcut with ⟨y, rfl, hy⟩ | ⟨y, rfl, hy⟩
    · cases y with
      | nil =>
        obtain ⟨c, w, hw⟩ := List.exists_cons_of_ne_nil (class_word_some name)
        rw [hw] at hy hname
        exact absurd (List.mem_cons.2 (Or.inl (List.cons.inj hy).1)) hname
      | cons d y =>
        obtain ⟨rfl, rfl⟩ := List.cons.inj hy
        exact Or.inr ⟨y, b, rfl, by rwa [hstart] at ha, hb⟩
    · obtain ⟨z, rfl⟩ := Text.prefix_of_not_mem hname ⟨b, hy⟩
      obtain rfl := List.append_cancel_left (hy.trans (List.append_assoc _ _ _))
      exact Or.inl ⟨a, z, rfl, ha, by rwa [hend] at hb⟩
  · rintro (⟨a, b, rfl, ha, hb⟩ | ⟨a, b, rfl, ha, hb⟩)
    · exact ⟨a, b ++ x :: v, by simp only [List.append_assoc], ha, by rwa [hend]⟩
    · exact ⟨u ++ x :: a, b, by simp, by rwa [hstart], hb⟩

theorem class_word_chars {name : Text} (hname : ∀ c ∈ name, Text.isNamePart c = true) :
    ∀ c ∈ classWord name, (Text.isNamePart c || c == ' ') = true := by
  intro c hc
  unfold classWord at hc
  simp only [List.mem_append] at hc
  rcases hc with (hc | hc) | hc
  · exact (by decide : ∀ c ∈ "class ".toList, (Text.isNamePart c || c == ' ') = true) c hc
  · simp [hname c hc]
  · exact (by decide : ∀ c ∈ " extends".toList, (Text.isNamePart c || c == ' ') = true) c hc

theorem class_word_lacks {name : Text} (hname : ∀ c ∈ name, Text.isNamePart c = true) {x : Char}
    (hx : (Text.isNamePart x || x == ' ') = false) : x ∉ classWord name :=
  Text.not_mem_of_all (class_word_chars hname) hx

theorem declares_nil (name : Text) : ¬ Declares name [] := by
  intro h
  exact class_word_some name (List.infix_nil.1 (declares_word h))

theorem passing_congr {checks : List Check} {u v : Text} {names : List Text} {stage : Option Text}
    (hbrackets : Script.Balanced (Script.codeText u) ↔ Script.Balanced (Script.codeText v))
    (hlegacy : legacyIssues u = [] ↔ legacyIssues v = [])
    (hassigns : ∀ s, stage = some s → s ≠ [] → (Assigns s u ↔ Assigns s v))
    (hdeclares : ∀ n ∈ names, (Declares n u ↔ Declares n v)) :
    Passing checks ⟨u, names, stage⟩ ↔ Passing checks ⟨v, names, stage⟩ := by
  constructor
  · intro h
    exact ⟨fun hin => hbrackets.1 (h.brackets hin), fun hin => hlegacy.1 (h.converted hin),
      fun hin s hs hne hassign => h.attached hin s hs hne ((hassigns s hs hne).2 hassign),
      fun hin n hn => (hdeclares n hn).1 (h.declared hin n hn)⟩
  · intro h
    exact ⟨fun hin => hbrackets.2 (h.brackets hin), fun hin => hlegacy.2 (h.converted hin),
      fun hin s hs hne hassign => h.attached hin s hs hne ((hassigns s hs hne).1 hassign),
      fun hin n hn => (hdeclares n hn).2 (h.declared hin n hn)⟩

/-! Lines behind a module. -/

section

variable {u v : Text} (hu : [';', '\n'] <:+ u) (hfirst : u.head? ≠ some '#') (hv : ClosingText v)
include hu hfirst hv

theorem balanced_behind :
    Script.Balanced (Script.codeText (u ++ v)) ↔ Script.Balanced (Script.codeText u) := by
  rw [Script.code_text_behind hu hfirst hv.tame, Script.Balanced, Script.Balanced,
    Script.pair_append]
  cases Script.pairUp [] (Script.codeText u) with
  | none => simp
  | some st => rw [Option.bind_some, Script.balanced_over hv.paired]

theorem legacy_behind : legacyIssues (u ++ v) = [] ↔ legacyIssues u = [] := by
  have hinside : ∀ {b : Text}, b <:+ v → ¬ BeginsLegacy b := by
    intro b hb h
    obtain ⟨k, hk, _, _, _, hword⟩ := begins_legacy_word h
    have hkv := hk.isInfix.trans hb.isInfix
    exact hword.elim (fun h => hv.no_extend (h.trans hkv)) fun h => hv.no_call (h.trans hkv)
  have hsuffix : ∀ {a b : Text}, u = a ++ b → b ≠ [] → Script.Ended b := by
    rintro a b rfl hb
    have := Script.ended_drop (Or.inr hu) a.length
    rw [List.drop_left] at this
    exact this.resolve_left hb
  rw [legacy_issues_nil_iff, legacy_issues_nil_iff]
  constructor
  · intro h a b hab hfresh hbegins
    have hb := begins_legacy_some hbegins
    have hcode := h a (b ++ v) (by rw [hab, List.append_assoc]) hfresh
      ((begins_legacy_ended (hsuffix hab hb) v).2 hbegins)
    rwa [Script.is_code_behind hu hfirst hv.tame] at hcode
    rw [hab, List.length_append]
    have := List.length_pos_of_ne_nil hb
    omega
  · intro h a b hab hfresh hbegins
    rcases List.append_eq_append_iff.1 hab with ⟨x, rfl, hx⟩ | ⟨x, hx, hb⟩
    · exact absurd hbegins (hinside ⟨x, hx.symm⟩)
    · by_cases hnil : x = []
      · rw [hb, hnil] at hbegins
        exact absurd hbegins (hinside (List.suffix_refl v))
      · rw [hb, begins_legacy_ended (hsuffix hx hnil)] at hbegins
        rw [Script.is_code_behind hu hfirst hv.tame]
        · exact h a x hx hfresh hbegins
        · rw [hx, List.length_append]
          have := List.length_pos_of_ne_nil hnil
          omega

theorem assigns_closing {stage : Text} (hs : Text.isName stage = true) :
    Assigns stage (u ++ v) ↔ Assigns stage u := by
  constructor
  · intro h
    obtain ⟨p, rfl⟩ := hu
    rw [List.append_assoc] at h
    rcases assigns_cut hs (x := ';') (by decide) (by decide) (by decide) h with h | h
    · exact Text.spells_within (List.prefix_append _ _).isInfix h
    · exact absurd (Text.spells_word (assigns_behind (u := ['\n']) (by decide) h)) (hv.no_assets hs)
  · exact Text.spells_within (List.prefix_append u v).isInfix

theorem declares_behind {name : Text} (hn : ∀ c ∈ name, Text.isNamePart c = true) :
    Declares name (u ++ v) ↔ Declares name u := by
  have hline := class_word_lacks hn (x := '\n') (by decide)
  have hv : ¬ Declares name v := fun h =>
    hv.no_class (Text.not_mem_of_all hn (by decide)) (declares_word h)
  obtain ⟨p, rfl⟩ : ∃ p, u = p ++ '\n' :: [] := by
    obtain ⟨p, rfl⟩ := hu
    exact ⟨p ++ [';'], by simp⟩
  have hcut : p ++ ['\n'] ++ v = p ++ '\n' :: v := by simp
  rw [hcut, declares_cut (by decide) hline, declares_cut (by decide) hline]
  simp [hv, declares_nil]

/-- Closing lines behind a module change no verdict. -/
theorem passing_behind {checks : List Check} {names : List Text} {stage : Option Text}
    (hnames : ∀ n ∈ names, ∀ c ∈ n, Text.isNamePart c = true)
    (hstage : ∀ s, stage = some s → Text.isName s = true) :
    Passing checks ⟨u ++ v, names, stage⟩ ↔ Passing checks ⟨u, names, stage⟩ :=
  passing_congr (balanced_behind hu hfirst hv) (legacy_behind hu hfirst hv)
    (fun s hs _ => assigns_closing hu hfirst hv (hstage s hs))
    fun n hn => declares_behind hu hfirst hv (hnames n hn)

end

/-! An import line in front of a module. -/

theorem import_text_parts (name source v : Text) : importText name source ++ v =
    importHead name ++ '\x27' ::
      (source ++ '\x27' :: (([] : Text) ++ ';' :: (([] : Text) ++ '\n' :: v))) := by
  unfold Script.importText Script.importString
  simp

section

variable {name source v : Text} (hn : Text.isIdentifier name = true)
  (hs : InQuotes '\x27' source) (hv : v.head? ≠ some '#')

include hn in
theorem import_head_chars :
    ∀ c ∈ importHead name, (Text.isIdentifierPart c || c == ' ') = true := by
  intro c hc
  unfold Script.importHead at hc
  rw [List.mem_append, List.mem_append] at hc
  rcases hc with hc | hc | hc
  · exact (by decide : ∀ c ∈ "import ".toList, (Text.isIdentifierPart c || c == ' ') = true) c hc
  · simp [Text.identifier_parts hn c hc]
  · exact (by decide : ∀ c ∈ " from ".toList, (Text.isIdentifierPart c || c == ' ') = true) c hc

section

include hn hs hv

theorem balanced_import : Script.Balanced (Script.codeText (importText name source ++ v)) ↔
    Script.Balanced (Script.codeText v) := by
  have hhead : Script.Balanced (importHead name) := Script.balanced_without fun c hc =>
    not_bracket (p := fun c => Text.isIdentifierPart c || c == ' ') (by decide)
      (import_head_chars hn c hc)
  have hend : Script.Balanced ";\n".toList := by decide
  rw [Script.code_text_import hn hs hv, Script.Balanced, Script.pair_append,
    Script.balanced_over hhead, Option.bind_some, Script.pair_append, Script.balanced_over hend]
  rfl

omit hn hs hv in
theorem end_of_import (a : Text) : endOf none (importText name source ++ a) = endOf (some '\n') a := by
  have hcut : importText name source =
      (importHead name ++ (importString source ++ [';'])) ++ ['\n'] := by
    unfold Script.importText
    simp
  rw [Text.endOf_append, hcut, Text.endOf_concat]

/-- A legacy construct begins behind an import line, or not in its code. -/
theorem begins_legacy_import {a b : Text} (hab : importText name source ++ v = a ++ b)
    (hbegins : BeginsLegacy b) : (∃ y, v = y ++ b ∧ a = importText name source ++ y) ∨
      Script.isCode (a ++ b) a.length = false := by
  obtain ⟨k, hk, hdot, hquote, hhead, _⟩ := begins_legacy_word hbegins
  have hmark : ∀ {x : Char} {t : Text}, Text.isNameStart x = false → x :: t ≠ b := by
    rintro x t hx rfl
    cases k with
    | nil => simp at hdot
    | cons d k =>
      rw [(List.cons_prefix_cons.1 hk).1] at hhead
      simp [hx] at hhead
  have hcut : importHead name ++ (importString source ++ ';' :: '\n' :: v) = a ++ b := by
    rw [← hab]
    unfold Script.importText
    simp
  rcases List.append_eq_append_iff.1 hcut with ⟨x, rfl, hx⟩ | ⟨x, hx, hb⟩
  · rcases List.append_eq_append_iff.1 hx with ⟨y, rfl, hy⟩ | ⟨y, hy, hb⟩
    · cases y with
      | nil => exact absurd hy (hmark (by decide))
      | cons c y =>
        obtain ⟨rfl, hline⟩ := List.cons.inj hy
        cases y with
        | nil => exact absurd hline (hmark (by decide))
        | cons d y =>
          obtain ⟨rfl, rfl⟩ := List.cons.inj hline
          refine Or.inl ⟨y, rfl, ?_⟩
          unfold Script.importText
          simp
    · cases y with
      | nil => exact absurd hb.symm (hmark (by decide))
      | cons c y =>
        rw [← hab]
        refine Or.inr (Script.is_code_string hn hs hv (by simp) ?_)
        rw [hy]
        simp
  · -- the first word would have to end before the quote, and there is no dot
    have hx' : k <+: x := by
      rw [hb] at hk
      exact Text.prefix_of_not_mem hquote hk
    have hdot : '.' ∈ importHead name := by
      rw [hx]
      exact List.mem_append_right _ (hx'.subset hdot)
    exact absurd hdot (Text.not_mem_of_all (import_head_chars hn) (by decide))

theorem legacy_import : legacyIssues (importText name source ++ v) = [] ↔ legacyIssues v = [] := by
  have hfresh : ∀ a, Pattern.freshName (endOf (some '\n') a) = Pattern.freshName (endOf none a) := by
    intro a
    cases a <;> rfl
  rw [legacy_issues_nil_iff, legacy_issues_nil_iff]
  constructor
  · rintro h a b rfl hbehind hbegins
    rw [← Script.is_code_import hn hs hv, ← List.length_append]
    exact h (importText name source ++ a) b (by rw [List.append_assoc])
      (by rwa [end_of_import, hfresh]) hbegins
  · intro h a b hab hbehind hbegins
    rcases begins_legacy_import hn hs hv hab hbegins with ⟨y, rfl, rfl⟩ | hcode
    · rw [end_of_import, hfresh] at hbehind
      rw [List.length_append, Script.is_code_import hn hs hv]
      exact h y b rfl hbehind hbegins
    · rwa [hab]

omit hs hv in
theorem assigns_import {stage : Text} (hstage : Text.isName stage = true)
    (hsource : ¬ Assigns stage source) :
    Assigns stage (importText name source ++ v) ↔ Assigns stage v := by
  have hhead : ¬ Assigns stage (importHead name) :=
    undotted_unassigned (Text.not_mem_of_all (import_head_chars hn) (by decide))
  constructor
  · intro h
    rw [import_text_parts] at h
    have h := (assigns_cut hstage (by decide) (by decide) (by decide) h).resolve_left hhead
    have h := (assigns_cut hstage (by decide) (by decide) (by decide) h).resolve_left hsource
    exact assigns_behind (u := ";\n".toList) (by decide) h
  · exact Text.spells_within (List.suffix_append _ v).isInfix

omit hs hv in
theorem declares_import {n : Text} (hname : ∀ c ∈ n, Text.isNamePart c = true)
    (hsource : ¬ Declares n source) :
    Declares n (importText name source ++ v) ↔ Declares n v := by
  have hhead : ¬ Declares n (importHead name) := by
    refine fun h => class_word_absent ?_ n (declares_word h)
    have hblank : ' ' ∉ name := Text.not_mem_of_all (Text.identifier_parts hn) (by decide)
    have hshape : importHead name =
        "import".toList ++ ' ' :: (name ++ ' ' :: ("from".toList ++ ' ' :: [])) := by
      unfold Script.importHead
      simp
    rw [hshape, Text.split_on_append, Text.split_on_append, Text.split_on_append,
      Text.split_on_whole (by decide), Text.split_on_whole hblank, Text.split_on_whole (by decide)]
    intro w hw
    simp only [List.cons_append, List.nil_append, List.drop_succ_cons, List.drop_zero, Text.splitOn,
      List.mem_cons, List.not_mem_nil, or_false] at hw
    rcases hw with rfl | rfl <;> decide
  have hlacks : ∀ {x : Char}, (Text.isNamePart x || x == ' ') = false → x ∉ classWord n :=
    class_word_lacks hname
  rw [import_text_parts, declares_cut (by decide) (hlacks (by decide)),
    declares_cut (by decide) (hlacks (by decide)), declares_cut (by decide) (hlacks (by decide)),
    declares_cut (by decide) (hlacks (by decide))]
  simp [hhead, hsource, declares_nil]

/-- An import line in front of a module changes no verdict if its source spells none of what a check
looks for. -/
theorem passing_import {checks : List Check} {names : List Text} {stage : Option Text}
    (hnames : ∀ n ∈ names, ∀ c ∈ n, Text.isNamePart c = true)
    (hstage : ∀ s, stage = some s → Text.isName s = true)
    (hassigns : ∀ s, stage = some s → ¬ Assigns s source)
    (hdeclares : ∀ n ∈ names, ¬ Declares n source) :
    Passing checks ⟨importText name source ++ v, names, stage⟩ ↔
      Passing checks ⟨v, names, stage⟩ :=
  passing_congr (balanced_import hn hs hv) (legacy_import hn hs hv)
    (fun s h _ => assigns_import hn (hstage s h) (hassigns s h))
    fun n h => declares_import hn (hnames n h) (hdeclares n h)

end

end

end Output
end Restage
