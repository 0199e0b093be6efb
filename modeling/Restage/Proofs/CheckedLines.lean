import Restage.Output.Check
import Restage.Proofs.ClassRows
import Restage.Proofs.Locality

/-!
The checks of a module, line by line. A line is sound (`SoundLine`) when the automaton reads it and
neither a legacy construct nor the assignment that stands for the assets begins in it; a module of
sound lines has no residue (`residue_none`), and its brackets are those of its lines
(`module_brackets`).
-/

set_option autoImplicit false

namespace Restage.Output

open Legacy Piece
open Export (Assigns Residual assetsWord)
open Text (endOf Spells)

/-! The constructs that a check looks for. -/

section

variable {stage : Text} (hs : Text.isName stage = true)

/-- The word in front of an assignment holds name characters and dots. -/
def isWordMark (c : Char) : Bool := Text.isNamePart c || c == '.'

include hs in
theorem assets_word_chars : ∀ c ∈ assetsWord stage, isWordMark c = true := by
  intro c hc
  unfold assetsWord at hc
  rw [List.mem_append, List.mem_append] at hc
  rcases hc with (hc | hc) | hc
  · exact (by decide : ∀ c ∈ "data.lib.".toList, isWordMark c = true) c hc
  · simp [isWordMark, Text.name_parts hs c hc]
  · exact (by decide : ∀ c ∈ ".assets".toList, isWordMark c = true) c hc

theorem assets_word_dot (stage : Text) : '.' ∈ assetsWord stage := by
  unfold assetsWord
  simp

theorem assets_word_head (stage : Text) : ∃ w, assetsWord stage = 'd' :: w := ⟨_, rfl⟩

theorem undotted_unassigned {u : Text} (h : '.' ∉ u) : ¬ Assigns stage u := fun hin =>
  h ((Text.spells_word hin).subset (assets_word_dot stage))

/-- An assignment begins with a `d`. -/
theorem assigns_behind {u v : Text} (hu : 'd' ∉ u) (h : Assigns stage (u ++ v)) :
    Assigns stage v := Text.spells_behind hu h

include hs

/-- An assignment does not reach across a character that it lacks. -/
theorem assigns_cut {x : Char} (h1 : isWordMark x = false) (h2 : Text.isBlank x = false)
    (h3 : x ≠ '=') {u v : Text} (h : Assigns stage (u ++ x :: v)) :
    Assigns stage u ∨ Assigns stage v :=
  Text.spells_cut (Text.not_mem_of_all (assets_word_chars hs) h1) (by simpa using h3) h2 h

/-- An assignment does not begin in a line without its word. -/
theorem assigns_line {u v : Text} (hu : ¬ assetsWord stage <:+: u)
    (h : Assigns stage (u ++ '\n' :: v)) : Assigns stage v := by
  have hline : '\n' ∉ assetsWord stage := Text.not_mem_of_all (assets_word_chars hs) (by decide)
  obtain ⟨w, hw⟩ := assets_word_head stage
  exact Text.spells_line hline (by simp [hw]) hu h

end

/-- The first words of the legacy constructs, with the second ones. -/
def residueWords (b : Base) : List (Text × Text) :=
  [(b.text ++ ".extend(".toList, "function".toList), (b.text ++ ".call(".toList, "this".toList)]

theorem residual_iff {t : Text} :
    Residual t ↔ ∃ b, ∃ r ∈ residueWords b, Spells r.1 r.2 t := by
  simp [Residual, residueWords]

theorem residue_words_plain : ∀ b, ∀ r ∈ residueWords b,
    (∀ c ∈ r.1 ++ r.2, Script.isQuote c = false ∧ c ≠ '\n') ∧ r.1 ≠ [] ∧ '.' ∈ r.1 ∧
      '(' ∈ r.1 := by
  intro b
  cases b <;> decide

/-- The words of a construct begin with a letter and lack the marks between entries. -/
theorem residue_words_marks : ∀ b, ∀ r ∈ residueWords b,
    r.1.head?.any Text.isNameStart = true ∧
      (∀ c ∈ [',', ':', ' '], c ∉ r.1) ∧ ∀ c ∈ [',', ':', ' '], c ∉ r.2 := by
  intro b
  cases b <;> decide

/-- A legacy construct does not begin in a line without its first word. -/
theorem residual_line {u v : Text} (hu : ∀ b, ∀ r ∈ residueWords b, ¬ r.1 <:+: u)
    (h : Residual (u ++ '\n' :: v)) : Residual v := by
  obtain ⟨b, r, hr, h⟩ := residual_iff.1 h
  obtain ⟨hplain, hne, _⟩ := residue_words_plain b r hr
  refine residual_iff.2 ⟨b, r, hr, Text.spells_line (fun hm => ?_) hne (hu b r hr) h⟩
  exact (hplain '\n' (List.mem_append_left _ hm)).2 rfl

/-! Clean texts. -/

/-- A text that is all code and holds none of the words that a check looks for. -/
structure Clean (stage t : Text) : Prop where
  bare : Script.Bare t
  no_extend : ¬ ".extend(".toList <:+: t
  no_call : ¬ ".call(".toList <:+: t
  no_assets : ¬ assetsWord stage <:+: t

section

variable {stage : Text}

theorem clean_within {u t : Text} (h : u <:+: t) (ht : Clean stage t) : Clean stage u where
  bare := ⟨fun c hc => ht.bare.1 c (h.subset hc), fun hu => ht.bare.2 (hu.trans h)⟩
  no_extend hu := ht.no_extend (hu.trans h)
  no_call hu := ht.no_call (hu.trans h)
  no_assets hu := ht.no_assets (hu.trans h)

theorem clean_plain {l : Text} (hl : Row.Plain l) : Clean stage l where
  bare := hl.bare
  no_extend := hl.no_extend
  no_call := hl.no_call
  no_assets h := hl.no_assets ((List.suffix_append _ _).isInfix.trans h)

theorem bare_harmless {t : Text} (ht : ∀ c ∈ t, Script.opensLiteral c = false ∧ c ≠ '>') :
    Script.Bare t :=
  ⟨fun c hc => (ht c hc).1, fun h => (ht '>' (h.subset (by simp))).2 rfl⟩

/-- Each of the words has a dot. -/
theorem clean_undotted {t : Text} (ht : ∀ c ∈ t, Script.opensLiteral c = false ∧ c ≠ '>')
    (hdot : '.' ∉ t) : Clean stage t := by
  exact ⟨bare_harmless ht, fun h => hdot (h.subset (by simp)), fun h => hdot (h.subset (by simp)),
    fun h => hdot (h.subset (assets_word_dot stage))⟩

/-- The legacy constructs have a parenthesis. -/
theorem clean_unopened {t : Text} (ht : ∀ c ∈ t, Script.opensLiteral c = false ∧ c ≠ '>')
    (hparen : '(' ∉ t) (hword : ¬ assetsWord stage <:+: t) : Clean stage t :=
  ⟨bare_harmless ht, fun h => hparen (h.subset (by simp)), fun h => hparen (h.subset (by simp)),
    hword⟩

variable (hs : Text.isName stage = true)
include hs

theorem clean_line {u v : Text} (hu : Clean stage u) (hv : Clean stage v) :
    Clean stage (u ++ '\n' :: v) where
  bare := bare_line hu.bare hv.bare
  no_extend h := (Text.infix_across (by decide) h).elim hu.no_extend hv.no_extend
  no_call h := (Text.infix_across (by decide) h).elim hu.no_call hv.no_call
  no_assets h := (Text.infix_across (Text.not_mem_of_all (assets_word_chars hs) (by decide)) h).elim
    hu.no_assets hv.no_assets

end

/-! Sound lines. -/

/-- A line in which neither a legacy construct nor an assets assignment begins. -/
structure SoundLine (stage l : Text) : Prop where
  tidy : Script.Tidy l
  no_residue : ∀ t, Residual (Script.visible .fresh l ++ '\n' :: t) → Residual t
  no_assets : ∀ t, Assigns stage (l ++ '\n' :: t) → Assigns stage t

theorem sound_clean {stage l : Text} (hs : Text.isName stage = true) (hl : Clean stage l) :
    SoundLine stage l where
  tidy := Script.tidy_bare hl.bare
  no_residue t := by
    rw [Script.visible_bare hl.bare]
    refine residual_line fun b r hr h => ?_
    simp only [residueWords, List.mem_cons, List.not_mem_nil, or_false] at hr
    rcases hr with rfl | rfl
    · exact hl.no_extend ((List.suffix_append _ _).isInfix.trans h)
    · exact hl.no_call ((List.suffix_append _ _).isInfix.trans h)
  no_assets _ := assigns_line hs hl.no_assets

/-! Modules of sound lines. -/

/-- The text of a module with the given lines. -/
def moduleText (ls : List Text) : Text := ls.flatMap fun l => l ++ ['\n']

section

variable {stage : Text}

theorem module_cons (l : Text) (ls : List Text) :
    moduleText (l :: ls) = l ++ '\n' :: moduleText ls := by simp [moduleText]

theorem module_tidy {ls : List Text} (h : ∀ l ∈ ls, SoundLine stage l) :
    Script.Tidy (moduleText ls) := by
  induction ls with
  | nil => exact Script.tidy_nil
  | cons l ls ih =>
    rw [module_cons]
    exact Script.tidy_line (h l (by simp)).tidy (ih fun k hk => h k (by simp [hk]))

theorem module_brackets {ls : List Text} (h : ∀ l ∈ ls, SoundLine stage l) :
    (Script.visible .fresh (moduleText ls)).filter Script.isBracket =
      ls.flatMap fun l => (Script.visible .fresh l).filter Script.isBracket := by
  have hline : Script.isBracket '\n' = false := by decide
  induction ls with
  | nil => rfl
  | cons l ls ih =>
    rw [module_cons, Script.visible_line (h l (by simp)).tidy, List.filter_append,
      List.filter_cons, hline, List.flatMap_cons, ← ih fun k hk => h k (by simp [hk])]
    rfl

theorem module_converted {ls : List Text} (h : ∀ l ∈ ls, SoundLine stage l) :
    ¬ Residual (Script.visible .fresh (moduleText ls)) := by
  induction ls with
  | nil =>
    intro hin
    obtain ⟨b, r, hr, hin⟩ := residual_iff.1 hin
    exact (residue_words_plain b r hr).2.1 (List.infix_nil.1 (Text.spells_word hin))
  | cons l ls ih =>
    rw [module_cons, Script.visible_line (h l (by simp)).tidy]
    exact fun hin => ih (fun k hk => h k (by simp [hk])) ((h l (by simp)).no_residue _ hin)

theorem module_unassigned {ls : List Text} (h : ∀ l ∈ ls, SoundLine stage l) :
    ¬ Assigns stage (moduleText ls) := by
  induction ls with
  | nil =>
    intro hin
    obtain ⟨w, hw⟩ := assets_word_head stage
    have := List.infix_nil.1 (Text.spells_word hin)
    simp [hw] at this
  | cons l ls ih =>
    rw [module_cons]
    exact fun hin => ih (fun k hk => h k (by simp [hk])) ((h l (by simp)).no_assets _ hin)

end

/-! The three checks. -/

/-- What the pieces of a construct take. -/
theorem construct_reads {u v w t r : Text} {ps : List Piece} {parts : List Text}
    (h : readAll (.word u :: .word v :: .blanks :: .word w :: ps) t = some (parts, r)) :
    ∃ gap x, (∀ c ∈ gap, Text.isBlank c = true) ∧ t = ((u ++ v) ++ (gap ++ w)) ++ x := by
  obtain ⟨_, t1, _, g1, h1, _⟩ := readAll_cons_iff.1 h
  obtain ⟨_, t2, _, g2, h2, _⟩ := readAll_cons_iff.1 h1
  obtain ⟨gap, t3, _, g3, h3, _⟩ := readAll_cons_iff.1 h2
  obtain ⟨_, t4, _, g4, _, _⟩ := readAll_cons_iff.1 h3
  have hgap := run_split_iff.1 g3
  refine ⟨gap, t4, hgap.2.2.1, ?_⟩
  rw [(word_split_iff.1 g1).2, (word_split_iff.1 g2).2, hgap.1, (word_split_iff.1 g4).2]
  simp only [List.append_assoc]

/-- A construct that begins at code is visible. -/
theorem hit_visible {p : Pattern} {u v w : Text} {ps : List Piece}
    (hp : p.pieces = .word u :: .word v :: .blanks :: .word w :: ps) (hne : u ++ v ≠ [])
    (hq : ∀ c ∈ (u ++ v) ++ w, Script.isQuote c = false) {t : Text} {h : Hit}
    (hh : h ∈ p.hits t.entire) (hcode : (Script.quoteMask .fresh t).getD h.start true = true) :
    Spells (u ++ v) w (Script.visible .fresh t) := by
  obtain ⟨front, rest, hcut, hstart, hfit⟩ := Pattern.hit_cut hh
  obtain ⟨_, r, hr⟩ := Pattern.fits_some.1 hfit
  rw [hp] at hr
  obtain ⟨gap, x, hgap, hx⟩ := construct_reads hr
  simp only [Text.entire, Nat.zero_add] at hcut hstart
  rw [hstart] at hcode
  rw [hcut, hx] at hcode ⊢
  refine ⟨gap, hgap, Script.word_visible
    (fun h => hne (List.append_eq_nil_iff.1 h).1) (fun c hc => ?_) hcode⟩
  simp only [List.mem_append] at hc hq
  rcases hc with hc | hc | hc
  · exact hq c (Or.inl hc)
  · exact Script.not_quote_of (p := Text.isBlank) (by decide) (hgap c hc)
  · exact hq c (Or.inr hc)

theorem residue_none {out stage : Text}
    (hmask : Script.codeMask out = Script.quoteMask .fresh out)
    (hresidue : ¬ Residual (Script.visible .fresh out)) (hassigns : ¬ Assigns stage out) :
    residueIssues out (some stage) = [] := by
  have hnone : ∀ (b : Base) {p : Pattern} {v w : Text} {ps : List Piece},
      p.pieces = .word b.text :: .word v :: .blanks :: .word w :: ps →
      (b.text ++ v, w) ∈ residueWords b → ∀ h ∈ p.hits out.entire,
        (Script.codeMask out).toArray.getD h.start true = false := by
    intro b p v w ps hp hword h hh
    obtain ⟨hplain, hne, _⟩ := residue_words_plain b _ hword
    by_contra hcode
    rw [Bool.not_eq_false, hmask] at hcode
    have hcode : (Script.quoteMask .fresh out).getD h.start true = true := by
      simpa [Array.getD_eq_getD_getElem?, List.getD_eq_getElem?_getD] using hcode
    exact hresidue (residual_iff.2 ⟨b, _, hword,
      hit_visible hp hne (fun c hc => (hplain c hc).1) hh hcode⟩)
  have hlegacy : ∀ r ∈ residues, ∀ h ∈ r.1.hits out.entire,
      (Script.codeMask out).toArray.getD h.start true = false := by
    intro r hr
    obtain ⟨b, _, hr⟩ := List.mem_flatMap.1 hr
    simp only [List.mem_cons, List.not_mem_nil, or_false] at hr
    rcases hr with rfl | rfl
    · exact hnone b rfl (by simp [residueWords])
    · exact hnone b rfl (by simp [residueWords])
  have hassets : (assetsResidue stage).first? out.entire = none := by
    cases hf : (assetsResidue stage).first? out.entire with
    | none => rfl
    | some h =>
      obtain ⟨u, v, hcut, _, _, hfit⟩ := Pattern.first_iff.1 hf
      obtain ⟨_, r, hr⟩ := Pattern.fits_some.1 hfit
      obtain ⟨_, v1, _, g1, g2, _⟩ := readAll_cons_iff.1 hr
      obtain ⟨gap, v2, _, g3, g4, _⟩ := readAll_cons_iff.1 g2
      obtain ⟨_, v3, _, g5, _, _⟩ := readAll_cons_iff.1 g4
      have hgap := run_split_iff.1 g3
      have hword : v = assetsWord stage ++ v1 := (word_split_iff.1 g1).2
      have hequals : v2 = ['='] ++ v3 := (word_split_iff.1 g5).2
      refine absurd ⟨gap, hgap.2.2.1, u, v3, ?_⟩ hassigns
      show _ = out
      rw [show out = u ++ v from hcut, hword, hgap.1, hequals]
      simp only [List.append_assoc]
  rw [residueIssues]
  simp only [hassets, ite_self, List.append_nil]
  refine List.flatMap_eq_nil_iff.2 fun r hr => ?_
  rw [List.map_eq_nil_iff, List.filter_eq_nil_iff]
  exact fun h hh => by rw [hlegacy r hr h hh]; decide

/-- What stands around the name of a class where it is declared. -/
def declaration (name : Text) : Text := " class ".toList ++ (name ++ " extends ".toList)

/-- Every class that is declared is found. -/
theorem classes_found {out : Text} {names : List Text}
    (h : ∀ n ∈ names, declaration n <:+: out) : classIssues out names = [] := by
  refine List.filterMap_eq_nil_iff.2 fun n hn => ?_
  obtain ⟨u, v, huv⟩ := h n hn
  have hcut : out = (u ++ [' ']) ++ (("class ".toList ++ n ++ " extends".toList) ++ (' ' :: v)) := by
    have hclass : " class ".toList = [' '] ++ "class ".toList := rfl
    have hextends : " extends ".toList = " extends".toList ++ [' '] := rfl
    rw [← huv]
    unfold declaration
    rw [hclass, hextends]
    simp
  have hfits : (classDeclaration n).fits? (endOf none (u ++ [' ']))
      (("class ".toList ++ n ++ " extends".toList) ++ (' ' :: v)) =
      some [("class ".toList ++ n ++ " extends".toList), []] := by
    rw [Text.endOf_concat]
    have hbehind : Pattern.wordStart (some ' ') = true := by decide
    refine Pattern.fits_of_reads (r := ' ' :: v) hbehind ?_
    have hend : wordEnd.split? (' ' :: v) = some ([], ' ' :: v) := by
      have hblank : Text.isWord ' ' = false := by decide
      simp [wordEnd, nextIsNot, split?, hblank]
    rw [classDeclaration]
    simp only
    rw [readAll_cons (word_split _ _), readAll_cons hend]
    rfl
  have hsome : ((classDeclaration n).first? out.entire).isSome = true := by
    cases hf : (classDeclaration n).first? out.entire with
    | some _ => rfl
    | none =>
      rw [Pattern.first?, Text.entire, hcut] at hf
      rw [Pattern.fits_of_first_none hf] at hfits
      exact absurd hfits (by simp)
  rw [if_pos hsome]

/-- A module of sound lines whose brackets pair up and that declares the classes passes. -/
theorem module_passes {stage : Text} {ls : List Text} (h : ∀ l ∈ ls, SoundLine stage l)
    (hfirst : ∀ u, moduleText ls ≠ '#' :: '!' :: u)
    (hbrackets : Script.Balanced (ls.flatMap fun l =>
      (Script.visible .fresh l).filter Script.isBracket))
    {names : List Text} (hnames : ∀ n ∈ names, declaration n <:+: moduleText ls)
    (checks : List Check) : runChecks checks ⟨moduleText ls, names, some stage⟩ = [] := by
  obtain ⟨n, hn, hscan⟩ := module_tidy h
  have hmask := Script.code_mask_scan hscan hn fun u hu => absurd hu (hfirst u)
  have hbalanced : Script.Balanced (Script.visible .fresh (moduleText ls)) := by
    rw [← module_brackets h] at hbrackets
    exact Script.balanced_of_brackets (by simp) hbrackets
  refine List.flatMap_eq_nil_iff.2 fun c _ => ?_
  cases c with
  | brackets =>
    rw [Check.run, bracketIssues, Script.mismatch_none hmask hbalanced]
  | legacyResidue => exact residue_none hmask (module_converted h) (module_unassigned h)
  | classCount => exact classes_found hnames

end Restage.Output
