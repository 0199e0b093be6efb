import Restage.Proofs.CheckedLines

/-!
When the checks of a module find nothing, said of the places in it (`passes_iff`). A pattern that
cannot begin inside one of its own fits finds every one of them (`hits_of_fit`), so that in the code
of a module that passes no legacy construct begins at a name that no dot leads to.
-/

set_option autoImplicit false

namespace Restage

open Text (endOf)

namespace Pattern

variable {p : Pattern}

/-- A pattern fits between a front part of a text and the rest. -/
def FitsAt (p : Pattern) (u v : Text) : Prop := ∃ parts, p.fits? (endOf none u) v = some parts

theorem first_some_iff {t : Text} :
    (p.first? t.entire).isSome = true ↔ ∃ u v, t = u ++ v ∧ p.FitsAt u v := by
  constructor
  · intro h
    obtain ⟨hit, hhit⟩ := Option.isSome_iff_exists.1 h
    obtain ⟨u, v, hcut, _, _, hfit⟩ := first_iff.1 hhit
    exact ⟨u, v, hcut, _, hfit⟩
  · rintro ⟨u, v, rfl, parts, hfit⟩
    rw [Option.isSome_iff_ne_none]
    intro hnone
    rw [first?, Text.entire, fits_of_first_none hnone] at *
    simp at hfit

/-- Every fit begins with a character that stands nowhere else in it. -/
def Solitary (head : Char) (p : Pattern) : Prop :=
  ∀ b v parts, p.fits? b v = some parts → ∃ w, parts.flatten = head :: w ∧ head ∉ w

/-- A fit of a solitary pattern begins inside no other, so it is among the hits. -/
theorem hits_of_fit {head : Char} (hp : p.Solitary head) {b : Option Char} {i skip : Nat}
    {u v : Text} {parts : List Text} (hskip : skip ≤ u.length)
    (hfit : p.fits? (endOf b u) v = some parts) :
    ∃ h ∈ p.hitsFrom b i skip (u ++ v), h.start = i + u.length := by
  induction u generalizing b i skip with
  | nil =>
    obtain rfl : skip = 0 := Nat.le_zero.1 hskip
    have hfit : p.fits? b v = some parts := hfit
    cases v with
    | nil => exact ⟨⟨i, parts⟩, by simp [hitsFrom, hfit], rfl⟩
    | cons c v => exact ⟨⟨i, parts⟩, by simp [hitsFrom, hfit], rfl⟩
  | cons c u ih =>
    have hstart : ∀ {h : Hit}, h.start = i + 1 + u.length → h.start = i + (c :: u).length := by
      intro h hh
      rw [hh, List.length_cons]
      omega
    rw [List.cons_append]
    cases skip with
    | succ skip =>
      obtain ⟨h, hh, hs⟩ := ih (i := i + 1) (Nat.le_of_succ_le_succ hskip) hfit
      exact ⟨h, by rwa [hitsFrom], hstart hs⟩
    | zero =>
      cases hhere : p.fits? b (c :: (u ++ v)) with
      | none =>
        obtain ⟨h, hh, hs⟩ := ih (i := i + 1) (Nat.zero_le _) hfit
        exact ⟨h, by simpa [hitsFrom, hhere] using hh, hstart hs⟩
      | some here =>
        have hlength : here.flatten.length - 1 ≤ u.length := by
          obtain ⟨w, hw, hlacks⟩ := hp _ _ _ hhere
          obtain ⟨w', hw', _⟩ := hp _ _ _ hfit
          obtain ⟨_, r, hr⟩ := fits_some.1 hhere
          obtain ⟨_, r', hr'⟩ := fits_some.1 hfit
          have hcut := Piece.readAll_flatten hr
          rw [hw, List.cons_append, List.cons.injEq] at hcut
          have hv := Piece.readAll_flatten hr'
          rw [hw'] at hv
          rw [hw, List.length_cons, Nat.add_sub_cancel]
          by_contra hlong
          -- the other fit would begin with a later character of this one
          rcases List.append_eq_append_iff.1 hcut.2 with ⟨x, hx, hrest⟩ | ⟨x, hx, _⟩
          · cases x with
            | nil => simp [hx] at hlong
            | cons d x =>
              rw [hv] at hrest
              have hd : head = d := (List.cons.inj hrest).1
              exact hlacks (by simp [hx, hd])
          · rw [hx, List.length_append] at hlong
            omega
        obtain ⟨h, hh, hs⟩ := ih (i := i + 1) hlength hfit
        refine ⟨h, ?_, hstart hs⟩
        simp only [hitsFrom, hhere]
        exact List.mem_cons_of_mem _ hh

end Pattern

namespace Script

/-- The code of a script. -/
def codeText (t : Text) : Text := ((marked t).filter (·.code)).map (·.char)

end Script

namespace Output

open Legacy Piece

/-- A text that begins with a definition or a call of a base class in its legacy form. -/
def BeginsLegacy (v : Text) : Prop :=
  ∃ b, ∃ w ∈ residueWords b, ∃ gap rest, (∀ c ∈ gap, Text.isBlank c = true) ∧
    v = w.1 ++ (gap ++ (w.2 ++ rest)) ∧ rest.head?.all (fun c => !Text.isWord c) = true

theorem word_end_split {t a r : Text} :
    wordEnd.split? t = some (a, r) ↔
      a = [] ∧ r = t ∧ t.head?.all (fun c => !Text.isWord c) = true := by
  cases t with
  | nil => simp [wordEnd, nextIsNot, split?, eq_comm]
  | cons c t => cases h : Text.isWord c <;> simp [wordEnd, nextIsNot, split?, h, eq_comm]

/-- What the pattern of a construct takes. -/
theorem construct_fit {p : Pattern} {u v w : Text} {c : Char} {k : Text}
    (hw : w = c :: k) (hc : Text.isBlank c = false)
    (hpieces : p.pieces = [.word u, .word v, .blanks, .word w, wordEnd]) {b : Option Char}
    {t : Text} {parts : List Text} :
    p.fits? b t = some parts ↔ p.behind b = true ∧ ∃ gap rest,
      (∀ c ∈ gap, Text.isBlank c = true) ∧ t = (u ++ v) ++ (gap ++ (w ++ rest)) ∧
        rest.head?.all (fun c => !Text.isWord c) = true ∧ parts = [u, v, gap, w, []] := by
  rw [Pattern.fits_some, hpieces]
  refine and_congr_right fun _ => ⟨?_, ?_⟩
  · rintro ⟨r, hr⟩
    obtain ⟨a1, t1, p1, g1, h1, rfl⟩ := readAll_cons_iff.1 hr
    obtain ⟨a2, t2, p2, g2, h2, rfl⟩ := readAll_cons_iff.1 h1
    obtain ⟨gap, t3, p3, g3, h3, rfl⟩ := readAll_cons_iff.1 h2
    obtain ⟨a4, t4, p4, g4, h4, rfl⟩ := readAll_cons_iff.1 h3
    obtain ⟨a5, t5, p5, g5, h5, rfl⟩ := readAll_cons_iff.1 h4
    obtain ⟨rfl, hcut1⟩ := word_split_iff.1 g1
    obtain ⟨rfl, hcut2⟩ := word_split_iff.1 g2
    obtain ⟨hcut3, _, hgap, _⟩ := run_split_iff.1 g3
    obtain ⟨rfl, hcut4⟩ := word_split_iff.1 g4
    obtain ⟨rfl, rfl, hend⟩ := word_end_split.1 g5
    obtain ⟨rfl, _⟩ := readAll_nil_iff.1 h5
    exact ⟨gap, t5, hgap, by rw [hcut1, hcut2, hcut3, hcut4]; simp, hend, rfl⟩
  · rintro ⟨gap, rest, hgap, rfl, hend, rfl⟩
    refine ⟨rest, ?_⟩
    rw [List.append_assoc, readAll_cons (word_split _ _), readAll_cons (word_split _ _),
      Piece.blanks, readAll_cons (run_split (by simp) hgap (by simp [hw, hc])),
      readAll_cons (word_split _ _), readAll_cons (word_end_split.2 ⟨rfl, rfl, hend⟩)]
    rfl

/-- A pattern of the check of legacy constructs, by the words that it looks for. -/
theorem residue_pattern {r : Pattern × String} (hr : r ∈ residues) :
    ∃ b, ∃ w ∈ residueWords b, ∃ u v, w.1 = u ++ v ∧ r.1.behind = Pattern.freshName ∧
      r.1.pieces = [.word u, .word v, .blanks, .word w.2, wordEnd] := by
  obtain ⟨b, _, hr⟩ := List.mem_flatMap.1 hr
  simp only [List.mem_cons, List.not_mem_nil, or_false] at hr
  rcases hr with rfl | rfl
  · exact ⟨b, (b.text ++ ".extend(".toList, "function".toList), by simp [residueWords], b.text,
      ".extend(".toList, rfl, rfl, rfl⟩
  · exact ⟨b, (b.text ++ ".call(".toList, "this".toList), by simp [residueWords], b.text,
      ".call(".toList, rfl, rfl, rfl⟩

theorem residue_pattern_of {b : Base} {w : Text × Text} (hw : w ∈ residueWords b) :
    ∃ r ∈ residues, ∃ u v, w.1 = u ++ v ∧ r.1.behind = Pattern.freshName ∧
      r.1.pieces = [.word u, .word v, .blanks, .word w.2, wordEnd] := by
  have hb : b ∈ Base.all := by cases b <;> decide
  simp only [residueWords, List.mem_cons, List.not_mem_nil, or_false] at hw
  rcases hw with rfl | rfl
  · exact ⟨_, List.mem_flatMap.2 ⟨b, hb, List.mem_cons_self⟩, b.text, ".extend(".toList, rfl, rfl,
      rfl⟩
  · exact ⟨_, List.mem_flatMap.2 ⟨b, hb, List.mem_cons_of_mem _ List.mem_cons_self⟩, b.text,
      ".call(".toList, rfl, rfl, rfl⟩

/-- The first word of a construct begins with a capital, which stands nowhere else in it. -/
theorem residue_words_capital {b : Base} {w : Text × Text} (hw : w ∈ residueWords b) :
    (∃ c k, w.1 = c :: k ∧ c ∉ k ∧ c ∉ w.2 ∧ Text.isBlank c = false) ∧
      ∃ d k, w.2 = d :: k ∧ Text.isBlank d = false := by
  simp only [residueWords, List.mem_cons, List.not_mem_nil, or_false] at hw
  cases b <;> rcases hw with rfl | rfl <;>
    exact ⟨⟨_, _, rfl, by decide, by decide, by decide⟩, _, _, rfl, by decide⟩

theorem residue_fit_iff {r : Pattern × String} {w : Text × Text} {u v : Text}
    {b : Base} (hw : w ∈ residueWords b) (hcut : w.1 = u ++ v)
    (hbehind : r.1.behind = Pattern.freshName)
    (hpieces : r.1.pieces = [.word u, .word v, .blanks, .word w.2, wordEnd]) {prior : Option Char}
    {t : Text} {parts : List Text} :
    r.1.fits? prior t = some parts ↔ Pattern.freshName prior = true ∧ ∃ gap rest,
      (∀ c ∈ gap, Text.isBlank c = true) ∧ t = w.1 ++ (gap ++ (w.2 ++ rest)) ∧
        rest.head?.all (fun c => !Text.isWord c) = true ∧ parts = [u, v, gap, w.2, []] := by
  obtain ⟨_, d, k, hk, hd⟩ := residue_words_capital hw
  rw [construct_fit hk hd hpieces, hbehind, hcut]

theorem residue_solitary {r : Pattern × String} (hr : r ∈ residues) :
    ∃ head, r.1.Solitary head := by
  obtain ⟨b, w, hw, u, v, hcut, hbehind, hpieces⟩ := residue_pattern hr
  obtain ⟨⟨c, k, hk, hlacks, hsecond, hblank⟩, _⟩ := residue_words_capital hw
  refine ⟨c, fun prior t parts hfit => ?_⟩
  obtain ⟨_, gap, rest, hgap, _, _, rfl⟩ := (residue_fit_iff hw hcut hbehind hpieces).1 hfit
  refine ⟨k ++ (gap ++ w.2), ?_, ?_⟩
  · have hflat : [u, v, gap, w.2, ([] : Text)].flatten = w.1 ++ (gap ++ w.2) := by
      rw [hcut]
      simp
    rw [hflat, hk, List.cons_append]
  · rw [List.mem_append, List.mem_append, not_or, not_or]
    refine ⟨hlacks, fun h => ?_, hsecond⟩
    rw [hgap c h] at hblank
    exact Bool.noConfusion hblank

/-- The legacy constructs that the check finds. -/
def legacyIssues (out : Text) : List Issue :=
  residues.flatMap fun r =>
    ((r.1.hits out.entire).filter fun h => (Script.codeMask out).toArray.getD h.start true).map
      fun h => ⟨.legacyResidue, some (out.lineOf h.start), r.2⟩

theorem code_mask_get (out : Text) (i : Nat) :
    (Script.codeMask out).toArray.getD i true = Script.isCode out i := by
  simp [Script.isCode, Array.getD_eq_getD_getElem?, List.getD_eq_getElem?_getD]

/-- The check finds no legacy construct when none begins in the code, at a name that no dot leads
to. -/
theorem legacy_issues_nil_iff {out : Text} :
    legacyIssues out = [] ↔ ∀ u v, out = u ++ v → Pattern.freshName (endOf none u) = true →
      BeginsLegacy v → Script.isCode out u.length = false := by
  rw [legacyIssues, List.flatMap_eq_nil_iff]
  simp only [List.map_eq_nil_iff, List.filter_eq_nil_iff, code_mask_get, Bool.not_eq_true]
  constructor
  · rintro h u v rfl hfresh ⟨b, w, hw, gap, rest, hgap, rfl, hend⟩
    obtain ⟨r, hr, x, y, hcut, hbehind, hpieces⟩ := residue_pattern_of hw
    obtain ⟨head, hsolitary⟩ := residue_solitary hr
    have hfit := (residue_fit_iff hw hcut hbehind hpieces).2
      ⟨hfresh, gap, rest, hgap, rfl, hend, rfl⟩
    obtain ⟨hit, hhit, hstart⟩ := Pattern.hits_of_fit hsolitary (i := 0) (Nat.zero_le _) hfit
    have := h r hr hit hhit
    rwa [hstart, Nat.zero_add] at this
  · intro h r hr hit hhit
    obtain ⟨b, w, hw, x, y, hcut, hbehind, hpieces⟩ := residue_pattern hr
    obtain ⟨u, v, hout, hstart, hfit⟩ := Pattern.hit_cut hhit
    obtain rfl : out = u ++ v := hout
    obtain ⟨hfresh, gap, rest, hgap, rfl, hend, _⟩ :=
      (residue_fit_iff hw hcut hbehind hpieces).1 hfit
    rw [hstart, Text.entire, Nat.zero_add]
    exact h u _ rfl hfresh ⟨b, w, hw, gap, rest, hgap, rfl, hend⟩

/-! The other checks. -/

theorem assets_pieces (stage : Text) :
    (assetsResidue stage).pieces = [.word (Export.assetsWord stage), .blanks, .word ['=']] := rfl

theorem assets_fit_iff {stage out : Text} :
    (∃ u v, out = u ++ v ∧ (assetsResidue stage).FitsAt u v) ↔ Export.Assigns stage out := by
  constructor
  · rintro ⟨u, v, rfl, parts, hfit⟩
    obtain ⟨_, r, hr⟩ := Pattern.fits_some.1 hfit
    rw [assets_pieces] at hr
    obtain ⟨_, t1, _, g1, h1, _⟩ := readAll_cons_iff.1 hr
    obtain ⟨gap, t2, _, g2, h2, _⟩ := readAll_cons_iff.1 h1
    obtain ⟨_, t3, _, g3, _, _⟩ := readAll_cons_iff.1 h2
    obtain ⟨hcut, _, hgap, _⟩ := run_split_iff.1 g2
    refine ⟨gap, hgap, u, t3, ?_⟩
    rw [(word_split_iff.1 g1).2, hcut, (word_split_iff.1 g3).2]
    simp only [List.append_assoc]
  · rintro ⟨gap, hgap, u, v, rfl⟩
    have hequals : Text.isBlank '=' = false := by decide
    refine ⟨u, Export.assetsWord stage ++ (gap ++ (['='] ++ v)), by simp only [List.append_assoc],
      [Export.assetsWord stage, gap, ['=']], Pattern.fits_of_reads (r := v) rfl ?_⟩
    rw [assets_pieces, readAll_cons (word_split _ _), Piece.blanks,
      readAll_cons (run_split (by simp) hgap (by simp [hequals])), readAll_cons (word_split _ _)]
    rfl

/-- A class is declared somewhere in a text. -/
def Declares (name out : Text) : Prop :=
  ∃ u v, out = u ++ (("class ".toList ++ name ++ " extends".toList) ++ v) ∧
    Pattern.wordStart (endOf none u) = true ∧ v.head?.all (fun c => !Text.isWord c) = true

theorem class_fit_iff {name u v : Text} : (classDeclaration name).FitsAt u v ↔
    Pattern.wordStart (endOf none u) = true ∧ ∃ r,
      v = ("class ".toList ++ name ++ " extends".toList) ++ r ∧
        r.head?.all (fun c => !Text.isWord c) = true := by
  have hpieces : (classDeclaration name).pieces =
    [.word ("class ".toList ++ name ++ " extends".toList), wordEnd] := rfl
  constructor
  · rintro ⟨parts, hfit⟩
    obtain ⟨hbehind, r, hr⟩ := Pattern.fits_some.1 hfit
    rw [hpieces] at hr
    obtain ⟨_, t1, _, g1, h1, _⟩ := readAll_cons_iff.1 hr
    obtain ⟨_, t2, _, g2, _, _⟩ := readAll_cons_iff.1 h1
    obtain ⟨_, rfl, hend⟩ := word_end_split.1 g2
    exact ⟨hbehind, t2, (word_split_iff.1 g1).2, hend⟩
  · rintro ⟨hbehind, r, rfl, hend⟩
    refine ⟨["class ".toList ++ name ++ " extends".toList, []],
      Pattern.fits_of_reads hbehind (r := r) ?_⟩
    rw [hpieces, readAll_cons (word_split _ _), readAll_cons (word_end_split.2 ⟨rfl, rfl, hend⟩)]
    rfl

theorem class_issues_nil_iff {out : Text} {names : List Text} :
    classIssues out names = [] ↔ ∀ n ∈ names, Declares n out := by
  rw [classIssues, List.filterMap_eq_nil_iff]
  refine forall₂_congr fun n _ => ?_
  rw [ite_eq_left_iff]
  simp only [reduceCtorEq, imp_false, not_not]
  rw [Pattern.first_some_iff]
  constructor
  · rintro ⟨u, v, rfl, hfit⟩
    obtain ⟨hbehind, r, rfl, hend⟩ := class_fit_iff.1 hfit
    exact ⟨u, r, rfl, hbehind, hend⟩
  · rintro ⟨u, r, rfl, hbehind, hend⟩
    exact ⟨u, _, rfl, class_fit_iff.2 ⟨hbehind, r, rfl, hend⟩⟩

theorem residue_issues_nil_iff {out : Text} {stage : Option Text} :
    residueIssues out stage = [] ↔ legacyIssues out = [] ∧
      ∀ name, stage = some name → name ≠ [] → ¬ Export.Assigns name out := by
  have hsplit : ∀ issues, residueIssues out stage = legacyIssues out ++ issues →
      (residueIssues out stage = [] ↔ legacyIssues out = [] ∧ issues = []) := fun issues h => by
    rw [h, List.append_eq_nil_iff]
  cases stage with
  | none =>
    rw [hsplit [] rfl]
    simp
  | some name =>
    simp only [Option.some.injEq, forall_eq']
    rw [← assets_fit_iff, ← Pattern.first_some_iff]
    cases name with
    | nil =>
      rw [hsplit [] rfl]
      simp
    | cons c name =>
      cases hfirst : (assetsResidue (c :: name)).first? out.entire with
      | none =>
        rw [hsplit [] (by simp [residueIssues, legacyIssues, hfirst])]
        simp
      | some h =>
        rw [hsplit [⟨.legacyResidue, some (out.lineOf h.start),
          "assets assignment was not replaced by the stage reference"⟩]
          (by simp [residueIssues, legacyIssues, hfirst])]
        simp

theorem mismatch_none_iff {t : Text} :
    Script.firstMismatch t = none ↔ Script.Balanced (Script.codeText t) := by
  rw [Script.firstMismatch, Option.map_eq_none_iff, Script.mismatch_chars]
  rfl

theorem bracket_issues_nil_iff {out : Text} :
    bracketIssues out = [] ↔ Script.Balanced (Script.codeText out) := by
  rw [← mismatch_none_iff, bracketIssues]
  cases Script.firstMismatch out <;> simp

/-- What a module that passes some checks is like. -/
structure Passing (checks : List Check) (s : Subject) : Prop where
  brackets : .brackets ∈ checks → Script.Balanced (Script.codeText s.output)
  converted : .legacyResidue ∈ checks → legacyIssues s.output = []
  attached : .legacyResidue ∈ checks →
    ∀ name, s.stageName = some name → name ≠ [] → ¬ Export.Assigns name s.output
  declared : .classCount ∈ checks → ∀ n ∈ s.classNames, Declares n s.output

theorem passes_iff {checks : List Check} {s : Subject} :
    runChecks checks s = [] ↔ Passing checks s := by
  rw [runChecks, List.flatMap_eq_nil_iff]
  constructor
  · intro h
    have hresidue := fun hin => residue_issues_nil_iff.1 (h .legacyResidue hin)
    exact ⟨fun hin => bracket_issues_nil_iff.1 (h .brackets hin), fun hin => (hresidue hin).1,
      fun hin => (hresidue hin).2, fun hin => class_issues_nil_iff.1 (h .classCount hin)⟩
  · intro h c hc
    cases c with
    | brackets => exact bracket_issues_nil_iff.2 (h.brackets hc)
    | legacyResidue => exact residue_issues_nil_iff.2 ⟨h.converted hc, h.attached hc⟩
    | classCount => exact class_issues_nil_iff.2 (h.declared hc)

end Output
end Restage
