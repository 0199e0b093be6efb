import Restage.Proofs.Characters
import Restage.Proofs.Locality
import Restage.Proofs.Outcome
import Restage.Proofs.QuotedScript

/-!
What stands around the landmarks of a source. A stretch that holds all of them has the landmarks of
the whole text (`landmarks_core`), so code in front of it or behind it has no part in the outcome;
in particular it is no reason for a refusal (`refuses_stray_iff`).
-/

set_option autoImplicit false

namespace Restage

open Legacy Output
open Text (endOf)

namespace Legacy

theorem opening_closed : Setup.opening.Closed :=
  ⟨[.lit "(function", .blanks, .lit "(", .run 0 (· != ')'), .lit ")", .blanks], ['\x7b'], rfl, by
    intro q hq
    simp only [List.mem_cons, List.not_mem_nil, or_false] at hq
    rcases hq with rfl | rfl | rfl | rfl | rfl | rfl
    · exact Piece.word_local _
    · exact Piece.run_local _ _
    · exact Piece.word_local _
    · exact Piece.run_local _ _
    · exact Piece.word_local _
    · exact Piece.run_local _ _, by decide⟩

theorem assignment_closed (library : Text) : (Assets.assignment library).Closed :=
  ⟨[.word (library ++ ['.']), .nextIs Text.isNameStart, .run 1 Text.isNamePart, .lit ".assets",
    .blanks, .lit "=", .blanks, .lit "\x7b", .run 0 (· != '\x7d')], "\x7d;".toList, rfl, by
    intro q hq
    simp only [List.mem_cons, List.not_mem_nil, or_false] at hq
    rcases hq with rfl | rfl | rfl | rfl | rfl | rfl | rfl | rfl | rfl
    · exact Piece.word_local _
    · exact Piece.next_is_local _
    · exact Piece.run_local _ _
    · exact Piece.word_local _
    · exact Piece.run_local _ _
    · exact Piece.word_local _
    · exact Piece.run_local _ _
    · exact Piece.word_local _
    · exact Piece.run_local _ _, by decide⟩

theorem literal_closed : Stage.literal.Closed :=
  ⟨[.lit "module.exports", .blanks, .lit "=", .blanks, .lit "\x7b", .run 1 (· != '\x7d')],
    "\x7d;".toList, rfl, by
    intro q hq
    simp only [List.mem_cons, List.not_mem_nil, or_false] at hq
    rcases hq with rfl | rfl | rfl | rfl | rfl | rfl
    · exact Piece.word_local _
    · exact Piece.run_local _ _
    · exact Piece.word_local _
    · exact Piece.run_local _ _
    · exact Piece.word_local _
    · exact Piece.run_local _ _, by decide⟩

namespace Setup

theorem starts_extend {s u q : Text} (h : Text.startsWith u s = true) :
    Text.startsWith (u ++ q) s = true := by
  obtain ⟨r, hr⟩ := Option.isSome_iff_exists.1 h
  rw [Text.after?_eq_some.1 hr, List.append_assoc, Text.startsWith, Text.after?_append]
  rfl

theorem starts_restrict {s u q : Text} (h : Text.startsWith (u ++ q) s = true)
    (hlen : s.length ≤ u.length) : Text.startsWith u s = true := by
  obtain ⟨r, hr⟩ := Option.isSome_iff_exists.1 h
  have hpre : s <+: u := List.prefix_of_prefix_length_le ⟨r, (Text.after?_eq_some.1 hr).symm⟩
    (List.prefix_append u q) hlen
  obtain ⟨v, rfl⟩ := hpre
  rw [Text.startsWith, Text.after?_append]
  rfl

theorem last_missing {s u q : Text} (h : lastOf? s (u ++ q) = none) : lastOf? s u = none := by
  induction u with
  | nil => rfl
  | cons c u ih =>
    rw [List.cons_append, lastOf?] at h
    split at h
    · simp at h
    · next hnone =>
      split at h
      · simp at h
      · next hstart =>
        rw [lastOf?, ih hnone]
        simp only
        rw [if_neg]
        intro hs
        exact hstart (starts_extend (q := q) hs)

theorem last_restrict {s u q : Text} {k : Nat} (h : lastOf? s (u ++ q) = some k)
    (hk : k + s.length ≤ u.length) (hs : s ≠ []) : lastOf? s u = some k := by
  have hpos := List.length_pos_iff.2 hs
  induction u generalizing k with
  | nil =>
    simp only [List.length_nil] at hk
    omega
  | cons c u ih =>
    rw [List.cons_append, lastOf?] at h
    split at h
    · next i hi =>
      simp only [Option.some.injEq] at h
      subst h
      rw [lastOf?, ih hi (by simp at hk; omega)]
    · next hnone =>
      split at h
      · next hstart =>
        simp only [Option.some.injEq] at h
        subst h
        have := starts_restrict (u := c :: u) (q := q) hstart (by simpa using hk)
        rw [lastOf?, last_missing hnone]
        simp [this]
      · simp at h

end Setup

end Legacy

/-- Every landmark of a text lies in its middle part. -/
structure Core (front t back : Text) : Prop where
  opens : ∀ h, Setup.opening.first? (front ++ (t ++ back)).entire = some h →
    front.length ≤ h.start ∧ h.stop ≤ front.length + t.length
  closes : ∀ h k, Setup.opening.first? (front ++ (t ++ back)).entire = some h →
    Setup.lastOf? Setup.closing ((front ++ (t ++ back)).drop (h.stop + 1)) = some k →
      h.stop + 1 + k + 3 ≤ front.length + t.length
  assets : ∀ s, Setup.find (front ++ (t ++ back)) = .ok s → ∀ h,
    (Assets.assignment s.libraryAlias).first? (front ++ (t ++ back)).entire = some h →
      front.length ≤ h.start ∧ h.stop ≤ front.length + t.length
  stage : ∀ h, Stage.literal.first? (front ++ (t ++ back)).entire = some h →
    front.length ≤ h.start ∧ h.stop ≤ front.length + t.length
  /-- no name reaches into the middle part from the front -/
  edge : ∀ s, Setup.find (front ++ (t ++ back)) = .ok s →
    Pattern.freshName (endOf none front) = true ∨
      (Assets.assignment s.libraryAlias).fits? none t = none

/-- The first fit in a text whose fits do not reach out of its middle part. -/
theorem first_middle {p : Pattern} (hp : p.Closed) {front t back : Text}
    (hin : ∀ h, p.first? (front ++ (t ++ back)).entire = some h →
      front.length ≤ h.start ∧ h.stop ≤ front.length + t.length) :
    p.first? (front ++ (t ++ back)).entire =
      p.firstFrom? (endOf none front) (0 + front.length) t := by
  have hbehind := Pattern.first_behind (p := p) (b := none) (i := 0) (u := front) (v := t ++ back)
    rfl (fun h hh => by simpa using (hin h hh).1)
  cases hx : p.first? (front ++ (t ++ back)).entire with
  | none =>
    have hx' : p.firstFrom? none 0 (front ++ (t ++ back)) = none := hx
    rw [hx'] at hbehind
    exact (Pattern.first_missing hp hbehind).symm
  | some h =>
    have hx' : p.firstFrom? none 0 (front ++ (t ++ back)) = some h := hx
    rw [hx'] at hbehind
    exact (Pattern.first_restrict hp hbehind (by simpa using (hin h hx).2)).symm

theorem first_edge {p : Pattern} {b : Option Char} {t : Text} (hp : p.behind none = true)
    (h : p.behind b = true ∨ p.fits? none t = none) (i : Nat) :
    p.firstFrom? b i t = p.firstFrom? none i t := by
  have hfits : p.fits? b t = p.fits? none t := by
    rcases h with hb | hnone
    · simp [Pattern.fits?, hb, hp]
    · rw [hnone]
      rw [Pattern.fits?, if_pos hp, Option.map_eq_none_iff] at hnone
      simp [Pattern.fits?, hnone]
  cases t with
  | nil => simp [Pattern.firstFrom?, hfits]
  | cons c t => simp [Pattern.firstFrom?, hfits]

section

variable {front t back : Text} (hc : Core front t back)
include hc

theorem opening_core : Setup.opening.first? (front ++ (t ++ back)).entire =
    (Setup.opening.first? t.entire).map (Pattern.shifted front.length) := by
  rw [first_middle opening_closed hc.opens, first_edge rfl (Or.inl rfl), Pattern.first_shift]
  rfl

theorem literal_core : Stage.literal.first? (front ++ (t ++ back)).entire =
    (Stage.literal.first? t.entire).map (Pattern.shifted front.length) := by
  rw [first_middle literal_closed hc.stage, first_edge rfl (Or.inl rfl), Pattern.first_shift]
  rfl

theorem stage_core : Stage.find (front ++ (t ++ back)) = Stage.find t := by
  unfold Stage.find
  rw [literal_core hc]
  cases Stage.literal.first? t.entire <;> rfl

theorem assets_core {s : Setup} (hs : Setup.find (front ++ (t ++ back)) = .ok s) :
    Assets.find s.libraryAlias (front ++ (t ++ back)) = Assets.find s.libraryAlias t := by
  have hfirst : (Assets.assignment s.libraryAlias).first? (front ++ (t ++ back)).entire =
      ((Assets.assignment s.libraryAlias).first? t.entire).map (Pattern.shifted front.length) := by
    rw [first_middle (assignment_closed _) (hc.assets s hs), first_edge rfl (hc.edge s hs),
      Pattern.first_shift]
    rfl
  unfold Assets.find
  rw [hfirst]
  cases (Assets.assignment s.libraryAlias).first? t.entire <;> rfl

theorem setup_core : Setup.find (front ++ (t ++ back)) = Setup.find t := by
  have hopen := opening_core hc
  unfold Setup.find
  cases ht : Setup.opening.first? t.entire with
  | none =>
    rw [ht, Option.map_none] at hopen
    rw [hopen]
  | some h =>
    rw [ht, Option.map_some] at hopen
    rw [hopen]
    have hstop : (Pattern.shifted front.length h).stop = front.length + h.stop := by
      simp only [Pattern.shifted, Hit.stop, Hit.text]
      omega
    have hin := (hc.opens _ hopen).2
    have hlast := fun k => hc.closes _ k hopen
    rw [hstop] at hin
    have hdrop : ∀ n, (front ++ (t ++ back)).drop (front.length + h.stop + n) =
        t.drop (h.stop + n) ++ back.drop (h.stop + n - t.length) := by
      intro n
      rw [Nat.add_assoc, List.drop_append, List.drop_of_length_le (by omega), List.nil_append,
        Nat.add_sub_cancel_left, List.drop_append]
    have hrest : ((front ++ (t ++ back)).drop (Pattern.shifted front.length h).stop) =
        t.drop h.stop ++ back := by
      rw [hstop]
      have := hdrop 0
      simpa [show h.stop - t.length = 0 by omega] using this
    have hrest1 : ((front ++ (t ++ back)).drop (Pattern.shifted front.length h).stop).drop 1 =
        t.drop (h.stop + 1) ++ back.drop (h.stop + 1 - t.length) := by
      rw [List.drop_drop, hstop, hdrop 1]
    have hclose : Setup.lastOf? Setup.closing
        (t.drop (h.stop + 1) ++ back.drop (h.stop + 1 - t.length)) =
          Setup.lastOf? Setup.closing (t.drop (h.stop + 1)) := by
      cases hk : Setup.lastOf? Setup.closing
          (t.drop (h.stop + 1) ++ back.drop (h.stop + 1 - t.length)) with
      | none => exact (Setup.last_missing hk).symm
      | some k =>
        have hlen := hlast k (by rw [hstop, hdrop 1, hk])
        rw [hstop] at hlen
        refine (Setup.last_restrict hk ?_ (by decide)).symm
        simp only [List.length_drop, Setup.closing, List.length_cons, List.length_nil]
        omega
    simp only
    rw [hrest1, hclose, hrest, List.drop_drop]
    cases hk : Setup.lastOf? Setup.closing (t.drop (h.stop + 1)) with
    | none => rfl
    | some k =>
      have hlen := hlast k (by rw [hstop, hdrop 1, hclose, hk])
      rw [hstop] at hlen
      simp only
      rw [List.take_append_of_le_length (by simp only [List.length_drop]; omega)]
      rfl

theorem landmarks_core : landmarks (front ++ (t ++ back)) = landmarks t := by
  unfold landmarks
  cases hs : Setup.find (front ++ (t ++ back)) with
  | error f => rw [← setup_core hc, hs]; rfl
  | ok s =>
    rw [← setup_core hc, hs]
    simp only [Except.map, assets_core hc hs, stage_core hc]

end

/-- The stretch from the opening of the setup function to the end of the statement that calls it. -/
def wrapper? (t : Text) : Option Span :=
  match Setup.opening.first? t.entire with
  | none => none
  | some h => (Setup.lastOf? Setup.closing (t.drop (h.stop + 1))).map fun k =>
    let callAt := h.stop + 1 + k + Setup.closing.length
    ⟨h.start, match Text.find? ");".toList (t.drop callAt) with
      | some j => callAt + j + 2
      | none => t.length⟩

/-- The stretches of a source that a migration has a use for. -/
def claimed (t : Text) : List Span :=
  (wrapper? t).toList ++
    (match Setup.find t with
      | .ok s => ((Assets.assignment s.libraryAlias).first? t.entire).toList.map Hit.span
      | .error _ => []) ++
    (Stage.literal.first? t.entire).toList.map Hit.span

/-- A character of code, no blank, outside these stretches. -/
def Stray (t : Text) (i : Nat) : Prop :=
  (t[i]?.any fun c => !Text.isBlank c) = true ∧ Script.isCode t i = true ∧
    ∀ s ∈ claimed t, i < s.start ∨ s.stop ≤ i

/-- A source that has stray code is refused. -/
def RefusesStray (settings : Settings) (source : String) (mode : Mode) (t : Text) : Prop :=
  ∀ i, Stray t i → ∃ r, (migrate settings source mode t).result = .error r

/-- A text with the landmarks of another, as a text has those of a stretch that holds them all. -/
def SameLandmarks (x t : Text) : Prop :=
  landmarks x = landmarks t ∨ ∃ front back, x = front ++ (t ++ back) ∧ Core front t back

/-- Stray code has no part in the outcome: a source that has some is refused only if every text
with its landmarks is, whatever else stands there. -/
theorem refuses_stray_iff {x t : Text} (hx : SameLandmarks x t) (settings : Settings)
    (source : String) (mode : Mode) :
    (migrate settings source mode x).result = (migrate settings source mode t).result ∧
    (RefusesStray settings source mode x ↔
      (∀ i, ¬ Stray x i) ∨ ∃ r, (migrate settings source mode t).result = .error r) := by
  have hsame : (migrate settings source mode x).result =
      (migrate settings source mode t).result := by
    rw [migrate_outcome, migrate_outcome]
    rcases hx with h | ⟨front, back, rfl, hc⟩
    · rw [h]
    · rw [landmarks_core hc]
  refine ⟨hsame, ?_⟩
  unfold RefusesStray
  rw [hsame]
  constructor
  · intro h
    by_cases hs : ∃ i, Stray x i
    · obtain ⟨i, hi⟩ := hs
      exact Or.inr (h i hi)
    · exact Or.inl fun i hi => hs ⟨i, hi⟩
  · rintro (h | h) i hi
    · exact absurd hi (h i)
    · exact h

/-! Sources without stage and assets whose body neither conversion nor renaming changes. -/

def standard : Settings := ⟨.default, Check.all⟩

def plainLandmarks (s : Setup) : Landmarks :=
  ⟨s, Assets.missing, ⟨Stage.fallbackLines, true, none⟩⟩

/-- The module around a body without stage and assets. -/
def plainModule (body : Text) : Text :=
  emitText .default Assets.missing ⟨Stage.fallbackLines, true, none⟩ .commonjs [] body

/-- The lines of such a module. The kernel takes a string literal apart in quadratic time, so a sample
is rewritten to these lines, and its literals to their characters, before it is evaluated. -/
theorem plain_module_lines (body : Text) : plainModule body = Text.joinWith ['\n']
    (["const data = \x7b".toList, "    stage: null,".toList, "    background: 0x000000,".toList,
      "    width: 0,".toList, "    height: 0,".toList, "    framerate: 24,".toList,
      "    totalFrames: 1,".toList, "    assets: \x7b\x7d,".toList, "    lib: \x7b\x7d,".toList,
      "    shapes: \x7b\x7d,".toList, "    textures: \x7b\x7d,".toList,
      "    spritesheets: [],".toList, "    getTexture: function(id) \x7b".toList,
      "        if (data.textures[id]) \x7b".toList,
      "            return data.textures[id];".toList, "        \x7d".toList,
      "        const atlas = data.spritesheets.find(atlas => !!atlas.textures[id]);".toList,
      "        return atlas ? atlas.textures[id] : null;".toList, "    \x7d,".toList,
      "    setup: function(animate) \x7b".toList, body.trim fun c => c == '\r' || c == '\n',
      "    \x7d".toList, "\x7d;".toList, [], "module.exports = data;".toList]) ++ ['\n'] := by
  unfold plainModule emitText lines dataLines textureAccessor Stage.fallbackLines
  simp only [List.map_cons, List.map_nil]
  repeat rw [String.toList_ofList]
  rfl

/-- The checks of a module without literals that declares no class. -/
theorem checks_bare {out : Text} (h : Script.Bare out ∧
    Script.mismatchFrom [] ((Script.markedFrom 0 out
      (List.replicate out.length true)).filter (·.code)) = none ∧ residueIssues out none = []) :
    runChecks Check.all ⟨out, [], none⟩ = [] := by
  obtain ⟨hbare, hbrackets, hresidue⟩ := h
  have hnone : bracketIssues out = [] := by
    rw [bracketIssues, Script.firstMismatch, Script.marked, Script.code_mask_plain hbare, hbrackets]
    rfl
  simp [runChecks, Check.all, Check.run, hnone, hresidue, classIssues]

/-- A body that no conversion and no renaming changes is put into its module as it is. -/
theorem plain_migrated {t : Text} {s : Setup} (hlandmarks : landmarks t = .ok (plainLandmarks s))
    (hconversion : (convert s.libraryAlias s.body).result.toOption.map
      (fun c => (c.text, c.classNames, c.exports)) = some (s.body, [], []))
    (hrenamed : (Substitution.runAll (Substitution.all ⟨s.namespaceAlias, s.libraryAlias,
      "animate".toList⟩) s.body).2 = s.body)
    (hclean : runChecks Check.all ⟨plainModule s.body, [], none⟩ = []) (source : String) :
    ∃ m, (migrate standard source .commonjs t).result = .ok m ∧
      m.output = plainModule s.body ∧ m.assets = Assets.missing := by
  obtain ⟨m, hm, hout, hassets⟩ := @Landmarks.accepted (plainLandmarks s) standard .commonjs _ _ _ _
    hconversion (congrArg plainModule hrenamed) hclean source
  exact ⟨m, by rw [migrate_outcome, hlandmarks]; exact hm, hout, hassets⟩

/-! A source with a statement in front of the setup function and one behind it. -/

def sampleBody : Text := "\n    run();\n".toList

def sampleSetup : Setup := ⟨"PIXI".toList, "lib".toList, sampleBody⟩

def sampleCore : Text :=
  "(function (PIXI, lib) \x7b".toList ++ sampleBody ++ "\x7d)(PIXI, lib = \x7b\x7d);".toList

def sampleFront : Text := "var kept = 1;\n".toList

def sampleBack : Text := "\nstart();\n".toList

theorem sample_landmarks : Core sampleFront sampleCore sampleBack := by
  have hopen : Setup.opening.first? (sampleFront ++ (sampleCore ++ sampleBack)).entire =
      some ⟨14, ["(function".toList, " ".toList, "(".toList, "PIXI, lib".toList, ")".toList,
        " ".toList, "\x7b".toList]⟩ := by decide +kernel
  have hlast : Setup.lastOf? Setup.closing ((sampleFront ++ (sampleCore ++ sampleBack)).drop 38) =
      some 11 := by decide +kernel
  have hset : Setup.find (sampleFront ++ (sampleCore ++ sampleBack)) =
      .ok sampleSetup := by decide +kernel
  have hassets : (Assets.assignment sampleSetup.libraryAlias).first?
      (sampleFront ++ (sampleCore ++ sampleBack)).entire = none := by decide +kernel
  have hstage : Stage.literal.first? (sampleFront ++ (sampleCore ++ sampleBack)).entire = none := by
    decide +kernel
  constructor
  · intro h hh
    rw [hopen] at hh
    cases hh
    decide +kernel
  · intro h k hh hk
    rw [hopen] at hh
    cases hh
    have hk' : some 11 = some k := hlast.symm.trans hk
    cases hk'
    decide +kernel
  · intro s hs h hh
    rw [hset] at hs
    cases hs
    rw [hassets] at hh
    cases hh
  · intro h hh
    rw [hstage] at hh
    cases hh
  · exact fun _ _ => Or.inl (by decide +kernel)

theorem refuses_stray_sample : SameLandmarks (sampleFront ++ (sampleCore ++ sampleBack)) sampleCore ∧
    (RefusesStray standard "scene.js" .commonjs (sampleFront ++ (sampleCore ++ sampleBack)) ↔
      (∀ i, ¬ Stray (sampleFront ++ (sampleCore ++ sampleBack)) i) ∨
        ∃ r, (migrate standard "scene.js" .commonjs sampleCore).result = .error r) := by
  have hx : SameLandmarks (sampleFront ++ (sampleCore ++ sampleBack)) sampleCore :=
    Or.inr ⟨sampleFront, sampleBack, rfl, sample_landmarks⟩
  exact ⟨hx, (refuses_stray_iff hx standard "scene.js" .commonjs).2⟩

theorem core_landmarks : landmarks sampleCore = .ok (plainLandmarks sampleSetup) := by
  decide +kernel

theorem sample_conversion : (convert "lib".toList sampleBody).result.toOption.map
    (fun c => (c.text, c.classNames, c.exports)) = some (sampleBody, [], []) := by
  decide +kernel

theorem sample_renamed : (Substitution.runAll (Substitution.all ⟨"PIXI".toList, "lib".toList,
    "animate".toList⟩) sampleBody).2 = sampleBody := by
  decide +kernel

theorem sample_migrated (source : String) :
    ∃ m, (migrate standard source .commonjs sampleCore).result = .ok m ∧
      m.output = plainModule sampleBody ∧ m.assets = Assets.missing := by
  refine plain_migrated core_landmarks sample_conversion sample_renamed (checks_bare ?_) source
  rw [Script.Bare, sampleSetup, plain_module_lines]
  repeat rw [String.toList_ofList]
  decide +kernel

/-- The statements around the setup function are dropped without a word. -/
theorem stray_sample_migrated :
    ¬ RefusesStray standard "scene.js" .commonjs (sampleFront ++ (sampleCore ++ sampleBack)) := by
  have hbare : Script.Bare (sampleFront ++ (sampleCore ++ sampleBack)) :=
    ⟨by decide +kernel, by decide +kernel⟩
  have hstray : Stray (sampleFront ++ (sampleCore ++ sampleBack)) 0 := by
    refine ⟨by decide +kernel, ?_, by decide +kernel⟩
    rw [Script.isCode, Script.code_mask_plain hbare]
    decide +kernel
  intro h
  obtain ⟨r, hr⟩ := h 0 hstray
  obtain ⟨m, hm, _⟩ := sample_migrated "scene.js"
  rw [migrate_outcome, landmarks_core sample_landmarks, ← migrate_outcome, hm] at hr
  simp at hr

end Restage
