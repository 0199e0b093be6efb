import Restage.Proofs.QuotedScript
import Restage.Proofs.ReferenceWords

/-!
Where the characters of a renamed body come from. The substitutions run on a text whose characters
know the fit in whose place they were put (`track`). None of them replaces what an earlier one put
in, exactly if the emitted namespace does not end with a name that a later one looks for in front of
a dot (`passes_separate_iff`).
-/

set_option autoImplicit false

namespace Restage.Legacy.Substitution

open Text (endOf)

/-! Characters and their origins. -/

/-- The fit in whose place a character was put, by the title of its substitution and the position
where it began; none for a character of the body. -/
abbrev Origin := Option (String × Nat)

abbrev Tracked := List (Char × Origin)

def plain (t : Text) : Tracked := t.map (·, none)

def textOf (T : Tracked) : Text := T.map Prod.fst

/-- Replaces spans given in ascending order, as `Edit.splice` does. -/
def splice : Nat → Tracked → List (Span × Tracked) → Tracked
  | _, T, [] => T
  | i, T, (s, W) :: es => T.take (s.start - i) ++ W ++ splice s.stop (T.drop (s.stop - i)) es

/-- What a substitution puts in the place of a fit. -/
def block (s : Substitution) (h : Hit) : Tracked :=
  (s.replacement h).map (·, some (s.title, h.start))

def track (s : Substitution) (T : Tracked) : Tracked :=
  splice 0 T ((s.codeHits (textOf T)).map fun h => (h.span, s.block h))

/-- Each of some substitutions with the text that it runs on. -/
def stages : List Substitution → Tracked → List (Substitution × Tracked)
  | [], _ => []
  | s :: ss, T => (s, T) :: stages ss (s.track T)

def outcome : List Substitution → Tracked → Tracked
  | [], T => T
  | s :: ss, T => outcome ss (s.track T)

/-- Every character that is replaced is one of the body, and all that is put in stands in the
outcome. -/
structure Separate (ss : List Substitution) (T : Tracked) : Prop where
  replaced : ∀ p ∈ stages ss T, ∀ h ∈ p.1.codeHits (textOf p.2),
    ∀ x ∈ (p.2.take h.stop).drop h.start, x.2 = none
  stands : ∀ p ∈ stages ss T, ∀ h ∈ p.1.codeHits (textOf p.2), p.1.block h <:+: outcome ss T

section

variable (s : Substitution)

@[simp] theorem text_of_append (T U : Tracked) : textOf (T ++ U) = textOf T ++ textOf U :=
  List.map_append

@[simp] theorem text_of_plain (t : Text) : textOf (plain t) = t := by
  simp [textOf, plain, Function.comp_def]

@[simp] theorem text_of_block (h : Hit) : textOf (s.block h) = s.replacement h := by
  simp [textOf, block, Function.comp_def]

theorem splice_text (i : Nat) (T : Tracked) (es : List (Span × Tracked)) :
    textOf (splice i T es) = Edit.splice i (textOf T) (es.map fun e => ⟨e.1, textOf e.2⟩) := by
  induction es generalizing i T with
  | nil => rfl
  | cons e es ih =>
    rw [splice, text_of_append, text_of_append, ih, List.map_cons, Edit.splice]
    simp [textOf]

theorem track_text (T : Tracked) : textOf (s.track T) = (s.run (textOf T)).1 := by
  rw [track, splice_text, List.map_map, run_hits]
  simp [Function.comp_def]

theorem outcome_text (ss : List Substitution) (T : Tracked) :
    textOf (outcome ss T) = (runAll ss (textOf T)).2 := by
  induction ss generalizing T with
  | nil => rfl
  | cons s ss ih => rw [outcome, ih, track_text, run_all_cons]

end

/-! Along a text. -/

section

variable (s : Substitution) (ms : List Bool)

/-- The fits that are replaced, from a position on. -/
def hitsIn (b : Option Char) (i : Nat) (t : Text) : List Hit :=
  (s.pattern.hitsFrom b i 0 t).filter fun h => ms.getD h.start true

/-- The substitution from a position on. -/
def trackFrom (b : Option Char) (i : Nat) (T : Tracked) : Tracked :=
  splice i T ((s.hitsIn ms b i (textOf T)).map fun h => (h.span, s.block h))

theorem track_from (T : Tracked) :
    s.track T = s.trackFrom (Script.codeMask (textOf T)) none 0 T := rfl

variable {s ms}

theorem hits_in_start {b : Option Char} {i : Nat} {t : Text} {h : Hit}
    (hh : h ∈ s.hitsIn ms b i t) : i ≤ h.start :=
  hits_start (List.mem_filter.1 hh).1

theorem start_le_stop (h : Hit) : h.start ≤ h.stop := Nat.le_add_right _ _

theorem splice_keep {i : Nat} {U T : Tracked} {es : List (Span × Tracked)}
    (h : ∀ e ∈ es, i + U.length ≤ e.1.start ∧ e.1.start ≤ e.1.stop) :
    splice i (U ++ T) es = U ++ splice (i + U.length) T es := by
  cases es with
  | nil => rfl
  | cons e es =>
    have he := h e List.mem_cons_self
    rw [splice, splice, List.take_append, List.drop_append, List.take_of_length_le (by omega),
      List.drop_of_length_le (by omega)]
    simp [Nat.sub_sub]

theorem track_keep {b b' : Option Char} {i : Nat} {U T : Tracked}
    (h : s.hitsIn ms b i (textOf (U ++ T)) = s.hitsIn ms b' (i + U.length) (textOf T)) :
    s.trackFrom ms b i (U ++ T) = U ++ s.trackFrom ms b' (i + U.length) T := by
  rw [trackFrom, h, splice_keep]
  · rfl
  · intro e he
    obtain ⟨x, hx, rfl⟩ := List.mem_map.1 he
    exact ⟨hits_in_start hx, start_le_stop x⟩

theorem track_replace {b b' : Option Char} {i : Nat} {U T : Tracked} {h : Hit}
    (hspan : h.span = ⟨i, i + U.length⟩)
    (hh : s.hitsIn ms b i (textOf (U ++ T)) = h :: s.hitsIn ms b' (i + U.length) (textOf T)) :
    s.trackFrom ms b i (U ++ T) = s.block h ++ s.trackFrom ms b' (i + U.length) T := by
  rw [trackFrom, hh, List.map_cons, hspan, splice]
  simp [trackFrom]

/-- The characters of a fit behind a part of the text. -/
theorem segment_behind {i j k : Nat} {U : Tracked} (hj : i + U.length ≤ j) (hk : j ≤ k)
    (T : Tracked) : ((U ++ T).take (k - i)).drop (j - i) =
      (T.take (k - (i + U.length))).drop (j - (i + U.length)) := by
  rw [List.take_append, List.drop_append, List.take_of_length_le (by omega),
    List.drop_of_length_le (by omega), List.nil_append, Nat.sub_sub, Nat.sub_sub]

end

/-! Strips. -/

/-- A character of the body, or a word that was put in. -/
inductive Strip where
  | kept (c : Char)
  | made (w : Text) (o : String × Nat)

def Strip.chars : Strip → Tracked
  | kept c => [(c, none)]
  | made w o => w.map (·, some o)

/-- The characters of some strips. -/
def charsOf (strips : List Strip) : Tracked := strips.flatMap Strip.chars

/-- Strips behind a character, whose words stand where a name can begin. -/
inductive Layered (p : Text → Prop) : Option Char → List Strip → Prop
  | done (b : Option Char) : Layered p b []
  | kept {b : Option Char} {c : Char} {strips : List Strip} : Layered p (some c) strips →
    Layered p b (.kept c :: strips)
  | made {b : Option Char} {w : Text} {strips : List Strip} (o : String × Nat) : p w →
    Pattern.freshName b = true → Layered p (endOf b w) strips → Layered p b (.made w o :: strips)

section

variable {p : Text → Prop}

theorem length_plain (t : Text) : (plain t).length = t.length := List.length_map _

theorem chars_kept (t : Text) : charsOf (t.map .kept) = plain t := by
  induction t with
  | nil => rfl
  | cons c t ih => exact congrArg _ ih

@[simp] theorem chars_of_kept (t : Text) (strips : List Strip) :
    charsOf (t.map .kept ++ strips) = plain t ++ charsOf strips := by
  induction t with
  | nil => rfl
  | cons c t ih => exact congrArg _ ih

theorem text_of_made (w : Text) (o : String × Nat) : textOf (Strip.made w o).chars = w := by
  simp [textOf, Strip.chars, Function.comp_def]

theorem layered_kept {b : Option Char} {t : Text} {strips : List Strip}
    (h : Layered p (endOf b t) strips) : Layered p b (t.map .kept ++ strips) := by
  induction t generalizing b with
  | nil => exact h
  | cons c t ih => exact .kept (ih h)

/-- Behind a character of a qualified name the rest of it is of the body. -/
theorem layered_chain {b : Option Char} {w v : Text} {strips : List Strip}
    (h : Layered p b strips) (hb : Pattern.freshName b = false) (hw : ∀ c ∈ w, isChain c = true)
    (ht : textOf (charsOf strips) = w ++ v) :
    ∃ rest, strips = w.map .kept ++ rest ∧ Layered p (endOf b w) rest := by
  induction w generalizing b strips with
  | nil => exact ⟨strips, rfl, h⟩
  | cons c w ih =>
    cases h with
    | done => simp [charsOf, textOf] at ht
    | made _ _ hfresh _ =>
      rw [hfresh] at hb
      exact Bool.noConfusion hb
    | kept h =>
      obtain ⟨rfl, hbehind⟩ := List.cons.inj ht
      obtain ⟨rest, rfl, hrest⟩ := ih h (chain_not_fresh (hw _ List.mem_cons_self))
        (fun d hd => hw d (List.mem_cons_of_mem _ hd)) hbehind
      exact ⟨rest, rfl, hrest⟩

end

/-- A substitution that finds no fit in the words that were put in before. -/
structure Passing (s : Substitution) (p q : Text → Prop) : Prop where
  tame : s.Tame
  keeps : ∀ {w}, p w → q w
  given : ∀ {b t parts} (i : Nat), s.pattern.fits? b t = some parts → q (s.replacement ⟨i, parts⟩)
  silent : ∀ {w}, p w → ∀ {b}, Pattern.freshName b = true → ∀ t, s.pattern.Silent b w t

/-- What such a substitution makes of some strips. -/
structure Advanced (s : Substitution) (ms : List Bool) (b : Option Char) (i : Nat)
    (strips strips' : List Strip) : Prop where
  chars : s.trackFrom ms b i (charsOf strips) = charsOf strips'
  kept : ∀ w o, Strip.made w o ∈ strips → Strip.made w o ∈ strips'
  hits : ∀ h ∈ s.hitsIn ms b i (textOf (charsOf strips)),
    Strip.made (s.replacement h) (s.title, h.start) ∈ strips' ∧
      ∀ x ∈ ((charsOf strips).take (h.stop - i)).drop (h.start - i), x.2 = none

/-- A substitution makes strips of some strips, whose words stand where a name can begin. The
character in front is `b`, and `b'` behind the substitution. -/
def Layers (s : Substitution) (q : Text → Prop) (ms : List Bool) (b b' : Option Char) (i : Nat)
    (strips : List Strip) : Prop :=
  ∃ strips', Layered q b' strips' ∧ s.Advanced ms b i strips strips'

section

variable {s : Substitution} {ms : List Bool} {b : Option Char} {i : Nat}

theorem advanced_keep {b' : Option Char} (front : List Strip) {strips strips' : List Strip}
    (h : s.Advanced ms b' (i + (charsOf front).length) strips strips')
    (hhits : s.hitsIn ms b i (textOf (charsOf front ++ charsOf strips)) =
      s.hitsIn ms b' (i + (charsOf front).length) (textOf (charsOf strips))) :
    s.Advanced ms b i (front ++ strips) (front ++ strips') := by
  have hfront : charsOf (front ++ strips) = charsOf front ++ charsOf strips := List.flatMap_append
  refine ⟨?_, fun w o hmem => ?_, fun x hx => ?_⟩
  · rw [hfront, track_keep hhits, h.chars]
    exact List.flatMap_append.symm
  · rcases List.mem_append.1 hmem with hmem | hmem
    · exact List.mem_append_left _ hmem
    · exact List.mem_append_right _ (h.kept w o hmem)
  · rw [hfront] at hx ⊢
    rw [hhits] at hx
    obtain ⟨hmade, hnone⟩ := h.hits x hx
    refine ⟨List.mem_append_right _ hmade, ?_⟩
    rw [segment_behind (hits_in_start hx) (start_le_stop x)]
    exact hnone

theorem advanced_replace {b' : Option Char} {h : Hit} {u : Text} {strips strips' : List Strip}
    (hrest : s.Advanced ms b' (i + u.length) strips strips') (hspan : h.span = ⟨i, i + u.length⟩)
    (hhits : s.hitsIn ms b i (u ++ textOf (charsOf strips)) =
      h :: s.hitsIn ms b' (i + u.length) (textOf (charsOf strips))) :
    s.Advanced ms b i (u.map .kept ++ strips)
      (.made (s.replacement h) (s.title, h.start) :: strips') := by
  have hlen := length_plain u
  refine ⟨?_, fun w o hmem => ?_, fun x hx => ?_⟩
  · rw [chars_of_kept, track_replace (by rw [hlen]; exact hspan)
      (by rw [text_of_append, text_of_plain, hlen]; exact hhits), hlen, hrest.chars]
    rfl
  · refine List.mem_cons_of_mem _ (hrest.kept w o ?_)
    simpa using hmem
  · rw [chars_of_kept, text_of_append, text_of_plain, hhits] at hx
    rw [chars_of_kept]
    rcases List.mem_cons.1 hx with rfl | hx
    · refine ⟨List.mem_cons_self, fun y hy => ?_⟩
      have hstart : x.start = i := congrArg Span.start hspan
      have hstop : x.stop = i + u.length := congrArg Span.stop hspan
      rw [hstart, hstop, Nat.sub_self, List.drop_zero, Nat.add_sub_cancel_left, ← hlen,
        List.take_left] at hy
      obtain ⟨c, _, rfl⟩ := List.mem_map.1 hy
      rfl
    · obtain ⟨hmade, hnone⟩ := hrest.hits x hx
      refine ⟨List.mem_cons_of_mem _ hmade, ?_⟩
      rw [segment_behind (by rw [hlen]; exact hits_in_start hx) (start_le_stop x), hlen]
      exact hnone

end

section

variable {s : Substitution} {p q : Text → Prop} (hs : s.Passing p q) {ms : List Bool}
include hs

theorem hits_in_end (b : Option Char) (i : Nat) : s.hitsIn ms b i [] = [] := by
  have hfit : s.pattern.fits? b [] = none := by
    cases hfit : s.pattern.fits? b [] with
    | none => rfl
    | some parts =>
      obtain ⟨v, hv⟩ := fits_flatten hfit
      exact absurd (List.append_eq_nil_iff.1 hv.symm).1 (hs.tame.taken hfit).1
  rw [hitsIn, Pattern.hitsFrom, hfit]
  rfl

/-- A fit takes characters of the body. -/
theorem layered_fit {b : Option Char} {c : Char} {strips : List Strip} {parts : List Text}
    (h : Layered p (some c) strips)
    (hfit : s.pattern.fits? b (c :: textOf (charsOf strips)) = some parts) :
    ∃ rest, Strip.kept c :: strips = parts.flatten.map .kept ++ rest ∧
      Layered p (endOf b parts.flatten) rest ∧ rest.length ≤ strips.length := by
  obtain ⟨hne, hall⟩ := hs.tame.taken hfit
  obtain ⟨v, hv⟩ := fits_flatten hfit
  obtain ⟨d, w, hw⟩ := List.exists_cons_of_ne_nil hne
  rw [hw] at hv hall ⊢
  obtain ⟨rfl, hbehind⟩ := List.cons.inj hv
  obtain ⟨rest, rfl, hrest⟩ := layered_chain h (chain_not_fresh (hall _ List.mem_cons_self))
    (fun d hd => hall d (List.mem_cons_of_mem _ hd)) hbehind
  exact ⟨rest, rfl, hrest, by simp⟩

theorem layers_done (b b' : Option Char) (i : Nat) : s.Layers q ms b b' i [] := by
  have hnil : textOf (charsOf []) = [] := rfl
  refine ⟨[], .done _, ?_, by simp, ?_⟩
  · rw [trackFrom, hnil, hits_in_end hs]
    rfl
  · rw [hnil, hits_in_end hs]
    simp

/-- A word that was put in before stays as it is. -/
theorem layers_made {b : Option Char} {w : Text} {o : String × Nat} {strips : List Strip} {i : Nat}
    (hw : p w) (hfresh : Pattern.freshName b = true)
    (h : s.Layers q ms (endOf b w) (endOf b w) (i + w.length) strips) :
    s.Layers q ms b b i (.made w o :: strips) := by
  obtain ⟨strips', hlayered, hadvanced⟩ := h
  have hchars : charsOf [Strip.made w o] = (Strip.made w o).chars := List.flatMap_singleton _ _
  have hlen : (charsOf [Strip.made w o]).length = w.length := by
    rw [hchars]
    exact List.length_map _
  refine ⟨.made w o :: strips', .made o (hs.keeps hw) hfresh hlayered,
    advanced_keep [.made w o] (by rwa [hlen]) ?_⟩
  rw [text_of_append, hchars, text_of_made, ← hchars, hlen, hitsIn,
    Pattern.hits_silent (hs.silent hw hfresh _)]
  rfl

omit hs in
/-- A character at which there is no fit stays as it is. -/
theorem layers_kept {b b' : Option Char} {c : Char} {strips : List Strip} {i : Nat}
    (hfit : s.pattern.fits? b (c :: textOf (charsOf strips)) = none)
    (h : s.Layers q ms (some c) (some c) (i + 1) strips) :
    s.Layers q ms b b' i (.kept c :: strips) := by
  obtain ⟨strips', hlayered, hadvanced⟩ := h
  refine ⟨.kept c :: strips', .kept hlayered, advanced_keep [.kept c] hadvanced ?_⟩
  have hsilent : s.pattern.Silent b [c] (textOf (charsOf strips)) :=
    Pattern.silent_cons.2 ⟨hfit, Pattern.silent_nil _ _⟩
  have hhits := Pattern.hits_silent hsilent i
  exact congrArg (List.filter fun h => ms.getD h.start true) hhits

/-- The characters of a fit are replaced in code and stay outside of it. No name begins behind
them, so what is put in for them may end in any character. -/
theorem layers_fit {b : Option Char} {parts : List Text} {strips : List Strip} {i : Nat}
    (hfit : s.pattern.fits? b (parts.flatten ++ textOf (charsOf strips)) = some parts)
    (h : ∀ b', s.Layers q ms (endOf b parts.flatten) b' (i + parts.flatten.length) strips) :
    s.Layers q ms b b i (parts.flatten.map .kept ++ strips) := by
  have hhits := Pattern.hits_fit (hs.tame.taken hfit).1 hfit rfl i
  cases hcode : ms.getD i true with
  | true =>
    obtain ⟨strips', hlayered, hadvanced⟩ := h (endOf b (s.replacement ⟨i, parts⟩))
    refine ⟨_, .made (s.title, i) (hs.given i hfit) (hs.tame.fresh hfit) hlayered,
      advanced_replace (h := ⟨i, parts⟩) hadvanced rfl ?_⟩
    rw [hitsIn, hhits, List.filter_cons_of_pos (by simpa using hcode)]
    rfl
  | false =>
    obtain ⟨strips', hlayered, hadvanced⟩ := h (endOf b parts.flatten)
    refine ⟨_, layered_kept hlayered, advanced_keep (parts.flatten.map .kept)
      (by rwa [chars_kept, length_plain]) ?_⟩
    rw [chars_kept, text_of_append, text_of_plain, length_plain, hitsIn, hhits,
      List.filter_cons_of_neg (by rw [hcode]; exact Bool.false_ne_true)]
    rfl

/-- Over some strips, a substitution replaces characters of the body only. The character in front
may be another one behind the substitution, if no name can begin there. -/
theorem passing_step {b b' : Option Char} {strips : List Strip} (h : Layered p b strips)
    (hb : Pattern.freshName b = true → b' = b) (i : Nat) : s.Layers q ms b b' i strips := by
  induction hn : strips.length using Nat.strongRecOn generalizing b b' strips i with
  | ind n ih =>
    subst hn
    cases h with
    | done => exact layers_done hs b b' i
    | made o hw hfresh h =>
      obtain rfl := hb hfresh
      exact layers_made hs hw hfresh (ih _ (by simp) h (fun _ => rfl) _ rfl)
    | @kept _ c strips h =>
      cases hfit : s.pattern.fits? b (c :: textOf (charsOf strips)) with
      | none => exact layers_kept hfit (ih _ (by simp) h (fun _ => rfl) _ rfl)
      | some parts =>
        obtain rfl := hb (hs.tame.fresh hfit)
        obtain ⟨hne, hall⟩ := hs.tame.taken hfit
        obtain ⟨rest, hstrips, hrest, hlength⟩ := layered_fit hs h hfit
        have htext : c :: textOf (charsOf strips) = parts.flatten ++ textOf (charsOf rest) := by
          have hchars := congrArg (fun x => textOf (charsOf x)) hstrips
          simp only [chars_of_kept, text_of_append, text_of_plain] at hchars
          exact hchars
        rw [htext] at hfit
        rw [hstrips]
        refine layers_fit hs hfit fun b'' => ih rest.length (by simp; omega) hrest ?_ _ rfl
        intro hfresh
        rw [chain_end (b := b') hne hall] at hfresh
        exact Bool.noConfusion hfresh

end

/-- Substitutions of which each finds no fit in the words that those before it put in. -/
inductive Chained : (Text → Prop) → List Substitution → Prop
  | done (p : Text → Prop) : Chained p []
  | step {p q : Text → Prop} {s : Substitution} {ss : List Substitution} : s.Passing p q →
    Chained q ss → Chained p (s :: ss)

theorem chained_separate {p : Text → Prop} {ss : List Substitution} (hss : Chained p ss)
    {strips : List Strip} (h : Layered p none strips) : Separate ss (charsOf strips) ∧
      ∃ strips', outcome ss (charsOf strips) = charsOf strips' ∧
        ∀ w o, Strip.made w o ∈ strips → Strip.made w o ∈ strips' := by
  induction hss generalizing strips with
  | done => exact ⟨⟨by simp [stages], by simp [stages]⟩, strips, rfl, fun _ _ h => h⟩
  | @step p q s ss hs _ ih =>
    obtain ⟨between, hlayered, hadvanced⟩ : s.Layers q
        (Script.codeMask (textOf (charsOf strips))) none none 0 strips :=
      passing_step hs h (fun _ => rfl) 0
    have htrack : s.track (charsOf strips) = charsOf between := by
      rw [track_from]
      exact hadvanced.chars
    obtain ⟨hrest, strips', houtcome, hmade⟩ := ih hlayered
    refine ⟨⟨fun x hx y hy => ?_, fun x hx y hy => ?_⟩, strips', by rw [outcome, htrack, houtcome],
      fun w o hmem => hmade w o (hadvanced.kept w o hmem)⟩
    · rcases List.mem_cons.1 hx with rfl | hx
      · exact (hadvanced.hits y hy).2
      · rw [htrack] at hx
        exact hrest.replaced x hx y hy
    · rw [outcome, htrack]
      rcases List.mem_cons.1 hx with rfl | hx
      · rw [houtcome]
        exact List.infix_of_mem_flatten (List.mem_map_of_mem (hmade _ _ (hadvanced.hits y hy).1))
      · rw [htrack] at hx
        exact hrest.stands x hx y hy

/-! Substitutions that drop what fits. -/

theorem splice_mem {i : Nat} {T : Tracked} {es : List (Span × Tracked)} {x : Char × Origin}
    (h : x ∈ splice i T es) : x ∈ T ∨ ∃ e ∈ es, x ∈ e.2 := by
  induction es generalizing i T with
  | nil => exact Or.inl h
  | cons e es ih =>
    rw [splice, List.mem_append, List.mem_append] at h
    rcases h with (h | h) | h
    · exact Or.inl (List.mem_of_mem_take h)
    · exact Or.inr ⟨e, List.mem_cons_self, h⟩
    · rcases ih h with h | ⟨d, hd, h⟩
      · exact Or.inl (List.mem_of_mem_drop h)
      · exact Or.inr ⟨d, List.mem_cons_of_mem e hd, h⟩

theorem plain_origin {t : Text} {x : Char × Origin} (h : x ∈ plain t) : x.2 = none := by
  obtain ⟨c, _, rfl⟩ := List.mem_map.1 h
  rfl

theorem plain_of {T : Tracked} (h : ∀ x ∈ T, x.2 = none) : T = plain (textOf T) := by
  induction T with
  | nil => rfl
  | cons x T ih =>
    have hx : x = (x.1, none) := Prod.ext rfl (h x List.mem_cons_self)
    have hrest := ih fun y hy => h y (List.mem_cons_of_mem x hy)
    calc x :: T = (x.1, none) :: plain (textOf T) := by rw [← hx, ← hrest]
      _ = plain (textOf (x :: T)) := rfl

section

variable {s : Substitution} (hs : ∀ h, s.replacement h = [])
include hs

theorem block_gone (h : Hit) : s.block h = [] := by
  rw [block, hs]
  rfl

theorem track_gone (t : Text) : s.track (plain t) = plain (s.run t).1 := by
  have hplain : ∀ x ∈ s.track (plain t), x.2 = none := by
    intro x hx
    rcases splice_mem hx with hx | ⟨e, he, hx⟩
    · exact plain_origin hx
    · obtain ⟨h, _, rfl⟩ := List.mem_map.1 he
      rw [block_gone hs] at hx
      simp at hx
  rw [plain_of hplain, track_text, text_of_plain]

end

theorem gone_separate {ss rs : List Substitution} (hss : ∀ s ∈ ss, ∀ h, s.replacement h = [])
    {t : Text} : Separate (ss ++ rs) (plain t) ↔ Separate rs (plain (runAll ss t).2) := by
  induction ss generalizing t with
  | nil => rfl
  | cons s ss ih =>
    have hgone := hss s List.mem_cons_self
    have hrest := ih (fun x hx => hss x (List.mem_cons_of_mem s hx)) (t := (s.run t).1)
    rw [run_all_cons, ← hrest]
    constructor
    · intro h
      have hreplaced := h.replaced
      have hstands := h.stands
      rw [List.cons_append, stages, track_gone hgone] at hreplaced
      rw [List.cons_append, stages, outcome, track_gone hgone] at hstands
      exact ⟨fun x hx => hreplaced x (List.mem_cons_of_mem _ hx),
        fun x hx => hstands x (List.mem_cons_of_mem _ hx)⟩
    · intro h
      refine ⟨fun x hx y hy z hz => ?_, fun x hx y hy => ?_⟩
      · rw [List.cons_append, stages, track_gone hgone] at hx
        rcases List.mem_cons.1 hx with rfl | hx
        · exact plain_origin (List.mem_of_mem_take (List.mem_of_mem_drop hz))
        · exact h.replaced x hx y hy z hz
      · rw [List.cons_append, stages, track_gone hgone] at hx
        rw [List.cons_append, outcome, track_gone hgone]
        rcases List.mem_cons.1 hx with rfl | hx
        · rw [block_gone hgone]
          exact List.nil_infix
        · exact h.stands x hx y hy

/-! Words that are put in. -/

/-- Words that begin with one of some texts and a dot. -/
def DottedOf (xs : List Text) (w : Text) : Prop :=
  ∃ x ∈ xs, ∃ y : Text, (∀ c ∈ y, Text.isNamePart c = true) ∧ w = x ++ '.' :: y

theorem dotted_passing {s : Substitution} {m : Text} {sep : Char → Bool} {xs : List Text}
    {q : Text → Prop} (htame : s.Tame) (hs : s.Opens m sep)
    (hxs : ∀ x ∈ xs, (∀ c ∈ x, Text.isIdentifierPart c = true) ∧
      (Text.lastName x ≠ m ∨ sep '.' = false)) (hq : ∀ {w}, DottedOf xs w → q w)
    (hgiven : ∀ {b t parts} (i : Nat), s.pattern.fits? b t = some parts →
      q (s.replacement ⟨i, parts⟩)) : s.Passing (DottedOf xs) q := by
  refine ⟨htame, hq, hgiven, ?_⟩
  rintro w ⟨x, hx, y, hy, rfl⟩ b _ t
  exact dotted_silent hs (hxs x hx).1 (name_chain hy) (hxs x hx).2 t

section

variable {n : Names} (hn : Text.isName n.namespaceAlias = true)
  (hl : Text.isName n.libraryAlias = true) (he : Text.isIdentifier n.emitted = true)
include hn hl he

/-- No substitution that renames finds a fit in what those before it put in, if the namespace does
not end with a name that one of them looks for. -/
theorem links_chained
    (h : Text.lastName n.emitted ∉ [n.namespaceAlias, n.libraryAlias, "shapes".toList]) :
    Chained (DottedOf []) (links n) := by
  simp only [List.mem_cons, List.not_mem_nil, or_false, not_or] at h
  obtain ⟨hspace, hlibrary, hshapes⟩ := h
  have hemitted := Text.identifier_parts he
  have hdata : ∀ c ∈ "data".toList, Text.isIdentifierPart c = true := by decide
  have hlast : Text.lastName "data".toList = "data".toList := by decide
  have hone : ∀ {w : Text}, DottedOf [n.emitted] w → DottedOf [n.emitted, "data".toList] w := by
    rintro w ⟨x, hx, y, hy, rfl⟩
    exact ⟨x, by simp [List.mem_singleton.1 hx], y, hy, rfl⟩
  have hmember : ∀ {y : Text}, (∀ c ∈ y, Text.isNamePart c = true) →
      DottedOf [n.emitted, "data".toList] ("data".toList ++ '.' :: y) :=
    fun hy => ⟨_, by simp, _, hy, rfl⟩
  refine .step (q := DottedOf [n.emitted]) ?members (.step (q := DottedOf [n.emitted]) ?primitives
    (.step (q := DottedOf [n.emitted, "data".toList]) ?library
    (.step (q := DottedOf [n.emitted, "data".toList]) ?shapes
    (.step (q := DottedOf [n.emitted, "data".toList]) ?lookup
    (.step (q := fun _ => True) ?declarations (.done _))))))
  case members =>
    refine dotted_passing (members_tame hn he) (members_opens hn) (by simp) ?_ fun i _ => ?_
    · rintro w ⟨x, hx, _⟩
      simp at hx
    · exact ⟨_, List.mem_singleton_self _, [], by simp, rfl⟩
  case primitives =>
    refine dotted_passing (primitives_tame hn he) (primitives_opens hn) ?_ id fun i hfit => ?_
    · exact List.forall_mem_singleton.2 ⟨hemitted, Or.inl hspace⟩
    · obtain ⟨_, _, w, hw, rfl⟩ := primitives_fits hfit
      exact ⟨_, List.mem_singleton_self _, w, (primitive_word hw).1, primitives_given w i⟩
  case library =>
    refine dotted_passing (library_tame hl) (library_opens hl) ?_ hone fun i _ => ?_
    · exact List.forall_mem_singleton.2 ⟨hemitted, Or.inl hlibrary⟩
    · exact hmember (y := "lib".toList) (by decide)
  case shapes =>
    refine dotted_passing shapes_tame shapes_opens ?_ id fun i _ => ?_
    · refine List.forall_mem_cons.2 ⟨⟨hemitted, Or.inl hshapes⟩, List.forall_mem_singleton.2
        ⟨hdata, Or.inl (by rw [hlast]; decide)⟩⟩
    · exact hmember (y := "shapes".toList) (by decide)
  case lookup =>
    refine dotted_passing lookup_tame lookup_opens ?_ id fun i _ => ?_
    · exact List.forall_mem_cons.2 ⟨⟨hemitted, Or.inr (by decide)⟩, List.forall_mem_singleton.2
        ⟨hdata, Or.inr (by decide)⟩⟩
    · exact hmember (y := "getTexture".toList) (by decide)
  case declarations =>
    refine dotted_passing declarations_tame declarations_opens ?_ (fun _ => trivial)
      fun _ _ => trivial
    exact List.forall_mem_cons.2 ⟨⟨hemitted, Or.inr (by decide)⟩, List.forall_mem_singleton.2
      ⟨hdata, Or.inr (by decide)⟩⟩

theorem separate_of
    (h : Text.lastName n.emitted ∉ [n.namespaceAlias, n.libraryAlias, "shapes".toList]) (t : Text) :
    Separate (all n) (plain t) := by
  have hgone : ∀ s ∈ drops n, ∀ h, s.replacement h = [] :=
    List.forall_mem_cons.2 ⟨fun _ => rfl, List.forall_mem_singleton.2 fun _ => rfl⟩
  rw [all_parts, gone_separate hgone, ← chars_kept]
  refine (chained_separate (links_chained hn hl he h) ?_).1
  have hlayered := layered_kept (b := none) (t := (runAll (drops n) t).2)
    (.done (p := DottedOf []) _)
  rwa [List.append_nil] at hlayered

end

/-! A body in which the substitutions meet. -/

theorem plain_code {t : Text} (ht : ∀ c ∈ t, isPlainMark c = true) (i : Nat) :
    Script.isCode t i = true := by
  have hharmless : ∀ c ∈ t, Script.opensLiteral c = false ∧ c ≠ '>' :=
    fun c hc => harmless_of (by decide) (ht c hc)
  exact Script.is_code_plain ⟨fun c hc => (hharmless c hc).1,
    fun h => (hharmless '>' (h.subset (by decide))).2 rfl⟩ i

/-- A fit behind a stretch without fits is replaced. -/
theorem code_hit {s : Substitution} {u v : Text} {parts : List Text}
    (hsilent : s.pattern.Silent none u v) (hne : parts.flatten ≠ [])
    (hfit : s.pattern.fits? (endOf none u) v = some parts)
    (hcode : Script.isCode (u ++ v) u.length = true) : ⟨u.length, parts⟩ ∈ s.codeHits (u ++ v) := by
  obtain ⟨w, hw⟩ := fits_flatten hfit
  have hhits := Pattern.hits_silent hsilent 0
  rw [hw, Pattern.hits_fit hne (by rwa [← hw]) rfl, ← hw, Nat.zero_add] at hhits
  refine List.mem_filter.2 ⟨?_, hcode⟩
  rw [Pattern.hits, Text.entire]
  simp only
  rw [hhits]
  exact List.mem_cons_self

section

variable {s : Substitution} {m x y : Text} {sep : Char → Bool} (hs : s.Opens m sep)
  (o : String × Nat)
include hs

/-- A word that was put in, with a member of the body behind it. -/
def metWord (x y : Text) (o : String × Nat) : Tracked :=
  (Strip.made (x ++ ['.']) o).chars ++ plain y

omit hs in
theorem met_word_text (x y : Text) (o : String × Nat) : textOf (metWord x y o) = x ++ '.' :: y := by
  rw [metWord, text_of_append, text_of_made, text_of_plain, List.append_assoc]
  rfl

omit hs in
theorem met_word_made {i : Nat} (hi : i < (x ++ ['.']).length) :
    ∃ c, (metWord x y o)[i]? = some (c, some o) := by
  have hlen : i < (Strip.made (x ++ ['.']) o).chars.length := by
    rwa [Strip.chars, List.length_map]
  refine ⟨(x ++ ['.'])[i], ?_⟩
  rw [metWord, List.getElem?_append_left hlen, Strip.chars, List.getElem?_map,
    List.getElem?_eq_getElem hi, Option.map_some]

/-- A substitution that replaces only characters of the body finds nothing there. -/
theorem met_word_left (htame : s.Tame) (hy : ∀ c ∈ y, Text.isNamePart c = true)
    (hreplaced : ∀ h ∈ s.codeHits (textOf (metWord x y o)),
      ∀ z ∈ ((metWord x y o).take h.stop).drop h.start, z.2 = none) :
    s.codeHits (textOf (metWord x y o)) = [] := by
  rw [List.eq_nil_iff_forall_not_mem]
  intro h hh
  obtain ⟨u, v, hcut, hstart, hfit⟩ := Pattern.hit_cut (List.mem_filter.1 hh).1
  simp only [Text.entire, Nat.zero_add] at hcut hstart hfit
  have hne := (htame.taken hfit).1
  have hstop : h.start < h.stop := by
    have hpos := List.length_pos_iff.2 hne
    rw [Hit.stop, Hit.text]
    omega
  by_cases hi : h.start < (x ++ ['.']).length
  · obtain ⟨c, hc⟩ := met_word_made (y := y) o hi
    have hmem : (c, some o) ∈ ((metWord x y o).take h.stop).drop h.start := by
      refine List.mem_of_getElem? (i := 0) ?_
      rw [List.getElem?_drop, Nat.add_zero, List.getElem?_take_of_lt hstop, hc]
    have hnone := hreplaced h hh _ hmem
    simp at hnone
  · -- behind the dot no name can begin
    rw [met_word_text] at hcut
    have hprefix : ∃ k, u = (x ++ ['.']) ++ k ∧ y = k ++ v := by
      have hcut' : (x ++ ['.']) ++ y = u ++ v := by simpa using hcut
      rcases List.append_eq_append_iff.1 hcut' with ⟨k, hk, hv⟩ | ⟨k, hk, hv⟩
      · exact ⟨k, hk, hv⟩
      · have hlen := congrArg List.length hk
        have hsum : (u ++ k).length = h.start + k.length := by rw [List.length_append, hstart]
        obtain rfl := List.length_eq_zero_iff.1 (by omega : k.length = 0)
        exact ⟨[], by simpa using hk.symm, by simpa using hv.symm⟩
    obtain ⟨k, rfl, rfl⟩ := hprefix
    have hchain : ∀ c ∈ '.' :: k, isChain c = true := by
      intro c hc
      rcases List.mem_cons.1 hc with rfl | hc
      · decide
      · exact name_chain hy c (List.mem_append_left _ hc)
    have hbound : Pattern.freshName (endOf none ((x ++ ['.']) ++ k)) = false := by
      rw [List.append_assoc, Text.endOf_append]
      exact chain_end (by simp) hchain
    rw [opens_bound hs hbound] at hfit
    simp at hfit

/-- A word that ends with the name is found. -/
theorem met_word_hit (htame : s.Tame) (hx : ∀ c ∈ x, Text.isIdentifierPart c = true)
    (hy : ∀ c ∈ y, Text.isNamePart c = true) (hlast : Text.lastName x = m)
    (hfit : ∀ {b}, Pattern.freshName b = true → s.pattern.fits? b (m ++ '.' :: y) ≠ none) :
    s.codeHits (textOf (metWord x y o)) ≠ [] := by
  have hdot : Text.isNamePart '.' = false := by decide
  obtain ⟨a, ha, hend⟩ := Text.last_name_split x
  rw [hlast] at ha
  have hall : ∀ c ∈ a, Text.isIdentifierPart c = true := fun c hc =>
    hx c (by rw [ha]; exact List.mem_append_left _ hc)
  have hfresh : Pattern.freshName (endOf none a) = true := by
    rw [Text.endOf_last]
    cases hc : a.getLast? with
    | none => rfl
    | some c =>
      have hpart : Text.isNamePart c = false := by simpa [hc] using hend
      have hne : c ≠ '.' := by
        rintro rfl
        exact absurd (hall '.' (List.mem_of_getLast? hc)) (by decide)
      simp [Pattern.freshName, hpart, hne]
  obtain ⟨parts, hparts⟩ := Option.ne_none_iff_exists'.1 (hfit hfresh)
  have hsilent : s.pattern.Silent none a (m ++ '.' :: y) := by
    intro u v hcut hv
    by_contra hnone
    rw [← List.append_assoc] at hnone
    have hname : ∀ c ∈ v ++ m, Script.isNameChar c = true := by
      intro c hc
      rcases List.mem_append.1 hc with hc | hc
      · exact Text.identifier_name_char (hall c (by rw [hcut]; exact List.mem_append_right _ hc))
      · exact Text.part_name_char (hs.name c hc)
    have hself := (opens_cut hs hname hdot hnone).1
    exact hv (List.append_left_eq_self.1 hself)
  have htext : textOf (metWord x y o) = a ++ (m ++ '.' :: y) := by
    rw [met_word_text, ha, List.append_assoc]
  have hplain : ∀ c ∈ a ++ (m ++ '.' :: y), isPlainMark c = true := by
    intro c hc
    rw [← List.append_assoc, ← ha] at hc
    rcases List.mem_append.1 hc with hc | hc
    · simp [isPlainMark, hx c hc]
    · rcases List.mem_cons.1 hc with rfl | hc
      · decide
      · exact chain_plain (name_chain hy c hc)
  rw [htext]
  exact List.ne_nil_of_mem (code_hit hsilent (htame.taken hparts).1 hparts (plain_code hplain _))

end

section

variable {n : Names} (hn : Text.isName n.namespaceAlias = true)
  (hl : Text.isName n.libraryAlias = true) (he : Text.isIdentifier n.emitted = true)

/-- A body in which each of the substitutions finds the namespace behind the first one. -/
def memberBody (n : Names) : Text := n.namespaceAlias ++ ".animate.Sprite".toList

/-- The body behind the first of them. -/
def memberMet (n : Names) : Tracked :=
  metWord n.emitted "Sprite".toList ((namespaceMembers n).title, 0)

include hn in
theorem member_body_marks : ∀ c ∈ memberBody n, isChain c = true := by
  intro c hc
  rcases List.mem_append.1 hc with hc | hc
  · exact name_chain (Text.name_parts hn) c hc
  · exact (by decide : ∀ c ∈ ".animate.Sprite".toList, isChain c = true) c hc

include hn in
/-- Nothing is dropped from it. -/
theorem member_body_drops : (runAll (drops n) (memberBody n)).2 = memberBody n := by
  have hequals : ¬ ['='] <:+: memberBody n := fun h =>
    absurd (member_body_marks hn '=' (h.subset (by simp))) (by decide)
  have hnone : ∀ {s : Substitution} {name : String} {value : Text},
      s.pattern = bindingLine name value → (s.run (memberBody n)).1 = memberBody n := by
    intro s name value hp
    have hpieces : s.pattern.pieces = [.gap, .lit "var", .gaps, .lit name, .gap] ++
        .word ['='] :: [.gap, .word (value ++ [';']), .gap, .maybe ['\r'], .maybe ['\n']] := by
      rw [hp]
      rfl
    have hhits : s.codeHits (memberBody n) = [] := by
      rw [codeHits, Pattern.hits, Text.entire, Pattern.hits_absent hpieces hequals]
      rfl
    rw [run_nothing hhits]
  rw [drops, run_all_cons, hnone rfl, run_all_cons, hnone rfl]
  rfl

include hn he in
theorem member_body_met : (namespaceMembers n).track (plain (memberBody n)) = memberMet n := by
  have htame := members_tame hn he
  have hchain := members_chain hn
  have hsprite : ∀ c ∈ "Sprite".toList, isChain c = true := by decide
  let w := n.namespaceAlias ++ ".animate.".toList
  have hbody : memberBody n = w ++ "Sprite".toList := by simp [memberBody, w]
  have hne : w ≠ [] := by simp [w]
  have hfit : (namespaceMembers n).pattern.fits? none (w ++ "Sprite".toList) = some [w, []] :=
    (swaps_fits members_swaps).2 ⟨rfl, rfl, _, rfl, by decide⟩
  have hrest :
      (namespaceMembers n).pattern.hitsFrom (endOf none w) w.length 0 "Sprite".toList = [] := by
    have hsilent := tame_bound htame (chain_end (b := none) hne hchain) hsprite []
    have hhits := Pattern.hits_silent hsilent w.length
    rw [List.append_nil] at hhits
    rw [hhits, Pattern.hitsFrom, fits_nothing (exchange_cuts (members_exchange hn he))]
  have hhits := Pattern.hits_fit hne hfit (by simp) 0
  rw [Nat.zero_add, hrest, ← hbody] at hhits
  have hcode := plain_code (fun c hc => chain_plain (member_body_marks hn c hc)) 0
  have hin : (namespaceMembers n).hitsIn (Script.codeMask (memberBody n)) none 0 (memberBody n) =
      [⟨0, [w, []]⟩] := by
    rw [hitsIn, hhits, List.filter_cons_of_pos (by simpa [Script.isCode] using hcode)]
    rfl
  have hspan : (⟨0, [w, []]⟩ : Hit).span = ⟨0, (plain w).length⟩ := by
    simp [Hit.span, Hit.stop, Hit.text, length_plain]
  have hcut : plain (memberBody n) = plain w ++ plain "Sprite".toList := by
    rw [hbody]
    exact List.map_append
  rw [track_from, trackFrom, text_of_plain, hin, List.map_singleton, hspan, splice, hcut]
  simp [splice, memberMet, metWord, block, Strip.chars, namespaceMembers]

include hn hl he in
theorem separate_only (h : ∀ t, Separate (all n) (plain t)) :
    Text.lastName n.emitted ∉ [n.namespaceAlias, n.libraryAlias, "shapes".toList] := by
  have hgone : ∀ s ∈ drops n, ∀ h, s.replacement h = [] :=
    List.forall_mem_cons.2 ⟨fun _ => rfl, List.forall_mem_singleton.2 fun _ => rfl⟩
  have hseparate := h (memberBody n)
  rw [all_parts, gone_separate hgone, member_body_drops hn] at hseparate
  have hreplaced := hseparate.replaced
  have hemitted := Text.identifier_parts he
  have hsprite : ∀ c ∈ "Sprite".toList, Text.isNamePart c = true := by decide
  have hstay : ∀ {s : Substitution}, s.codeHits (textOf (memberMet n)) = [] →
      s.track (memberMet n) = memberMet n := by
    intro s hnone
    rw [track, hnone]
    rfl
  have hleft : ∀ {s : Substitution} {m : Text} {sep : Char → Bool}, s.Opens m sep → s.Tame →
      (s, memberMet n) ∈ stages (links n) (plain (memberBody n)) →
      s.codeHits (textOf (memberMet n)) = [] :=
    fun hs htame hmem => met_word_left hs _ htame hsprite (hreplaced _ hmem)
  have hmet := member_body_met hn he
  have hprimitives := hleft (primitives_opens hn) (primitives_tame hn he)
    (by simp [links, stages, hmet])
  have hlibrary := hleft (library_opens hl) (library_tame hl)
    (by simp [links, stages, hmet, hstay hprimitives])
  have hshapes := hleft shapes_opens shapes_tame
    (by simp [links, stages, hmet, hstay hprimitives, hstay hlibrary])
  intro hmem
  simp only [List.mem_cons, List.not_mem_nil, or_false] at hmem
  rcases hmem with hlast | hlast | hlast
  · refine met_word_hit (primitives_opens hn) _ (primitives_tame hn he) hemitted hsprite hlast
      (fun {b} hb => ?_) hprimitives
    have hword : "Sprite".toList ∈ primitives := by decide
    exact (primitives_spells hn).fits.2
      ⟨hb, _, List.mem_map_of_mem hword, [], (List.append_nil _).symm, rfl⟩
  · refine met_word_hit (library_opens hl) _ (library_tame hl) hemitted hsprite hlast
      (fun {b} hb => ?_) hlibrary
    rw [(swaps_fits library_swaps).2 ⟨hb, rfl, _, rfl, rfl⟩]
    simp
  · refine met_word_hit shapes_opens _ shapes_tame hemitted hsprite hlast
      (fun {b} hb => ?_) hshapes
    rw [(swaps_fits shapes_swaps).2 ⟨hb, rfl, _, rfl, rfl⟩]
    simp

end

end Restage.Legacy.Substitution

namespace Restage.Legacy

open Substitution

theorem rename_tracked (n : Names) (t : Text) :
    (rename n t).result = .ok (textOf (outcome (all n) (plain t))) := by
  rw [outcome_text, text_of_plain]
  rfl

/-- Whatever the body, no substitution replaces what an earlier one put in, exactly if the emitted
namespace does not end with the alias of the namespace, the alias of the library or `shapes`. -/
theorem passes_separate_iff {n : Names} (hn : Text.isName n.namespaceAlias = true)
    (hl : Text.isName n.libraryAlias = true) (he : Text.isIdentifier n.emitted = true) :
    (∀ t, Separate (all n) (plain t)) ↔
      Text.lastName n.emitted ∉ [n.namespaceAlias, n.libraryAlias, "shapes".toList] :=
  ⟨separate_only hn hl he, fun h t => separate_of hn hl he h t⟩

theorem usual_passes_separate : Text.lastName usualNames.emitted ∉
    [usualNames.namespaceAlias, usualNames.libraryAlias, "shapes".toList] ∧
      ∀ t, Separate (all usualNames) (plain t) :=
  ⟨by decide, (passes_separate_iff (by decide) (by decide) (by decide)).2 (by decide)⟩

/-- A namespace that is the name of the shapes. -/
def shapesNames : Names := ⟨"PIXI".toList, "lib".toList, "shapes".toList⟩

def clipBody : Text := "x = new PIXI.animate.MovieClip();\n".toList

/-- The members of such a namespace end up among the shapes. -/
theorem shapes_namespace_redirected : ¬ Separate (all shapesNames) (plain clipBody) ∧
    (rename shapesNames clipBody).result = .ok "x = new data.shapes.MovieClip();\n".toList := by
  have hresult : (runAll (all shapesNames) clipBody).2 =
      "x = new data.shapes.MovieClip();\n".toList := by decide +kernel
  refine ⟨fun h => ?_, congrArg Except.ok hresult⟩
  let T := (outcome ((all shapesNames).take 5) (plain clipBody))
  have hstage : (shapesCache, T) ∈ stages (all shapesNames) (plain clipBody) := by
    simp [T, stages, all, outcome]
  have hhit : ∃ h ∈ shapesCache.codeHits (textOf T), ∃ x ∈ (T.take h.stop).drop h.start,
      x.2 ≠ none := by decide +kernel
  obtain ⟨y, hy, x, hx, hmade⟩ := hhit
  exact hmade (h.replaced _ hstage y hy x hx)

end Restage.Legacy
