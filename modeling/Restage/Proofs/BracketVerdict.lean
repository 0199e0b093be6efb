import Restage.Proofs.BraceReadings

/-!
The verdict on the brackets of a script. The stack takes a word of brackets off just if it is well
nested (`well_nested_iff`), and gets through it just if the word can be made well nested by going on
(`extendable_iff`). So the first mismatch is at the closer that ends the shortest beginning that nothing
makes well nested or, when there is none, at the last opener that is never closed
(`mismatch_placed`).
-/

set_option autoImplicit false

namespace Restage.Script

/-- Words of brackets in which each opener has its own closer behind it, and pairs do not cross. -/
inductive WellNested : Text → Prop
  | nil : WellNested []
  | pair {o c : Char} {u v : Text} : closerOf? o = some c → WellNested u → WellNested v →
      WellNested (o :: (u ++ c :: v))

/-- Beginnings of well nested words. -/
def Extendable (w : Text) : Prop := ∃ v, WellNested (w ++ v)

/-- An opener has its closer in what stands behind it. -/
def ClosedIn (o : Char) (w : Text) : Prop :=
  ∃ u c v, w = u ++ c :: v ∧ WellNested u ∧ closerOf? o = some c

def chars (ms : List Marked) : Text := ms.map (·.char)

theorem chars_cons (m : Marked) (ms : List Marked) : chars (m :: ms) = m.char :: chars ms := rfl

theorem chars_append (us vs : List Marked) : chars (us ++ vs) = chars us ++ chars vs :=
  List.map_append

/-- The brackets among the code of a script, in order. -/
def codeBrackets (t : Text) : List Marked :=
  (codeIn t 0 t.length).filter fun m => isBracket m.char

/-- A closer that ends the shortest beginning of a word that nothing makes well nested. -/
def EndsShortest (w : List Marked) (m : Marked) : Prop :=
  ∃ us vs, w = us ++ m :: vs ∧ isCloser m.char = true ∧ ¬ Extendable (chars (us ++ [m])) ∧
    ∀ u, u <+: chars us → Extendable u

/-- An opener of a word that is never closed, when all openers behind it are. -/
def LastUnclosed (w : List Marked) (m : Marked) : Prop :=
  ∃ us vs, w = us ++ m :: vs ∧ (closerOf? m.char).isSome = true ∧ ¬ ClosedIn m.char (chars vs) ∧
    ∀ xs o ys, vs = xs ++ o :: ys → (closerOf? o.char).isSome = true → ClosedIn o.char (chars ys)

/-! The stack on words of brackets. -/

/-- A word that closes the given open brackets, innermost first. -/
def Closes : List Char → Text → Prop
  | [], w => WellNested w
  | o :: os, w => ∃ u c v, w = u ++ c :: v ∧ WellNested u ∧ closerOf? o = some c ∧ Closes os v

section

variable {st st' : List Char} {u v w : Text}

theorem well_nested_append (hu : WellNested u) (hv : WellNested v) : WellNested (u ++ v) := by
  induction hu with
  | nil => exact hv
  | @pair o c x y ho hx _ _ ihy =>
    have hnested := WellNested.pair ho hx ihy
    simpa using hnested

theorem well_nested_balanced (h : WellNested w) : Balanced w := by
  induction h with
  | nil => rfl
  | @pair o c x y ho _ _ ihx ihy =>
    have hc := closer_fits ho
    have hpair := balanced_between ho ⟨Option.not_isSome_iff_eq_none.1 (by simp [closer_not_opener hc]), hc⟩ ihx
    simpa using balanced_append hpair ihy

theorem closes_behind (hu : WellNested u) (hv : Closes st v) : Closes st (u ++ v) := by
  cases st with
  | nil => exact well_nested_append hu hv
  | cons o os =>
    obtain ⟨x, c, y, rfl, hx, hc, hy⟩ := hv
    exact ⟨u ++ x, c, y, by simp, well_nested_append hu hx, hc, hy⟩

/-- A word that empties the stack closes the brackets on it, one after the other. -/
theorem pair_closes (hw : ∀ c ∈ w, isBracket c = true) (h : pairUp st w = some []) : Closes st w := by
  induction w generalizing st with
  | nil =>
    obtain rfl : st = [] := by simpa [pairUp] using h
    exact .nil
  | cons c w ih =>
    have ih := fun st => @ih st fun d hd => hw d (by simp [hd])
    cases ho : (closerOf? c).isSome with
    | true =>
      have hrun : pairUp (c :: st) w = some [] := by
        cases st <;> simpa [pairUp, ho] using h
      obtain ⟨x, d, y, rfl, hx, hd, hy⟩ := ih (c :: st) hrun
      simpa using closes_behind (.pair hd hx .nil) hy
    | false =>
      have hc : isCloser c = true := by simpa [isBracket, ho] using hw c (by simp)
      cases st with
      | nil => simp [pairUp, ho, hc] at h
      | cons o os =>
        have hrun : closerOf? o = some c ∧ pairUp os w = some [] := by
          simpa [pairUp, ho, hc] using h
        exact ⟨[], c, w, rfl, .nil, hrun.1, ih os hrun.2⟩

/-- A word of brackets is well nested if the stack takes it off. -/
theorem well_nested_iff (hw : ∀ c ∈ w, isBracket c = true) :
    WellNested w ↔ pairUp [] w = some [] :=
  ⟨well_nested_balanced, pair_closes hw⟩

/-- Only openers come to stand on the stack. -/
theorem pair_openers (hst : ∀ o ∈ st, (closerOf? o).isSome = true) (h : pairUp st w = some st') :
    ∀ o ∈ st', (closerOf? o).isSome = true := by
  fun_induction pairUp st w with
  | case1 st =>
    rw [Option.some.injEq] at h
    exact h ▸ hst
  | case2 st c cs hc ih => exact ih (by simpa [hc] using hst) h
  | case3 c cs hc hcl => simp at h
  | case4 c cs hc hcl o os ho ih => exact ih (fun p hp => hst p (by simp [hp])) h
  | case5 c cs hc hcl o os ho => simp at h
  | case6 st c cs hc hcl ih => exact ih hst h

theorem pair_closers (hst : ∀ o ∈ st, (closerOf? o).isSome = true) :
    pairUp st (st.filterMap closerOf?) = some [] := by
  induction st with
  | nil => rfl
  | cons o os ih =>
    obtain ⟨c, hc⟩ := Option.isSome_iff_exists.1 (hst o (by simp))
    have hcl := closer_fits hc
    rw [List.filterMap_cons_some hc, pairUp, if_neg (by simp [closer_not_opener hcl]), if_pos hcl]
    simpa [hc] using ih fun p hp => hst p (by simp [hp])

theorem pair_before (h : (pairUp st (u ++ v)).isSome = true) : (pairUp st u).isSome = true := by
  rw [pair_append] at h
  exact Option.isSome_of_isSome_bind h

/-- A word of brackets can be made well nested if no closer in it is wrong for the stack. -/
theorem extendable_iff (hw : ∀ c ∈ w, isBracket c = true) :
    Extendable w ↔ (pairUp [] w).isSome = true := by
  constructor
  · rintro ⟨v, hv⟩
    exact pair_before (v := v) (by rw [well_nested_balanced hv]; rfl)
  · intro h
    obtain ⟨st, hst⟩ := Option.isSome_iff_exists.1 h
    have hopen := pair_openers (by simp) hst
    refine ⟨st.filterMap closerOf?, (well_nested_iff fun c hc => ?_).2 ?_⟩
    · rcases List.mem_append.1 hc with hc | hc
      · exact hw c hc
      · obtain ⟨o, _, hfit⟩ := List.mem_filterMap.1 hc
        simp [isBracket, closer_fits hfit]
    · rw [pair_append, hst, Option.bind_some, pair_closers hopen]

end

/-! Where the stack stops. -/

section

variable {st ms : List Marked} {m : Marked}

theorem mismatch_brackets (st ms : List Marked) :
    mismatchFrom st (ms.filter fun m => isBracket m.char) = mismatchFrom st ms := by
  fun_induction mismatchFrom st ms with
  | case1 => rfl
  | case2 o os => rfl
  | case3 st m ms hc ih =>
    rw [List.filter_cons_of_pos (by simp [isBracket, hc])]
    cases st <;> simpa [mismatchFrom, hc] using ih
  | case4 m ms hc hcl => simp [isBracket, mismatchFrom, hc, hcl]
  | case5 m ms hc hcl o os ho ih =>
    rw [List.filter_cons_of_pos (by simp [isBracket, hcl])]
    simp [mismatchFrom, hc, hcl, ho, ih]
  | case6 m ms hc hcl o os ho => simp [isBracket, mismatchFrom, hc, hcl, ho]
  | case7 st m ms hc hcl ih =>
    rw [List.filter_cons_of_neg (by simp [isBracket, hc, hcl])]
    exact ih

/-- What the stack stops at: a closer that it cannot take; or, with the word read to its end, an opener
behind which all brackets pair up, or one that was on the stack under brackets that the word closes. -/
inductive StopsAt (st ms : List Marked) (m : Marked) : Prop
  | closer (us vs : List Marked) : ms = us ++ m :: vs → isCloser m.char = true →
      (pairUp (chars st) (chars us)).isSome = true → pairUp (chars st) (chars (us ++ [m])) = none →
      StopsAt st ms m
  | opener (us vs : List Marked) : ms = us ++ m :: vs → (closerOf? m.char).isSome = true →
      (pairUp (chars st) (chars ms)).isSome = true → pairUp [] (chars vs) = some [] → StopsAt st ms m
  | below (above rest : List Marked) : st = above ++ m :: rest →
      pairUp (chars above) (chars ms) = some [] → StopsAt st ms m

/-- A step of the stack takes a stop behind it to one in front of it. -/
theorem stops_step {st' : List Marked} {n : Marked}
    (hstep : ∀ w, pairUp (chars st) (n.char :: w) = pairUp (chars st') w)
    (hbelow : ∀ above rest, st' = above ++ m :: rest → pairUp (chars above) (chars ms) = some [] →
      StopsAt st (n :: ms) m) (h : StopsAt st' ms m) : StopsAt st (n :: ms) m := by
  cases h with
  | closer us vs hms hm hrun hstop =>
    refine .closer (n :: us) vs (by rw [hms]; rfl) hm ?_ ?_
    · rwa [chars_cons, hstep]
    · rwa [List.cons_append, chars_cons, hstep]
  | opener us vs hms hm hrun hrest =>
    exact .opener (n :: us) vs (by rw [hms]; rfl) hm (by rwa [chars_cons, hstep]) hrest
  | below above rest hst hrun => exact hbelow above rest hst hrun

theorem mismatch_stops {x : Option Marked} (h : mismatchFrom st ms = some (m, x)) :
    StopsAt st ms m := by
  fun_induction mismatchFrom st ms with
  | case1 => simp at h
  | case2 o os =>
    obtain ⟨rfl, -⟩ : o = m ∧ none = x := by simpa using h
    exact .below [] os rfl rfl
  | case3 st n ms hc ih =>
    have hstep : ∀ w, pairUp (chars st) (n.char :: w) = pairUp (chars (n :: st)) w := fun w => by
      cases st <;> simp [chars, pairUp, hc]
    refine stops_step hstep (fun above rest hst hrun => ?_) (ih h)
    cases above with
    | nil =>
      obtain ⟨rfl, rfl⟩ := List.cons.inj hst
      refine .opener [] ms rfl hc ?_ hrun
      rw [chars_cons, hstep]
      exact Option.isSome_of_mem (pair_below hrun (chars (n :: st)))
    | cons a above =>
      obtain ⟨rfl, rfl⟩ := List.cons.inj hst
      refine .below above rest rfl ?_
      cases above <;> simpa [chars, pairUp, hc] using hrun
  | case4 n ms hc hcl =>
    obtain ⟨rfl, -⟩ : n = m ∧ none = x := by simpa using h
    exact .closer [] ms rfl hcl rfl (by simp [chars, pairUp, hc, hcl])
  | case5 n ms hc hcl o os ho ih =>
    have hstep : ∀ w, pairUp (chars (o :: os)) (n.char :: w) = pairUp (chars os) w := fun w => by
      simp [chars, pairUp, hc, hcl, ho]
    refine stops_step hstep (fun above rest hst hrun => ?_) (ih h)
    refine .below (o :: above) rest (by rw [hst]; rfl) ?_
    simpa [chars, pairUp, hc, hcl, ho] using hrun
  | case6 n ms hc hcl o os ho =>
    obtain ⟨rfl, -⟩ : n = m ∧ some o = x := by simpa using h
    exact .closer [] ms rfl hcl rfl (by simp [chars, pairUp, hc, hcl, ho])
  | case7 st n ms hc hcl ih =>
    have hstep : ∀ st w, pairUp (chars st) (n.char :: w) = pairUp (chars st) w := fun st w => by
      cases st <;> simp [chars, pairUp, hc, hcl]
    refine stops_step (hstep st) (fun above rest hst hrun => ?_) (ih h)
    exact .below above rest hst (by rwa [chars_cons, hstep])

end

/-! The verdict. -/

section

variable {ms : List Marked} {m : Marked}

theorem chars_brackets (hms : ∀ m ∈ ms, isBracket m.char = true) : ∀ c ∈ chars ms, isBracket c = true :=
  fun c hc => by
    obtain ⟨m, hm, rfl⟩ := List.mem_map.1 hc
    exact hms m hm

theorem prefix_extendable (hms : ∀ m ∈ ms, isBracket m.char = true)
    (hrun : (pairUp [] (chars ms)).isSome = true) {u : Text} (hu : u <+: chars ms) : Extendable u := by
  obtain ⟨v, hv⟩ := hu
  have hbrackets := chars_brackets hms
  rw [← hv] at hbrackets hrun
  exact (extendable_iff fun c hc => hbrackets c (by simp [hc])).2 (pair_before hrun)

/-- An opener behind which all brackets pair up is the last that is never closed. -/
theorem last_unclosed {us vs : List Marked} (hms : ∀ n ∈ us ++ m :: vs, isBracket n.char = true)
    (hm : (closerOf? m.char).isSome = true) (hrest : pairUp [] (chars vs) = some []) :
    LastUnclosed (us ++ m :: vs) m := by
  refine ⟨us, vs, rfl, hm, ?_, fun xs o ys hvs ho => ?_⟩
  · rintro ⟨u, c, v, hsplit, hu, hc⟩
    have hcl := closer_fits hc
    rw [hsplit, pair_append, well_nested_balanced hu, Option.bind_some] at hrest
    simp [pairUp, closer_not_opener hcl, hcl] at hrest
  · rw [hvs, chars_append, pair_append] at hrest
    obtain ⟨st, -, hrun⟩ := Option.bind_eq_some_iff.1 hrest
    have hopen : pairUp (o.char :: st) (chars ys) = some [] := by
      cases st <;> simpa [chars_cons, pairUp, ho] using hrun
    obtain ⟨u, c, v, hsplit, hu, hc, -⟩ :=
      pair_closes (chars_brackets fun n hn => hms n (by simp [hvs, hn])) hopen
    exact ⟨u, c, v, hsplit, hu, hc⟩

/-- Where a word of brackets goes wrong. -/
theorem word_verdict (hms : ∀ m ∈ ms, isBracket m.char = true) {x : Option Marked}
    (h : mismatchFrom [] ms = some (m, x)) :
    ((∃ u, u <+: chars ms ∧ ¬ Extendable u) → EndsShortest ms m) ∧
      ((∀ u, u <+: chars ms → Extendable u) → LastUnclosed ms m) := by
  cases mismatch_stops h with
  | closer us vs hsplit hm hrun hstop =>
    have hus : ∀ n ∈ us ++ [m], isBracket n.char = true := fun n hn => hms n (by
      rw [hsplit, ← List.singleton_append, ← List.append_assoc]
      exact List.mem_append_left vs hn)
    have hmisfit : ¬ Extendable (chars (us ++ [m])) := by
      rw [extendable_iff (chars_brackets hus)]
      simp [show pairUp [] (chars (us ++ [m])) = none from hstop]
    refine ⟨fun _ => ⟨us, vs, hsplit, hm, hmisfit, fun u hu => ?_⟩, fun hall => ?_⟩
    · exact prefix_extendable (fun n hn => hus n (by simp [hn])) hrun hu
    · refine absurd (hall _ ?_) hmisfit
      rw [hsplit]
      exact ⟨chars vs, by rw [← chars_append, List.append_assoc, List.singleton_append]⟩
  | opener us vs hsplit hm hrun hrest =>
    refine ⟨fun ⟨u, hu, hmisfit⟩ => absurd (prefix_extendable hms hrun hu) hmisfit, fun _ => ?_⟩
    rw [hsplit] at hms ⊢
    exact last_unclosed hms hm hrest
  | below above rest hst hrun => exact absurd hst (by simp)

theorem code_in_all (t : Text) : codeIn t 0 t.length = codeOf t := by
  refine List.filter_congr fun n hn => ?_
  obtain ⟨k, hk, rfl⟩ := List.getElem_of_mem hn
  have hindex := marked_index hk
  rw [length_marked] at hk
  rw [hindex]
  simp [hk]

theorem mismatch_in_brackets (t : Text) : firstMismatch t =
    (mismatchFrom [] (codeBrackets t)).map fun x => (x.1.index, mismatchOf t x.1 x.2) := by
  rw [codeBrackets, mismatch_brackets, code_in_all]
  rfl

/-- A script has no mismatch if the brackets of its code are a well nested word. If they are not, it has
one: when the word cannot be made well nested from some point on, at the closer that ends the shortest
such beginning, and when it always can, at the last opener that is never closed. -/
theorem mismatch_placed (t : Text) :
    (firstMismatch t = none ↔ WellNested (chars (codeBrackets t))) ∧
    (¬ WellNested (chars (codeBrackets t)) → ∃ m f, firstMismatch t = some (m.index, f) ∧
      ((∃ u, u <+: chars (codeBrackets t) ∧ ¬ Extendable u) → EndsShortest (codeBrackets t) m) ∧
      ((∀ u, u <+: chars (codeBrackets t) → Extendable u) → LastUnclosed (codeBrackets t) m)) := by
  have hbrackets : ∀ m ∈ codeBrackets t, isBracket m.char = true := fun m hm =>
    (List.mem_filter.1 hm).2
  have hnone : firstMismatch t = none ↔ WellNested (chars (codeBrackets t)) := by
    rw [mismatch_in_brackets, Option.map_eq_none_iff, mismatch_chars,
      well_nested_iff (chars_brackets hbrackets)]
    rfl
  refine ⟨hnone, fun hnested => ?_⟩
  rw [← hnone, mismatch_in_brackets, Option.map_eq_none_iff] at hnested
  obtain ⟨⟨m, x⟩, hx⟩ := Option.ne_none_iff_exists'.1 hnested
  refine ⟨m, mismatchOf t m x, ?_, word_verdict hbrackets hx⟩
  rw [mismatch_in_brackets, hx]
  rfl

/-- A brace that is never closed in front of a pair of round brackets and a string. -/
def looseSource : Text := "\x7b f(\"]\")".toList

theorem loose_source_placed : firstMismatch looseSource = some (0, .unclosed '{' 1) ∧
    ¬ WellNested (chars (codeBrackets looseSource)) ∧
    LastUnclosed (codeBrackets looseSource) ⟨0, '{', true⟩ := by
  obtain ⟨hnone, hplaced⟩ := mismatch_placed looseSource
  have hfound : firstMismatch looseSource = some (0, .unclosed '{' 1) := by decide +kernel
  have hnested : ¬ WellNested (chars (codeBrackets looseSource)) := by
    rw [← hnone, hfound]
    simp
  obtain ⟨m, f, hm, -, hlast⟩ := hplaced hnested
  have hword : codeBrackets looseSource = [⟨0, '{', true⟩, ⟨3, '(', true⟩, ⟨7, ')', true⟩] := by
    decide +kernel
  have hopen := hlast fun u hu =>
    prefix_extendable (by rw [hword]; decide) (by rw [hword]; decide) hu
  have ⟨us, vs, hsplit, _⟩ := hopen
  have hmem : m ∈ codeBrackets looseSource := by simp [hsplit]
  have hindex : m.index = 0 := by
    rw [hfound] at hm
    exact (congrArg Prod.fst (Option.some.inj hm)).symm
  have hbrace : m = ⟨0, '{', true⟩ := by
    rw [hword] at hmem
    simp only [List.mem_cons, List.not_mem_nil, or_false] at hmem
    rcases hmem with rfl | rfl | rfl
    · rfl
    · exact absurd hindex (by decide)
    · exact absurd hindex (by decide)
  exact ⟨hfound, hnested, hbrace ▸ hopen⟩

end

end Restage.Script
