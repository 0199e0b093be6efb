import Restage.Proofs.AliasRenaming

/-!
The eight substitutions on a rewritten setup body. Two drop bindings, five put one word in the place
of another in front of certain texts (`Swaps`), one renames the primitives of the rendering
namespace; together they bring the body to its final style (`rename_rewritten`).
-/

set_option autoImplicit false

namespace Restage

namespace Text

/-! Identifiers. -/

/-- Whether each of some ascending ranges lies in one of others. -/
def covered : List (Nat × Nat) → List (Nat × Nat) → Bool
  | [], _ => true
  | r :: rs, qs =>
    match qs.dropWhile fun q => Nat.blt q.2 r.1 with
    | [] => false
    | q :: qs' => Nat.ble q.1 r.1 && Nat.ble r.2 q.2 && covered rs (q :: qs')

theorem covered_ranges {rs qs : List (Nat × Nat)} (h : covered rs qs = true) {n : Nat}
    (hn : inRanges n rs = true) : inRanges n qs = true := by
  induction rs generalizing qs with
  | nil => simp [inRanges] at hn
  | cons r rs ih =>
    have hpart : ∀ x ∈ qs.dropWhile fun q => Nat.blt q.2 r.1, x ∈ qs :=
      fun x hx => (List.dropWhile_sublist _).subset hx
    rw [covered] at h
    split at h
    · simp at h
    · next q qs' hq =>
      simp only [Bool.and_eq_true, Nat.ble_eq] at h
      rw [hq] at hpart
      simp only [inRanges, List.any_cons, Bool.or_eq_true, Bool.and_eq_true, decide_eq_true_eq]
        at hn
      rcases hn with hn | hn
      · refine List.any_eq_true.2 ⟨q, hpart q (by simp), ?_⟩
        simp only [Bool.and_eq_true, decide_eq_true_eq]
        omega
      · obtain ⟨x, hx, hin⟩ := List.any_eq_true.1 (ih h.2 hn)
        exact List.any_eq_true.2 ⟨x, hpart x hx, hin⟩

theorem start_identifier_part {c : Char} (h : isIdentifierStart c = true) :
    isIdentifierPart c = true := by
  unfold isIdentifierStart at h
  unfold isIdentifierPart
  split at h
  · next hc =>
    rw [if_pos hc]
    simp only [Bool.or_eq_true, Char.isAlphanum] at h ⊢
    exact h.imp_left Or.inl
  · next hc =>
    rw [if_neg hc]
    exact covered_ranges (by decide +kernel) h

theorem identifier_parts {t : Text} (h : isIdentifier t = true) :
    ∀ c ∈ t, isIdentifierPart c = true := by
  cases t with
  | nil => simp
  | cons c t =>
    simp only [isIdentifier, Bool.and_eq_true, List.all_eq_true] at h
    simp only [List.mem_cons, forall_eq_or_imp]
    exact ⟨start_identifier_part h.1, h.2⟩

end Text

namespace Legacy

open Piece
open Text (endOf)

/-- Names in front of a dot. -/
theorem dot_behind {x y u v : Text} (hx : '.' ∉ x) (hy : '.' ∉ y)
    (h : x ++ '.' :: u = y ++ '.' :: v) : x = y := by
  have hrun : ∀ {z w : Text}, '.' ∉ z → (z ++ '.' :: w).takeWhile (· != '.') = z := by
    intro z w hz
    refine Text.run_taken (fun c hc => ?_) (by simp)
    simp only [bne_iff_ne, ne_eq]
    rintro rfl
    exact hz hc
  rw [← hrun (w := u) hx, h, hrun hy]

theorem ahead_takes {ok : Text → Bool} {u a r : Text} :
    (Piece.ahead ok).split? u = some (a, r) ↔ ok u = true ∧ a = [] ∧ r = u := by
  simp only [Piece.split?]
  split <;> simp [*, eq_comm]

/-! One word in the place of another. -/

/-- Whether a text begins with a character of a class. -/
def firstIs (p : Char → Bool) : Text → Bool
  | [] => false
  | c :: _ => p c

/-- A substitution of one word by another in front of certain texts. -/
structure Swaps (s : Substitution) (w : Text) (ok : Text → Bool) (given : Text) : Prop where
  pattern : s.pattern = ⟨Pattern.freshName, [.word w, .ahead ok]⟩
  replacement : ∀ h, s.replacement h = given

section

variable {s : Substitution} {w given : Text} {ok : Text → Bool} (hs : Swaps s w ok given)
include hs

theorem swaps_fits {b : Option Char} {t : Text} {parts : List Text} :
    s.pattern.fits? b t = some parts ↔
      Pattern.freshName b = true ∧ parts = [w, []] ∧ ∃ u, t = w ++ u ∧ ok u = true := by
  rw [Pattern.fits_some, hs.pattern]
  refine and_congr_right fun _ => ⟨?_, ?_⟩
  · rintro ⟨r, hr⟩
    obtain ⟨a, u, rest, h1, h2, rfl⟩ := readAll_cons_iff.1 hr
    obtain ⟨a', u', rest', h3, h4, rfl⟩ := readAll_cons_iff.1 h2
    obtain ⟨rfl, _⟩ := readAll_nil_iff.1 h4
    obtain ⟨hok, rfl, _⟩ := ahead_takes.1 h3
    obtain ⟨rfl, rfl⟩ := word_split_iff.1 h1
    exact ⟨rfl, u, rfl, hok⟩
  · rintro ⟨rfl, u, rfl, hok⟩
    refine ⟨u, readAll_cons_iff.2 ⟨w, u, [[]], word_split _ _, ?_, rfl⟩⟩
    exact readAll_cons_iff.2 ⟨[], u, [], ahead_takes.2 ⟨hok, rfl, rfl⟩, rfl, rfl⟩

/-- Where the word is no head of another, or what follows does not fit. -/
theorem swaps_none {x : Text} {sep : Char} (hsep : sep ∉ w) {t : Text}
    (h : ∀ u, x = w ++ u → ok (u ++ sep :: t) = false) (b : Option Char) :
    s.pattern.fits? b (x ++ sep :: t) = none := by
  cases hfit : s.pattern.fits? b (x ++ sep :: t) with
  | none => rfl
  | some parts =>
    obtain ⟨_, _, u, htext, hok⟩ := (swaps_fits hs).1 hfit
    obtain ⟨v, rfl⟩ := Text.prefix_of_not_mem hsep ⟨u, htext.symm⟩
    rw [List.append_assoc] at htext
    rw [← List.append_cancel_left htext, h v rfl] at hok
    exact Bool.noConfusion hok

theorem swaps_turns {sep : Char} (hok : ∀ t, ok (sep :: t) = true) : Turns s sep w given := by
  intro b t hb
  have hflat : ([w, []] : List Text).flatten = w := by simp
  exact Or.inr ⟨[w, []], (swaps_fits hs).2 ⟨hb, rfl, sep :: t, rfl, hok t⟩, hflat,
    fun _ => hs.replacement _⟩

theorem swaps_stays {x : Text} {sep : Char} (hsep : sep ∉ w)
    (h : ∀ u t, x = w ++ u → ok (u ++ sep :: t) = false) : Turns s sep x x :=
  fun b _ _ => Or.inl ⟨swaps_none hs hsep (fun u => h u _) b, rfl⟩

/-- What a dot brought in stands in front of. -/
def Dotted (w given : Text) : Prop :=
  ∀ a x, given = a ++ '.' :: x → (x = [] ∧ ∃ y, w = y ++ ['.']) ∨
    ∃ c y, x = c :: y ∧ c ∉ ['e', 'c', 'a']

theorem swaps_tame (hne : w ≠ []) (hw : ∀ c ∈ w, Substitution.isChain c = true)
    (hgiven : given ≠ [] ∧ ∀ c ∈ given, Substitution.isPlainMark c = true)
    (hdots : Dotted w given) : s.Tame := by
  have hflat : ([w, []] : List Text).flatten = w := by simp
  refine ⟨fun h => ((swaps_fits hs).1 h).1, fun h => ?_, fun i h => ?_, fun i a x h hcut => ?_⟩
  · rw [((swaps_fits hs).1 h).2.1, hflat]
    exact ⟨hne, hw⟩
  · rw [hs.replacement]
    exact hgiven
  · rw [((swaps_fits hs).1 h).2.1, hflat]
    rw [hs.replacement] at hcut
    exact hdots a x hcut

end

/-- A text with one dot. -/
theorem one_dot {u v a x : Text} (hu : '.' ∉ u) (hv : '.' ∉ v)
    (h : u ++ '.' :: v = a ++ '.' :: x) : x = v := by
  have hcount := congrArg (List.count '.') h
  simp only [List.count_append, List.count_cons_self, List.count_eq_zero.2 hu,
    List.count_eq_zero.2 hv] at hcount
  have ha : '.' ∉ a := List.count_eq_zero.1 (by omega)
  obtain rfl := dot_behind hu ha h
  exact (List.cons.inj (List.append_cancel_left h)).2.symm

/-! The substitutions. -/

/-- The style behind the table of the library, and the final one. -/
def Style.linked : Style := ⟨"data.lib".toList, "var".toList⟩
def Style.final : Style := ⟨"data.lib".toList, "const".toList⟩

theorem linked_proper : Style.linked.Proper := ⟨by decide, by decide, by decide, by decide⟩

theorem final_proper : Style.final.Proper := ⟨by decide, by decide, by decide, by decide⟩

theorem name_lacks {t : Text} (ht : Text.isName t = true) {x : Char}
    (hx : Text.isNamePart x = false) : x ∉ t := Text.not_mem_of_all (Text.name_parts ht) hx

theorem var_parts : ∀ c ∈ "var".toList, Text.isNamePart c = true := by decide

theorem name_chain {t : Text} (ht : ∀ c ∈ t, Text.isNamePart c = true) :
    ∀ c ∈ t, Substitution.isChain c = true := fun c hc => by simp [Substitution.isChain, ht c hc]

theorem converted_proper {library : Text} (hl : Text.isName library = true) :
    (Style.converted library).Proper := by
  obtain ⟨c, u, hcu, _⟩ := Text.name_head hl
  exact ⟨by simp [Style.converted, hcu], name_chain (Text.name_parts hl), linked_proper.keyword_some,
    linked_proper.keyword⟩

theorem binding_drops {s : Substitution} {n : Text} (hn : Text.isName n = true) {name : String}
    {member : Text} (hp : s.pattern = Substitution.bindingLine name (n ++ member))
    (hname : ∀ c ∈ name.toList, Text.isNamePart c = true)
    (hmember : '.' ∈ member ∧ ∀ c ∈ member, Substitution.isChain c = true)
    (hgone : ∀ h, s.replacement h = []) : Drops s := by
  refine ⟨⟨name, n ++ member, hp, hname, fun c hc => ?_, by simp [hmember.1]⟩, hgone⟩
  exact (List.mem_append.1 hc).elim (name_chain (Text.name_parts hn) c) (hmember.2 c)

section

variable {n : Names}

theorem shapes_drops (hn : Text.isName n.namespaceAlias = true) : Drops (Substitution.dropShapes n) :=
  binding_drops hn rfl (by decide) ⟨by decide, by decide⟩ fun _ => rfl

theorem from_frame_drops (hn : Text.isName n.namespaceAlias = true) :
    Drops (Substitution.dropFromFrame n) :=
  binding_drops hn rfl (by decide) ⟨by decide, by decide⟩ fun _ => rfl

/-- What the namespace and a dot behind it consist of. -/
theorem emitted_marks (he : Text.isIdentifier n.emitted = true) :
    '.' ∉ n.emitted ∧ ∀ c ∈ n.emitted ++ ['.'], Substitution.isPlainMark c = true := by
  have hparts := Text.identifier_parts he
  refine ⟨Text.not_mem_of_all hparts (by decide), fun c hc => ?_⟩
  rcases List.mem_append.1 hc with hc | hc
  · simp [Substitution.isPlainMark, hparts c hc]
  · rw [List.mem_singleton.1 hc]
    decide

theorem members_swaps : Swaps (Substitution.namespaceMembers n)
    (n.namespaceAlias ++ ".animate.".toList) (firstIs Text.isNameStart) (n.emitted ++ ['.']) :=
  ⟨rfl, fun _ => rfl⟩

theorem members_chain (hn : Text.isName n.namespaceAlias = true) :
    ∀ c ∈ n.namespaceAlias ++ ".animate.".toList, Substitution.isChain c = true := by
  intro c hc
  rcases List.mem_append.1 hc with hc | hc
  · exact name_chain (Text.name_parts hn) c hc
  · exact (by decide : ∀ c ∈ ".animate.".toList, Substitution.isChain c = true) c hc

theorem members_tame (hn : Text.isName n.namespaceAlias = true)
    (he : Text.isIdentifier n.emitted = true) : (Substitution.namespaceMembers n).Tame := by
  obtain ⟨hplain, hmarks⟩ := emitted_marks he
  refine swaps_tame members_swaps (by simp) (members_chain hn) ⟨by simp, hmarks⟩ fun a x hcut => ?_
  exact Or.inl ⟨one_dot hplain (by simp) hcut, n.namespaceAlias ++ ".animate".toList, by simp⟩

theorem members_renames (hn : Text.isName n.namespaceAlias = true)
    (hl : Text.isName n.libraryAlias = true) (hne : n.namespaceAlias ≠ n.libraryAlias)
    (he : Text.isIdentifier n.emitted = true) :
    Renames (Substitution.namespaceMembers n) (.converted n.libraryAlias)
      (.converted n.libraryAlias) := by
  have hs := members_swaps (n := n)
  have hdot : '.' ∈ n.namespaceAlias ++ ".animate.".toList := by simp
  have hspace : ' ' ∉ n.namespaceAlias ++ ".animate.".toList := by
    rw [List.mem_append, not_or]
    exact ⟨name_lacks hn (by decide), by decide⟩
  have habsent : ∀ {x u : Text}, (∀ c ∈ x, Text.isNamePart c = true) →
      x ≠ (n.namespaceAlias ++ ".animate.".toList) ++ u := by
    rintro x u hx rfl
    exact Text.not_mem_of_all hx (x := '.') (by decide) (List.mem_append_left _ hdot)
  refine ⟨members_tame hn he, ?_, ?_, ?_⟩
  · intro b w t hw _ _
    exact swaps_none hs hspace (fun u h => absurd h (habsent hw)) b
  · intro b t _
    refine Or.inl ⟨?_, rfl⟩
    cases hfit : (Substitution.namespaceMembers n).pattern.fits? b
        ((Style.converted n.libraryAlias).root ++ '.' :: t) with
    | none => rfl
    | some parts =>
      obtain ⟨_, _, u, htext, _⟩ := (swaps_fits hs).1 hfit
      have hcut : n.libraryAlias ++ '.' :: t =
          n.namespaceAlias ++ '.' :: ("animate.".toList ++ u) := by
        simpa [Style.converted] using htext
      exact absurd (dot_behind (name_lacks hl (by decide)) (name_lacks hn (by decide)) hcut).symm hne
  · exact swaps_stays hs hspace fun u _ h => absurd h (habsent var_parts)

theorem library_swaps : Swaps (Substitution.libraryTable n) n.libraryAlias
    (firstIs (· == '.')) "data.lib".toList := ⟨rfl, fun _ => rfl⟩

theorem library_tame (hl : Text.isName n.libraryAlias = true) :
    (Substitution.libraryTable n).Tame := by
  obtain ⟨c, v, hcv, _⟩ := Text.name_head hl
  refine swaps_tame library_swaps (by simp [hcv]) (name_chain (Text.name_parts hl))
    ⟨by decide, by decide⟩ ?_
  intro a x hcut
  have hx : x = "lib".toList := one_dot (u := "data".toList) (by decide) (by decide) hcut
  exact Or.inr ⟨'l', "ib".toList, hx, by decide⟩

theorem library_renames (hl : Text.isName n.libraryAlias = true) :
    Renames (Substitution.libraryTable n) (.converted n.libraryAlias) .linked := by
  have hs := library_swaps (n := n)
  have hbehind : ∀ (u : Text) (t : Text), (∀ c ∈ u, Text.isNamePart c = true) →
      (match u ++ ' ' :: t with
        | [] => false
        | c :: _ => c == '.') = false := by
    intro u t hu
    cases u with
    | nil => rfl
    | cons c u =>
      have : c ≠ '.' := by
        rintro rfl
        exact absurd (hu '.' (by simp)) (by decide)
      simpa using this
  refine ⟨library_tame hl, ?_, ?_, ?_⟩
  · intro b w t hw _ _
    exact swaps_none hs (name_lacks hl (by decide))
      (fun u h => hbehind u t fun c hc => hw c (by simp [h, hc])) b
  · exact swaps_turns hs fun _ => rfl
  · refine swaps_stays hs (name_lacks hl (by decide)) fun u t h => hbehind u t fun c hc => ?_
    have hmem : c ∈ n.libraryAlias ++ u := List.mem_append_right _ hc
    rw [← h] at hmem
    exact var_parts c hmem

end

theorem part_not_blank {c : Char} (h : Text.isNamePart c = true) : Text.isBlank c = false := by
  by_contra hb
  rw [Text.blank_not_part (Bool.not_eq_false _ ▸ hb)] at h
  exact Bool.noConfusion h

/-- A word that does not begin another is left alone there. -/
theorem swaps_elsewhere {s : Substitution} {w given x : Text} {ok : Text → Bool}
    (hs : Swaps s w ok given) {sep : Char} (hsep : sep ∉ w) (hw : ¬ w <+: x) : Turns s sep x x :=
  swaps_stays hs hsep fun u _ h => absurd ⟨u, h.symm⟩ hw

theorem shapes_swaps : Swaps Substitution.shapesCache "shapes".toList (firstIs (· == '.'))
    "data.shapes".toList := ⟨rfl, fun _ => rfl⟩

theorem shapes_tame : Substitution.shapesCache.Tame := by
  refine swaps_tame shapes_swaps (by decide) (by decide) ⟨by decide, by decide⟩ fun a x hcut => ?_
  have hx : x = "shapes".toList := one_dot (u := "data".toList) (by decide) (by decide) hcut
  exact Or.inr ⟨'s', "hapes".toList, hx, by decide⟩

theorem shapes_renames : Renames Substitution.shapesCache .linked .linked := by
  have hs := shapes_swaps
  refine ⟨shapes_tame, ?_, ?_, ?_⟩
  · intro b w t hw _ _
    refine swaps_none hs (by decide) (fun u h => ?_) b
    cases u with
    | nil => rfl
    | cons c u =>
      have : c ≠ '.' := by
        rintro rfl
        exact absurd (hw '.' (by simp [h])) (by decide)
      simpa [firstIs] using this
  · exact swaps_elsewhere hs (by decide) (by decide)
  · exact swaps_elsewhere hs (by decide) (by decide)

theorem lookup_swaps : Swaps Substitution.textureLookup "fromFrame".toList
    (fun t => (t.dropWhile Text.isBlank).head? == some '(') "data.getTexture".toList :=
  ⟨rfl, fun _ => rfl⟩

theorem lookup_tame : Substitution.textureLookup.Tame := by
  refine swaps_tame lookup_swaps (by decide) (by decide) ⟨by decide, by decide⟩ fun a x hcut => ?_
  have hx : x = "getTexture".toList := one_dot (u := "data".toList) (by decide) (by decide) hcut
  exact Or.inr ⟨'g', "etTexture".toList, hx, by decide⟩

theorem lookup_renames : Renames Substitution.textureLookup .linked .linked := by
  have hs := lookup_swaps
  refine ⟨lookup_tame, ?_, ?_, ?_⟩
  · intro b w t hw _ ht
    refine swaps_none hs (by decide) (fun u h => ?_) b
    cases u with
    | nil =>
      have hspace : Text.isBlank ' ' = true := by decide
      cases t with
      | nil => simp [hspace]
      | cons d t =>
        simp only [StopsWord, List.head?_cons, Option.all_some, Bool.and_eq_true,
          Bool.not_eq_true', bne_iff_ne] at ht
        simp [hspace, ht.1, ht.2]
    | cons c u =>
      have hpart := hw c (by simp [h])
      have hopen : c ≠ '(' := by
        rintro rfl
        exact absurd hpart (by decide)
      simp [part_not_blank hpart, hopen]
  · exact swaps_elsewhere hs (by decide) (by decide)
  · exact swaps_elsewhere hs (by decide) (by decide)

theorem declarations_swaps : Swaps Substitution.declarations "var".toList (firstIs Text.isBlank)
    "const".toList := ⟨rfl, fun _ => rfl⟩

theorem declarations_tame : Substitution.declarations.Tame := by
  refine swaps_tame declarations_swaps (by decide) (by decide) ⟨by decide, by decide⟩
    fun a x hcut => ?_
  have : '.' ∈ "const".toList := by rw [hcut]; simp
  exact absurd this (by decide)

theorem declarations_renames : Renames Substitution.declarations .linked .final := by
  have hs := declarations_swaps
  refine ⟨declarations_tame, ?_, ?_, ?_⟩
  · intro b w t hw hvar _
    refine swaps_none hs (by decide) (fun u h => ?_) b
    cases u with
    | nil => exact absurd (h.trans (List.append_nil _)) hvar
    | cons c u =>
      simpa [firstIs] using part_not_blank (hw c (by simp [h]))
  · exact swaps_elsewhere hs (by decide) (by decide)
  · exact swaps_turns hs fun _ => (by decide : Text.isBlank ' ' = true)

/-! The primitives of the rendering namespace. -/

section

variable {n : Names}

theorem primitives_fits {b : Option Char} {t : Text} {parts : List Text}
    (h : (Substitution.renderingPrimitives n).pattern.fits? b t = some parts) :
    Pattern.freshName b = true ∧ n.namespaceAlias ++ ['.'] <+: t ∧
      ∃ w ∈ Substitution.primitives, parts = [n.namespaceAlias ++ ['.'], w, []] := by
  obtain ⟨hb, r, hr⟩ := Pattern.fits_some.1 h
  obtain ⟨_, u, _, h1, h2, rfl⟩ := readAll_cons_iff.1 hr
  obtain ⟨w, v, _, h3, h4, rfl⟩ := readAll_cons_iff.1 h2
  obtain ⟨a, _, _, h5, h6, rfl⟩ := readAll_cons_iff.1 h4
  obtain ⟨rfl, _⟩ := readAll_nil_iff.1 h6
  obtain ⟨rfl, rfl⟩ := word_split_iff.1 h1
  have hw : w ∈ Substitution.primitives := by
    obtain ⟨w', hw', hsplit⟩ := List.exists_of_findSome?_eq_some h3
    obtain ⟨_, _, heq⟩ := Option.map_eq_some_iff.1 hsplit
    rwa [← (Prod.mk.inj heq).1]
  exact ⟨hb, List.prefix_append _ _, w, hw, by rw [(ahead_takes.1 h5).2.1]⟩

theorem primitive_word {w : Text} (hw : w ∈ Substitution.primitives) :
    (∀ c ∈ w, Text.isNamePart c = true) ∧ ∃ c v, w = c :: v ∧ c ∉ ['e', 'c', 'a'] := by
  simp only [Substitution.primitives, List.map_cons, List.map_nil, List.mem_cons,
    List.not_mem_nil, or_false] at hw
  rcases hw with rfl | rfl | rfl | rfl <;> exact ⟨by decide, _, _, rfl, by decide⟩

theorem primitives_given (w : Text) (i : Nat) : (Substitution.renderingPrimitives n).replacement
    ⟨i, [n.namespaceAlias ++ ['.'], w, []]⟩ = n.emitted ++ '.' :: w := by
  simp [Substitution.renderingPrimitives, Hit.part]

theorem primitives_tame (hn : Text.isName n.namespaceAlias = true)
    (he : Text.isIdentifier n.emitted = true) : (Substitution.renderingPrimitives n).Tame := by
  obtain ⟨hplain, hmarks⟩ := emitted_marks he
  refine ⟨fun h => (primitives_fits h).1, fun h => ?_, fun i h => ?_, fun i a x h hcut => ?_⟩
  · obtain ⟨_, _, w, hw, rfl⟩ := primitives_fits h
    refine ⟨by simp, fun c hc => ?_⟩
    simp only [List.flatten_cons, List.flatten_nil, List.append_nil, List.mem_append,
      List.mem_singleton] at hc
    rcases hc with (hc | rfl) | hc
    · exact name_chain (Text.name_parts hn) c hc
    · decide
    · exact name_chain (primitive_word hw).1 c hc
  · obtain ⟨_, _, w, hw, rfl⟩ := primitives_fits h
    rw [primitives_given]
    refine ⟨by simp, fun c hc => ?_⟩
    rcases List.mem_append.1 hc with hc | hc
    · exact hmarks c (by simp [hc])
    · rcases List.mem_cons.1 hc with rfl | hc
      · decide
      · exact Substitution.chain_plain (name_chain (primitive_word hw).1 c hc)
  · obtain ⟨_, _, w, hw, rfl⟩ := primitives_fits h
    obtain ⟨hparts, hhead⟩ := primitive_word hw
    rw [primitives_given] at hcut
    rw [one_dot hplain (Text.not_mem_of_all hparts (by decide)) hcut]
    exact Or.inr hhead

theorem primitives_renames (hn : Text.isName n.namespaceAlias = true)
    (hl : Text.isName n.libraryAlias = true) (hne : n.namespaceAlias ≠ n.libraryAlias)
    (he : Text.isIdentifier n.emitted = true) :
    Renames (Substitution.renderingPrimitives n) (.converted n.libraryAlias)
      (.converted n.libraryAlias) := by
  have hnone : ∀ {b : Option Char} {x : Text} {t : Text}, (∀ c ∈ x, Text.isNamePart c = true) →
      (Substitution.renderingPrimitives n).pattern.fits? b (x ++ ' ' :: t) = none := by
    intro b x t hx
    cases hfit : (Substitution.renderingPrimitives n).pattern.fits? b (x ++ ' ' :: t) with
    | none => rfl
    | some parts =>
      have hspace : ' ' ∉ n.namespaceAlias ++ ['.'] := by
        rw [List.mem_append, not_or]
        exact ⟨name_lacks hn (by decide), by decide⟩
      have hpre := Text.prefix_of_not_mem hspace (primitives_fits hfit).2.1
      exact absurd (hpre.subset (List.mem_append_right _ (List.mem_singleton.2 rfl)))
        (Text.not_mem_of_all hx (by decide))
  refine ⟨primitives_tame hn he, fun hw _ _ => hnone hw, ?_, ?_⟩
  · intro b t _
    refine Or.inl ⟨?_, rfl⟩
    cases hfit : (Substitution.renderingPrimitives n).pattern.fits? b
        ((Style.converted n.libraryAlias).root ++ '.' :: t) with
    | none => rfl
    | some parts =>
      obtain ⟨u, hu⟩ := (primitives_fits hfit).2.1
      rw [List.append_assoc] at hu
      exact absurd (dot_behind (name_lacks hn (by decide)) (name_lacks hl (by decide)) hu) hne
  · exact fun b t _ => Or.inl ⟨hnone var_parts, rfl⟩

end

/-! All substitutions. -/

/-- A chain of substitutions from one style to another. -/
inductive Turning (e : Export) : List Substitution → Style → Style → Prop
  | done (σ : Style) : Turning e [] σ σ
  | step {s : Substitution} {ss : List Substitution} {σ σ' σ'' : Style} :
    Handles s e σ σ' → σ.Proper → Turning e ss σ' σ'' → Turning e (s :: ss) σ σ''

theorem run_all_cons (s : Substitution) (ss : List Substitution) (t : Text) :
    (Substitution.runAll (s :: ss) t).2 = (Substitution.runAll ss (s.run t).1).2 := rfl

theorem run_turning {e : Export} (he : e.Formed) {ss : List Substitution} {σ σ' : Style}
    (h : Turning e ss σ σ') {front back : List Row} (hfront : ∀ r ∈ front, r.Fine)
    (hback : ∀ r ∈ back, r.Fine) : ∃ front' back',
    (Substitution.runAll ss (e.rewrittenBody σ front back)).2 = e.rewrittenBody σ' front' back' ∧
      Kept front front' ∧ Kept back back' := by
  induction h generalizing front back with
  | done σ => exact ⟨front, back, rfl, kept_self hfront, kept_self hback⟩
  | step hs hσ _ ih =>
    obtain ⟨front', back', hrun, hf, hb⟩ := run_rewritten hs hσ he hfront hback
    obtain ⟨front'', back'', hrest, hf', hb'⟩ := ih hf.fine hb.fine
    exact ⟨front'', back'', by rw [run_all_cons, hrun, hrest], kept_trans hf hf',
      kept_trans hb hb'⟩

/-- The substitutions bring a converted body to its final style. -/
theorem rename_rewritten {e : Export} (he : e.Formed) {emitted : Text}
    (hemitted : Text.isIdentifier emitted = true) {front back : List Row}
    (hfront : ∀ r ∈ front, r.Fine) (hback : ∀ r ∈ back, r.Fine) : ∃ front' back',
    (Substitution.runAll (Substitution.all ⟨e.namespaceAlias, e.libraryAlias, emitted⟩)
        (e.rewrittenBody (.converted e.libraryAlias) front back)).2 =
      e.rewrittenBody .final front' back' ∧ Kept front front' ∧ Kept back back' := by
  have hn := he.namespaceAlias
  have hl := he.libraryAlias
  have hconverted := converted_proper hl
  have hchain : Turning e (Substitution.all ⟨e.namespaceAlias, e.libraryAlias, emitted⟩)
      (.converted e.libraryAlias) .final :=
    .step (drops_handles (shapes_drops hn) he hconverted) hconverted
      (.step (drops_handles (from_frame_drops hn) he hconverted) hconverted
      (.step (renames_handles (members_renames hn hl he.distinct hemitted) hconverted he) hconverted
      (.step (renames_handles (primitives_renames hn hl he.distinct hemitted) hconverted he)
        hconverted
      (.step (renames_handles (library_renames hl) hconverted he) hconverted
      (.step (renames_handles shapes_renames linked_proper he) linked_proper
      (.step (renames_handles lookup_renames linked_proper he) linked_proper
      (.step (renames_handles declarations_renames linked_proper he) linked_proper
      (.done _))))))))
  exact run_turning he hchain hfront hback

end Legacy
end Restage
