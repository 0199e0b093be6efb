import Restage.Proofs.CarriedWords
import Restage.Proofs.ParallelCode

/-!
What the substitutions of references replace. A run of a substitution cuts the text into cells
(`run_goes`): stretches at code are replaced where the pattern fits, and it fits at no other code.
Six substitutions exchange a word for another (`Exchange`), two drop bindings.
-/

set_option autoImplicit false

namespace Restage.Legacy.Substitution

open Text (endOf)

/-- The fits that a substitution replaces. -/
def codeHits (s : Substitution) (t : Text) : List Hit :=
  (s.pattern.hits t.entire).filter fun h => Script.isCode t h.start

theorem run_hits (s : Substitution) (t : Text) : s.run t =
    (Edit.splice 0 t ((s.codeHits t).map fun h => ⟨h.span, s.replacement h⟩),
      (s.codeHits t).length) := by
  have hhits : (s.pattern.hits t.entire).filter (fun h =>
      (Script.codeMask t).toArray.getD h.start true) = s.codeHits t := by
    simp [codeHits, Script.isCode]
  simp only [run, hhits]

/-- Without fits at code the text stays. -/
theorem run_nothing {s : Substitution} {t : Text} (h : s.codeHits t = []) : s.run t = (t, 0) := by
  rw [run_hits, h]
  rfl

/-! Cells. -/

/-- The cells of a substitution behind a text, for the marks of what follows: stretches at code are
replaced, and the pattern fits at no other code. -/
inductive Goes (s : Substitution) (r : Change) : Text → List Bool → List Cell → Prop
  | done (u : Text) (ms : List Bool) : Goes s r u ms []
  | keep {u : Text} {ms : List Bool} {c : Char} {cells : List Cell} :
    (ms.headD true = true → s.pattern.fits? u.getLast? (c :: oldText cells) = none) →
    Goes s r (u ++ [c]) ms.tail cells → Goes s r u ms (.keep c :: cells)
  | swap {u : Text} {ms : List Bool} {old new : Text} {cells : List Cell} : ms.headD true = true →
    r u old new (oldText cells) → Goes s r (u ++ old) (ms.drop old.length) cells →
    Goes s r u ms (.swap old new :: cells)

/-- A substitution whose fits do not begin inside one another, and which makes a change at the head
of each fit. -/
structure Cuts (s : Substitution) (r : Change) : Prop where
  taken : ∀ {b t parts}, s.pattern.fits? b t = some parts → parts.flatten ≠ []
  apart : ∀ {b t parts} {a v : Text}, s.pattern.fits? b t = some parts → parts.flatten = a ++ v →
    a ≠ [] → v ≠ [] → s.pattern.behind a.getLast? = false
  cut : ∀ {u t parts}, s.pattern.fits? u.getLast? t = some parts → ∃ old new v, t = old ++ v ∧
    old ≠ [] ∧ r u old new v ∧ ∀ ms i, ms.getD i true = true → s.spread ms u.getLast? i t =
      new ++ s.spread ms (u ++ old).getLast? (i + old.length) v

variable {s : Substitution} {r : Change}

theorem fits_flatten {b : Option Char} {t : Text} {parts : List Text}
    (h : s.pattern.fits? b t = some parts) : ∃ v, t = parts.flatten ++ v := by
  obtain ⟨_, v, hv⟩ := Pattern.fits_some.1 h
  exact ⟨v, Piece.readAll_flatten hv⟩

theorem last_append (u v : Text) : (u ++ v).getLast? = endOf u.getLast? v := by
  rw [← Text.endOf_last, ← Text.endOf_last, Text.endOf_append]

theorem drop_headD (ms : List Bool) (i : Nat) : (ms.drop i).headD true = ms.getD i true := by
  rw [List.headD_eq_head?_getD, List.head?_drop, List.getD_eq_getElem?_getD]

section

variable (hs : s.Cuts r)
include hs

theorem fits_nothing (b : Option Char) : s.pattern.fits? b [] = none := by
  cases h : s.pattern.fits? b [] with
  | none => rfl
  | some parts =>
    obtain ⟨v, hv⟩ := fits_flatten h
    exact absurd (List.append_eq_nil_iff.1 hv.symm).1 (hs.taken h)

theorem spread_nothing (ms : List Bool) (b : Option Char) (i : Nat) : s.spread ms b i [] = [] := by
  rw [spread, editsFrom, Pattern.hitsFrom, fits_nothing hs]
  rfl

omit hs in
/-- A stretch in which no fit begins at code. -/
theorem goes_kept {u w : Text} {ms : List Bool} {cells : List Cell}
    (hw : ∀ a c v, w = a ++ c :: v → (ms.drop a.length).headD true = true →
      s.pattern.fits? (u ++ a).getLast? (c :: (v ++ oldText cells)) = none)
    (h : Goes s r (u ++ w) (ms.drop w.length) cells) : Goes s r u ms (w.map .keep ++ cells) := by
  induction w generalizing u ms with
  | nil => simpa using h
  | cons c w ih =>
    refine .keep (fun hcode => ?_) (ih (fun a d v hcut hcode => ?_) ?_)
    · have hfit := hw [] c w rfl (by simpa using hcode)
      change s.pattern.fits? u.getLast? (c :: oldText (w.map .keep ++ cells)) = none
      rw [old_text_append, old_text_kept]
      simpa using hfit
    · have hfit := hw (c :: a) d v (by rw [hcut]; rfl) (by simpa using hcode)
      simpa using hfit
    · simpa using h

theorem spread_goes (ms : List Bool) (u t : Text) : ∃ cells, oldText cells = t ∧
    newText cells = s.spread ms u.getLast? u.length t ∧
      Goes s r u (ms.drop u.length) cells := by
  induction hn : t.length using Nat.strongRecOn generalizing u t with
  | ind n ih =>
    subst hn
    cases t with
    | nil => exact ⟨[], rfl, (spread_nothing hs ms _ _).symm, .done _ _⟩
    | cons c t =>
      cases hfit : s.pattern.fits? u.getLast? (c :: t) with
      | none =>
        obtain ⟨cells, hold, hnew, hgoes⟩ := ih t.length (by simp) (u ++ [c]) t rfl
        refine ⟨.keep c :: cells, by rw [old_text_keep, hold], ?_,
          .keep (fun _ => by rwa [hold]) ?_⟩
        · rw [spread_step hfit, new_text_keep, hnew, List.getLast?_concat, List.length_append]
          rfl
        · simpa [List.tail_drop] using hgoes
      | some parts =>
        cases hcode : ms.getD u.length true with
        | true =>
          obtain ⟨old, new, v, hv, hne, hrel, hspread⟩ := hs.cut hfit
          have hpos := List.length_pos_iff.2 hne
          have hlen := congrArg List.length hv
          rw [List.length_append] at hlen
          obtain ⟨cells, hold, hnew, hgoes⟩ := ih v.length (by omega) (u ++ old) v rfl
          rw [List.length_append] at hnew
          rw [List.length_append, ← List.drop_drop] at hgoes
          refine ⟨.swap old new :: cells, by rw [old_text_swap, hold, hv], ?_,
            .swap ((drop_headD _ _).trans hcode) (by rwa [hold]) hgoes⟩
          rw [hspread ms u.length hcode, new_text_swap, hnew]
        | false =>
          have hne := hs.taken hfit
          have hpos := List.length_pos_iff.2 hne
          obtain ⟨v, hv⟩ := fits_flatten hfit
          have hlen := congrArg List.length hv
          rw [List.length_append] at hlen
          rw [hv] at hfit ⊢
          obtain ⟨cells, hold, hnew, hgoes⟩ := ih v.length (by omega) (u ++ parts.flatten) v rfl
          rw [List.length_append, last_append] at hnew
          rw [List.length_append, ← List.drop_drop] at hgoes
          refine ⟨parts.flatten.map .keep ++ cells, by rw [old_text_append, old_text_kept, hold],
            ?_, goes_kept (fun a d w hcut hm => ?_) hgoes⟩
          · rw [spread_masked hne hfit rfl hcode, new_text_append, new_text_kept, hnew]
          · rcases eq_or_ne a [] with rfl | ha
            · rw [List.length_nil, List.drop_zero, drop_headD, hcode] at hm
              exact Bool.noConfusion hm
            · have hbehind := hs.apart hfit hcut ha (by simp)
              rw [List.getLast?_append_of_ne_nil u ha, Pattern.fits?, hbehind]
              rfl

theorem run_goes (t : Text) : ∃ cells, oldText cells = t ∧ newText cells = (s.run t).1 ∧
    Goes s r [] (Script.codeMask t) cells := by
  rw [run_spread]
  exact spread_goes hs (Script.codeMask t) [] t

end

section

variable {u : Text} {ms : List Bool} {cells : List Cell}

theorem goes_unmasked (h : Goes s r u ms cells) : Unmasked ms cells := by
  induction h with
  | done => exact trivial
  | keep _ _ ih => exact ih
  | swap hcode _ _ ih => exact ⟨hcode, ih⟩

/-- What is true of the changes at code. -/
theorem goes_woven {r' : Change} (h : Goes s r u ms cells)
    (hr : ∀ a old new v, oldText cells = a ++ (old ++ v) → (ms.drop a.length).headD true = true →
      r (u ++ a) old new v → r' (u ++ a) old new v) : Woven r' u cells := by
  induction h with
  | done => exact .done _
  | @keep u ms c cells _ _ ih =>
    refine .keep (ih fun a old new v hcut hcode hrel => ?_)
    have hall := hr (c :: a) old new v (by rw [old_text_keep, hcut]; rfl) (by simpa using hcode)
    rw [List.append_assoc] at hrel ⊢
    exact hall hrel
  | @swap u ms old new cells hcode hrel _ ih =>
    refine .swap ?_ (ih fun a old' new' v hcut hcode' hrel' => ?_)
    · have hall := hr [] old new _ rfl (by simpa using hcode)
      rw [List.append_nil] at hall
      exact hall hrel
    · have hall := hr (old ++ a) old' new' v (by rw [old_text_swap, hcut, List.append_assoc])
        (by rwa [List.length_append, ← List.drop_drop])
      rw [List.append_assoc] at hrel' ⊢
      exact hall hrel'

end

/-! Words in the place of words. -/

/-- A substitution that exchanges a word for another where a name can begin. -/
structure Exchange (s : Substitution) (x y : Text) : Prop where
  tame : s.Tame
  behind : s.pattern.behind = Pattern.freshName
  nonempty : x ≠ []
  chain : ∀ c ∈ x, isChain c = true
  cut : ∀ {b t parts}, s.pattern.fits? b t = some parts → ∃ v, t = x ++ v ∧ ∀ ms i,
    ms.getD i true = true → s.spread ms b i t = y ++ s.spread ms (endOf b x) (i + x.length) v

/-- The change that it makes. -/
def Exchanges (s : Substitution) (x y : Text) : Change := fun u old new v =>
  old = x ∧ new = y ∧ s.pattern.fits? u.getLast? (x ++ v) ≠ none

theorem exchange_cuts {x y : Text} (hs : s.Exchange x y) : s.Cuts (s.Exchanges x y) := by
  refine ⟨fun h => (hs.tame.taken h).1, fun {b t parts a v} h hcut ha _ => ?_,
    fun {u t parts} h => ?_⟩
  · have hall := (hs.tame.taken h).2
    rw [hcut] at hall
    rw [hs.behind, ← Text.endOf_last]
    exact chain_end ha fun c hc => hall c (List.mem_append_left _ hc)
  · obtain ⟨v, rfl, hspread⟩ := hs.cut h
    refine ⟨x, y, v, rfl, hs.nonempty, ⟨rfl, rfl, by simp [h]⟩, fun ms i hcode => ?_⟩
    rw [last_append]
    exact hspread ms i hcode

section

variable {w given : Text} {ok : Text → Bool}

theorem swaps_exchange (hs : Swaps s w ok given) (htame : s.Tame) (hne : w ≠ [])
    (hw : ∀ c ∈ w, isChain c = true) : s.Exchange w given := by
  refine ⟨htame, by rw [hs.pattern], hne, hw, fun {b t parts} h => ?_⟩
  obtain ⟨_, rfl, v, rfl, _⟩ := (swaps_fits hs).1 h
  refine ⟨v, rfl, fun ms i hcode => ?_⟩
  rw [spread_fit ms hne h (by simp) hcode, hs.replacement]

/-- A dot behind the word belongs to both. -/
theorem dotted_exchange (hs : Swaps s w (firstIs (· == '.')) given) (htame : s.Tame) (hne : w ≠ [])
    (hw : ∀ c ∈ w, isChain c = true) : s.Exchange (w ++ ['.']) (given ++ ['.']) := by
  have hdot : ∀ c ∈ ['.'], isChain c = true := by decide
  refine ⟨htame, by rw [hs.pattern], by simp, fun c hc => ?_, fun {b t parts} h => ?_⟩
  · exact (List.mem_append.1 hc).elim (hw c) (hdot c)
  · obtain ⟨_, rfl, v, rfl, hok⟩ := (swaps_fits hs).1 h
    obtain ⟨v, rfl⟩ : ∃ v', v = '.' :: v' := by
      cases v with
      | nil => exact Bool.noConfusion hok
      | cons c v => exact ⟨v, by rw [show c = '.' by simpa [firstIs] using hok]⟩
    refine ⟨v, by simp, fun ms i hcode => ?_⟩
    have hsilent := tame_bound htame (chain_end (b := b) hne hw) hdot v
    have hstep := spread_silent ms hsilent (i + w.length)
    rw [List.singleton_append] at hstep
    rw [spread_fit ms hne h (by simp) hcode, hs.replacement, hstep, Text.endOf_append]
    simp [Nat.add_assoc]

end

end Restage.Legacy.Substitution

namespace Restage

/-! Names. -/

namespace Text

theorem part_name_char {c : Char} (h : isNamePart c = true) : Script.isNameChar c = true := by
  obtain ⟨hline, hspace⟩ := unspaced (p := isNamePart) (by decide +kernel) (by decide +kernel) h
  by_cases hc : c.toNat < 128
  · simp only [isNamePart, isWord, if_pos hc, Bool.or_eq_true] at h
    rcases h with (h | h) | h <;> simp [Script.isNameChar, h]
  · simp [Script.isNameChar, hline, hspace, Nat.le_of_not_lt hc]

theorem blank_not_name {c : Char} (h : isBlank c = true) : Script.isNameChar c = false := by
  have hall : ∀ n ∈ blankCodes, Script.isNameChar (Char.ofNat n) = false := by decide +kernel
  rw [← Char.ofNat_toNat c]
  exact hall _ (blank_code h)

theorem start_not_digit {c : Char} (h : isNameStart c = true) : isDigit c = false := by
  by_contra hd
  rw [Bool.not_eq_false] at hd
  simp only [isDigit, Bool.and_eq_true, decide_eq_true_eq, Char.le_def,
    UInt32.le_iff_toNat_le] at hd
  have h0 : '0'.val.toNat = 48 := rfl
  have h9 : '9'.val.toNat = 57 := rfl
  have hall : ∀ n ∈ List.range' 48 10, isNameStart (Char.ofNat n) = false := by decide +kernel
  have hrange : c.toNat ∈ List.range' 48 10 := by
    have hcode : c.toNat = c.val.toNat := rfl
    rw [List.mem_range'_1]
    omega
  have hnone := hall _ hrange
  rw [Char.ofNat_toNat, h] at hnone
  exact Bool.noConfusion hnone

end Text

namespace Script

theorem plain_mild {c : Char} (h : Legacy.Substitution.isPlainMark c = true) : isMild c = true := by
  have hall : ∀ x ∈ literalMarks, Legacy.Substitution.isPlainMark x = false := by decide
  rw [isMild, Bool.not_eq_true', List.contains_eq_mem, decide_eq_false_iff_not]
  intro hc
  rw [hall c hc] at h
  exact Bool.noConfusion h

theorem name_plain {t : Text} (ht : Text.isName t = true) (hne : t ≠ "extends".toList) :
    PlainName t := by
  refine ⟨⟨fun c hc => Text.part_name_char (Text.name_parts ht c hc), ?_⟩, hne⟩
  obtain ⟨c, u, rfl, hc⟩ := Text.name_head ht
  have hchar := Text.part_name_char (Text.start_part hc)
  obtain ⟨hline, hspace⟩ := name_char_unspaced hchar
  refine ⟨c, u, rfl, hline, hspace, Text.start_not_digit hc, ?_⟩
  rintro rfl
  exact absurd hc (by decide)

theorem name_mild {t : Text} (ht : Text.isName t = true) (hne : t ≠ "extends".toList) :
    MildName t :=
  ⟨.name (name_plain ht hne), fun c hc =>
    plain_mild (Legacy.Substitution.chain_plain (Legacy.name_chain (Text.name_parts ht) c hc))⟩

/-- A member of the data object. -/
theorem data_mild {w : Text} (hw : Text.isName w = true) (hne : w ≠ "extends".toList) :
    MildName ("data".toList ++ '.' :: w) := by
  refine ⟨.member data_plain (.name (name_plain hw hne)), fun c hc => ?_⟩
  rcases List.mem_append.1 hc with hc | hc
  · exact (by decide : ∀ c ∈ "data".toList, isMild c = true) c hc
  · rcases List.mem_cons.1 hc with rfl | hc
    · decide
    · exact (name_mild hw hne).mild c hc

end Script

namespace Legacy

open Script

/-- Names that the lexer takes for plain names. -/
structure Names.Plain (n : Names) : Prop where
  namespaceAlias : Text.isName n.namespaceAlias = true
  libraryAlias : Text.isName n.libraryAlias = true
  emitted : Text.isIdentifier n.emitted = true
  other : "extends".toList ∉ [n.namespaceAlias, n.libraryAlias, n.emitted]

/-- The names of a usual setup. -/
def usualNames : Names := ⟨"PIXI".toList, "lib".toList, "animate".toList⟩

theorem usual_names_plain : usualNames.Plain := ⟨by decide, by decide, by decide, by decide⟩

namespace Names.Plain

variable {n : Names} (hn : n.Plain)
include hn

theorem apart {w : Text} (hw : w ∈ [n.namespaceAlias, n.libraryAlias, n.emitted]) :
    w ≠ "extends".toList := by
  rintro rfl
  exact hn.other hw

theorem namespace_mild : MildName n.namespaceAlias :=
  name_mild hn.namespaceAlias (hn.apart (by simp))

theorem library_some : n.libraryAlias ≠ [] := by
  intro h
  have hname := hn.libraryAlias
  rw [h] at hname
  exact Bool.noConfusion hname

theorem library_mild : MildName n.libraryAlias := name_mild hn.libraryAlias (hn.apart (by simp))

theorem emitted_mild : MildName n.emitted :=
  ⟨.name ⟨identifier_word hn.emitted, hn.apart (by simp)⟩, fun c hc =>
    plain_mild ((emitted_marks hn.emitted).2 c (List.mem_append_left _ hc))⟩

end Names.Plain

namespace Substitution

/-- The substitutions that drop bindings. -/
def drops (n : Names) : List Substitution := [dropShapes n, dropFromFrame n]

/-- The substitutions that rename. -/
def links (n : Names) : List Substitution :=
  [namespaceMembers n, renderingPrimitives n, libraryTable n, shapesCache, textureLookup,
    declarations]

theorem all_parts (n : Names) : all n = drops n ++ links n := rfl

/-- A stretch that fits, and what takes its place. -/
def Replaces (s : Substitution) : Change := fun u old new v => ∃ parts,
  s.pattern.fits? u.getLast? (old ++ v) = some parts ∧ parts.flatten = old ∧
    s.replacement ⟨u.length, parts⟩ = new

/-- An exchange of words that the lexer can follow. -/
structure Rewords (s : Substitution) (x y : Text) : Prop where
  exchange : s.Exchange x y
  given : y ≠ []
  reword : ∀ {u v}, s.pattern.fits? u.getLast? (x ++ v) ≠ none → Reword u x y v
  called : x = "fromFrame".toList → ∀ {u v}, s.pattern.fits? u.getLast? (x ++ v) ≠ none →
    s.Replaces u x y v

section

variable {n : Names} {s : Substitution} {x y u v : Text}

theorem exchange_fresh (hs : s.Exchange x y) (h : s.pattern.fits? u.getLast? (x ++ v) ≠ none) :
    Pattern.freshName u.getLast? = true := by
  obtain ⟨parts, hfit⟩ := Option.ne_none_iff_exists'.1 h
  exact hs.tame.fresh hfit

theorem link_rewords (hs : s.Exchange (x ++ ['.']) (y ++ ['.'])) (hx : MildName x)
    (hy : MildName y) : s.Rewords (x ++ ['.']) (y ++ ['.']) :=
  ⟨hs, by simp, fun h => .link (exchange_fresh hs h) hx hy, fun hcalled _ _ _ => by
    have hlast := congrArg List.getLast? hcalled
    rw [List.getLast?_concat] at hlast
    exact absurd hlast (by decide)⟩

theorem members_exchange (hn : Text.isName n.namespaceAlias = true)
    (he : Text.isIdentifier n.emitted = true) : (namespaceMembers n).Exchange
      (n.namespaceAlias ++ ".animate.".toList) (n.emitted ++ ['.']) :=
  swaps_exchange members_swaps (members_tame hn he) (by simp) (members_chain hn)

theorem members_rewords (hn : n.Plain) :
    (namespaceMembers n).Rewords (n.namespaceAlias ++ ".animate.".toList) (n.emitted ++ ['.']) := by
  have hword : n.namespaceAlias ++ ".animate.".toList =
      (n.namespaceAlias ++ '.' :: "animate".toList) ++ ['.'] := by simp
  have hex := members_exchange hn.namespaceAlias hn.emitted
  rw [hword] at hex ⊢
  have hqualified : Qualified (n.namespaceAlias ++ '.' :: "animate".toList) :=
    .member (name_plain hn.namespaceAlias (hn.apart (by simp)))
      (.name (name_plain (by decide) (by decide)))
  refine link_rewords hex ⟨hqualified, fun c hc => ?_⟩ hn.emitted_mild
  rcases List.mem_append.1 hc with hc | hc
  · exact hn.namespace_mild.mild c hc
  · exact (by decide : ∀ c ∈ '.' :: "animate".toList, isMild c = true) c hc

theorem primitives_exchange (hn : Text.isName n.namespaceAlias = true)
    (he : Text.isIdentifier n.emitted = true) :
    (renderingPrimitives n).Exchange (n.namespaceAlias ++ ['.']) (n.emitted ++ ['.']) := by
  have htame := primitives_tame hn he
  have hchain : ∀ c ∈ n.namespaceAlias ++ ['.'], isChain c = true := by
    intro c hc
    rcases List.mem_append.1 hc with hc | hc
    · exact name_chain (Text.name_parts hn) c hc
    · exact (by decide : ∀ c ∈ ['.'], isChain c = true) c hc
  refine ⟨htame, rfl, by simp, hchain, fun {b t parts} h => ?_⟩
  obtain ⟨_, _, w, hw, rfl⟩ := primitives_fits h
  obtain ⟨v, rfl⟩ := fits_flatten h
  refine ⟨w ++ v, by simp, fun ms i hcode => ?_⟩
  have hsilent := tame_bound htame (chain_end (b := b) (by simp) hchain)
    (name_chain (primitive_word hw).1) v
  rw [spread_fit ms (htame.taken h).1 h rfl hcode, primitives_given,
    spread_silent ms hsilent, ← Text.endOf_append]
  simp [Nat.add_assoc, Nat.add_comm 1]

theorem primitives_rewords (hn : n.Plain) : (renderingPrimitives n).Rewords
    (n.namespaceAlias ++ ['.']) (n.emitted ++ ['.']) :=
  link_rewords (primitives_exchange hn.namespaceAlias hn.emitted) hn.namespace_mild hn.emitted_mild

theorem library_rewords (hn : n.Plain) : (libraryTable n).Rewords (n.libraryAlias ++ ['.'])
    ("data.lib".toList ++ ['.']) :=
  link_rewords (dotted_exchange library_swaps (library_tame hn.libraryAlias)
    hn.library_some (name_chain (Text.name_parts hn.libraryAlias))) hn.library_mild
    (data_mild (w := "lib".toList) (by decide) (by decide))

theorem shapes_rewords : shapesCache.Rewords ("shapes".toList ++ ['.'])
    ("data.shapes".toList ++ ['.']) :=
  link_rewords (dotted_exchange shapes_swaps shapes_tame (by decide) (by decide))
    (name_mild (by decide) (by decide)) (data_mild (w := "shapes".toList) (by decide) (by decide))

theorem lookup_rewords : textureLookup.Rewords "fromFrame".toList "data.getTexture".toList := by
  have hex := swaps_exchange lookup_swaps lookup_tame (by decide) (by decide)
  refine ⟨hex, by decide, fun {u v} h => .call (exchange_fresh hex h) ?_, fun _ {u v} h => ?_⟩
  swap
  · obtain ⟨parts, hfit⟩ := Option.ne_none_iff_exists'.1 h
    obtain ⟨_, rfl, _⟩ := (swaps_fits lookup_swaps).1 hfit
    exact ⟨_, hfit, by simp, rfl⟩
  obtain ⟨parts, hfit⟩ := Option.ne_none_iff_exists'.1 h
  obtain ⟨_, _, v', hv, hok⟩ := (swaps_fits lookup_swaps).1 hfit
  rw [← List.append_cancel_left hv] at hok
  cases v with
  | nil => rfl
  | cons c v =>
    rw [EndsName, List.head?_cons, Option.all_some, Bool.not_eq_true']
    cases hc : Text.isBlank c with
    | true => exact Text.blank_not_name hc
    | false =>
      have hopen : c = '(' := by simpa [hc] using hok
      rw [hopen]
      decide

theorem declarations_rewords : declarations.Rewords "var".toList "const".toList := by
  have hex := swaps_exchange declarations_swaps declarations_tame (by decide) (by decide)
  refine ⟨hex, by decide, fun {u v} h => .bind (exchange_fresh hex h) ?_,
    fun hcalled => absurd hcalled (by decide)⟩
  obtain ⟨parts, hfit⟩ := Option.ne_none_iff_exists'.1 h
  obtain ⟨_, _, v', hv, hok⟩ := (swaps_fits declarations_swaps).1 hfit
  rw [← List.append_cancel_left hv] at hok
  cases v with
  | nil => rfl
  | cons c v => simp [EndsName, Text.blank_not_name hok]

end

end Substitution

end Legacy

end Restage
