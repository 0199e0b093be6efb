import Restage.Proofs.ReferencePasses

/-!
The literals of a script behind the substitutions of references. A substitution keeps them where it
leaves alone what the lexer goes by (`Gentle`, `Sheds`), so all eight keep them
(`rename_keeps_literals`).
-/

set_option autoImplicit false

namespace Restage

namespace Script

/-- The texts of the literals of a script, in order. -/
def literalTexts (t : Text) : List Text := (literalSpans t).map (Text.slice t)

theorem spans_texts (u : Text) (xs : List Lexeme) :
    (spansFrom u.length xs).map (Text.slice (u ++ xs.flatMap (·.text))) =
      (xs.filter (·.kind.isLiteral)).map (·.text) := by
  induction xs generalizing u with
  | nil => rfl
  | cons x xs ih =>
    have hrest := ih (u ++ x.text)
    rw [List.length_append, List.append_assoc] at hrest
    rw [spansFrom, List.flatMap_cons]
    cases hx : x.kind.isLiteral with
    | false => simpa [hx] using hrest
    | true =>
      have hslice : Text.slice (u ++ (x.text ++ xs.flatMap (·.text)))
          ⟨u.length, u.length + x.text.length⟩ = x.text := by
        rw [Text.slice, ← List.append_assoc, ← List.length_append, List.take_left, List.drop_left]
      rw [if_pos rfl, List.map_cons, hslice, hrest, List.filter_cons, if_pos hx, List.map_cons]

theorem literal_texts (t : Text) :
    literalTexts t = ((lexemes t).filter (·.kind.isLiteral)).map (·.text) := by
  have htexts := spans_texts [] (lexemes t)
  rwa [List.nil_append, flatMap_lexemes] at htexts

end Script

namespace Legacy.Substitution

open Script

/-- A condition on every substitution and the text that it runs on. -/
def Along (p : Substitution → Text → Prop) : List Substitution → Text → Prop
  | [], _ => True
  | s :: ss, t => p s t ∧ Along p ss (s.run t).1

/-- A text in which a substitution that renames leaves alone what the lexer goes by: no fit stands
right behind a regular expression, and a called name that is replaced is a value. -/
structure Gentle (s : Substitution) (t : Text) : Prop where
  flags : ∀ e ∈ entries t, e.step.kind = .regex →
    s.pattern.fits? (e.front ++ e.lexeme.text).getLast? e.behind = none
  calls : ∀ e ∈ entries t, e.step.kind = .name → ∀ p, e.lexeme.text = p ++ "fromFrame".toList →
    s.Replaces (e.front ++ p) "fromFrame".toList "data.getTexture".toList e.behind →
      (e.state.name e.lexeme.text).place = .operator

/-- A text from which a substitution drops whole lines: they begin behind the end of a line, end
with it or with the text, and the lexer stands in front of them as behind a statement. -/
structure Sheds (s : Substitution) (t : Text) : Prop where
  lines : ∀ u line v, t = u ++ (line ++ v) → isCode t u.length = true → s.Replaces u line [] v →
    LineFront u ∧ (EndsIn isLineEnd line ∨ v = [])
  statements : ∀ e ∈ entries t, ∀ line v, e.char :: e.rest = line ++ v →
    s.Replaces e.front line [] v → e.state.semicolon.blank true = e.state
  first : Interpreted (s.run t).1 → Interpreted t

variable {s : Substitution} {t : Text}

/-! The conditions can be computed. -/

instance (s : Substitution) (u old new v : Text) : Decidable (s.Replaces u old new v) :=
  decidable_of_iff (∃ parts ∈ s.pattern.fits? u.getLast? (old ++ v), parts.flatten = old ∧
    s.replacement ⟨u.length, parts⟩ = new) (by simp only [Option.mem_def]; rfl)

theorem gentle_iff : s.Gentle t ↔ ∀ e ∈ entries t,
    (e.step.kind = .regex →
      s.pattern.fits? (e.front ++ e.lexeme.text).getLast? e.behind = none) ∧
    (e.step.kind = .name → "fromFrame".toList <:+ e.lexeme.text →
      s.Replaces (e.front ++ e.lexeme.text.take (e.lexeme.text.length - 9)) "fromFrame".toList
        "data.getTexture".toList e.behind → (e.state.name e.lexeme.text).place = .operator) := by
  have hlen : "fromFrame".toList.length = 9 := rfl
  constructor
  · intro h e he
    refine ⟨h.flags e he, fun hk ⟨p, hp⟩ => ?_⟩
    have hcut : e.lexeme.text.take (e.lexeme.text.length - 9) = p := by
      rw [← hp, List.length_append, hlen, Nat.add_sub_cancel, List.take_left]
    rw [hcut]
    exact h.calls e he hk p hp.symm
  · intro h
    refine ⟨fun e he => (h e he).1, fun e he hk p hp hrel => ?_⟩
    refine (h e he).2 hk ⟨p, hp.symm⟩ ?_
    have hcut : e.lexeme.text.take (e.lexeme.text.length - 9) = p := by
      rw [hp, List.length_append, hlen, Nat.add_sub_cancel, List.take_left]
    rwa [hcut]

instance (s : Substitution) (t : Text) : Decidable (s.Gentle t) :=
  decidable_of_iff _ gentle_iff.symm

theorem sheds_iff : s.Sheds t ↔
    (∀ i < t.length + 1, isCode t i = true →
      ∀ parts ∈ s.pattern.fits? (t.take i).getLast? (t.drop i), s.replacement ⟨i, parts⟩ = [] →
        LineFront (t.take i) ∧
        (EndsIn isLineEnd parts.flatten ∨ t.drop (i + parts.flatten.length) = [])) ∧
    (∀ e ∈ entries t, ∀ parts ∈ s.pattern.fits? e.front.getLast? (e.char :: e.rest),
      s.replacement ⟨e.front.length, parts⟩ = [] → e.state.semicolon.blank true = e.state) ∧
    (Interpreted (s.run t).1 → Interpreted t) := by
  constructor
  · intro h
    refine ⟨fun i hi hcode parts hfit hgone => ?_, fun e he parts hfit hgone => ?_, h.first⟩
    · obtain ⟨v, hv⟩ := fits_flatten hfit
      have hlen : (t.take i).length = i := by rw [List.length_take]; omega
      have htail : t.drop (i + parts.flatten.length) = v := by
        rw [← List.drop_drop, hv, List.drop_left]
      rw [htail]
      refine h.lines (t.take i) parts.flatten v (by rw [← hv, List.take_append_drop])
        (by rwa [hlen]) ⟨parts, by rwa [← hv], rfl, by rwa [hlen]⟩
    · obtain ⟨v, hv⟩ := fits_flatten hfit
      exact h.statements e he parts.flatten v hv ⟨parts, by rwa [← hv], rfl, hgone⟩
  · rintro ⟨hlines, hstatements, hfirst⟩
    refine ⟨fun u line v ht hcode ⟨parts, hfit, hline, hgone⟩ => ?_,
      fun e he line v hcut ⟨parts, hfit, hline, hgone⟩ => ?_, hfirst⟩
    · have htake : t.take u.length = u := by rw [ht, List.take_left]
      have hdrop : t.drop u.length = line ++ v := by rw [ht, List.drop_left]
      have hrest : t.drop (u.length + line.length) = v := by
        rw [← List.drop_drop, hdrop, List.drop_left]
      have hshed := hlines u.length (by rw [ht, List.length_append]; omega) hcode parts
        (by rwa [htake, hdrop]) hgone
      rwa [htake, hline, hrest] at hshed
    · exact hstatements e he parts (by rwa [hcut]) hgone

instance (u : Text) : Decidable (LineFront u) := inferInstanceAs
  (Decidable (u = [] ∨ u.getLast? = some '\n' ∧ ¬ (['\\', '\n'] <:+ u ∨ ['\\', '\r', '\n'] <:+ u)))

instance (p : Char → Bool) (u : Text) : Decidable (EndsIn p u) :=
  inferInstanceAs (Decidable (_ = _))

instance (t : Text) : Decidable (Interpreted t) := inferInstanceAs (Decidable (_ <+: _))

instance (s : Substitution) (t : Text) : Decidable (s.Sheds t) :=
  decidable_of_iff _ sheds_iff.symm

/-! Substitutions that rename. -/

section

variable {x y : Text} (hs : s.Rewords x y)
include hs

theorem exchange_reword {u old new v : Text} (h : s.Exchanges x y u old new v) :
    Reword u old new v := by
  obtain ⟨rfl, rfl, hfit⟩ := h
  exact hs.reword hfit

theorem gentle_quiet (hg : s.Gentle t) : ∀ e ∈ entries t, Script.Quiet (s.Exchanges x y) e := by
  intro e he
  refine ⟨fun hk old new v hcut => ?_, fun p hk htext hrel => ?_, fun old v _ hrel => ?_⟩
  · rintro ⟨rfl, -, hfit⟩
    rw [← hcut] at hfit
    exact hfit (hg.flags e he hk)
  · obtain ⟨hx, hy, hfit⟩ := hrel
    refine hg.calls e he hk p htext ?_
    have hcalled := hs.called hx.symm hfit
    rwa [← hx, ← hy] at hcalled
  · exact absurd hrel.2.1.symm hs.given

/-- The text behind the substitution, the cells between, and the lexemes of both. -/
theorem rewords_aligned (hg : s.Gentle t) : ∃ cells, oldText cells = t ∧
    newText cells = (s.run t).1 ∧ Goes s (s.Exchanges x y) [] (codeMask t) cells ∧
      Aligned cells (lexemes t) (lexemes (s.run t).1) := by
  obtain ⟨cells, hold, hnew, hgoes⟩ := run_goes (exchange_cuts hs.exchange) t
  refine ⟨cells, hold, hnew, hgoes, ?_⟩
  have hwoven : Woven (s.Exchanges x y) [] cells := goes_woven hgoes fun _ _ _ _ _ _ h => h
  have hswaps : ∀ old new, .swap old new ∈ cells → new ≠ [] := by
    intro old new hmem
    rw [(woven_swaps hwoven hmem).choose_spec.choose_spec.2.1]
    exact hs.given
  have haligned := lexemes_aligned (exchange_reword hs) hwoven
    (by rw [hold]; exact goes_unmasked hgoes) (by rw [hold]; exact gentle_quiet hs hg)
    (interpreted_before (woven_imp (exchange_reword hs) hwoven) hswaps)
  rwa [hold, hnew] at haligned

/-- The same literals stand behind a substitution that renames. -/
theorem rewords_literals (hg : s.Gentle t) : literalTexts (s.run t).1 = literalTexts t := by
  obtain ⟨cells, hold, hnew, hgoes, haligned⟩ := rewords_aligned hs hg
  have hwoven : Woven (s.Exchanges x y) [] cells := goes_woven hgoes fun _ _ _ _ _ _ h => h
  have hkept := literals_kept (fun h => reword_some (exchange_reword hs h)) haligned hwoven
    (goes_unmasked hgoes)
  rw [literal_texts, literal_texts, hkept]

end

/-! Substitutions that drop bindings. -/

/-- What a line pattern takes. -/
theorem line_binding {name : String} (hname : Text.isName name.toList = true)
    (hother : name.toList ≠ "extends".toList) {value : Text} (hvalue : MildName value)
    {b : Option Char} {parts : List Text} (h : (bindingLine name value).fits? b t = some parts) :
    Binding parts.flatten := by
  obtain ⟨_, v, k0⟩ := Pattern.fits_some.1 h
  obtain ⟨g₁, _, _, h1, k1, rfl⟩ := Piece.readAll_cons_iff.1 k0
  obtain ⟨_, _, _, h2, k2, rfl⟩ := Piece.readAll_cons_iff.1 k1
  obtain ⟨g₂, _, _, h3, k3, rfl⟩ := Piece.readAll_cons_iff.1 k2
  obtain ⟨_, _, _, h4, k4, rfl⟩ := Piece.readAll_cons_iff.1 k3
  obtain ⟨g₃, _, _, h5, k5, rfl⟩ := Piece.readAll_cons_iff.1 k4
  obtain ⟨_, _, _, h6, k6, rfl⟩ := Piece.readAll_cons_iff.1 k5
  obtain ⟨g₄, _, _, h7, k7, rfl⟩ := Piece.readAll_cons_iff.1 k6
  obtain ⟨_, _, _, h8, k8, rfl⟩ := Piece.readAll_cons_iff.1 k7
  obtain ⟨g₅, _, _, h9, k9, rfl⟩ := Piece.readAll_cons_iff.1 k8
  obtain ⟨r, _, _, h10, k10, rfl⟩ := Piece.readAll_cons_iff.1 k9
  obtain ⟨l, _, _, h11, k11, rfl⟩ := Piece.readAll_cons_iff.1 k10
  obtain ⟨rfl, _⟩ := Piece.readAll_nil_iff.1 k11
  obtain ⟨rfl, _⟩ := Piece.word_split_iff.1 h2
  obtain ⟨rfl, _⟩ := Piece.word_split_iff.1 h4
  obtain ⟨rfl, _⟩ := Piece.word_split_iff.1 h6
  obtain ⟨rfl, _⟩ := Piece.word_split_iff.1 h8
  obtain ⟨_, _, hg1, _⟩ := Piece.run_split_iff.1 h1
  obtain ⟨_, hsome, hg2, _⟩ := Piece.run_split_iff.1 h3
  obtain ⟨_, _, hg3, _⟩ := Piece.run_split_iff.1 h5
  obtain ⟨_, _, hg4, _⟩ := Piece.run_split_iff.1 h7
  obtain ⟨_, _, hg5, _⟩ := Piece.run_split_iff.1 h9
  refine ⟨g₁, g₂, name.toList, g₃, g₄, value, g₅, r ++ l, by simp, ?_, ?_, name_plain hname hother,
    (name_mild hname hother).mild, hvalue, ?_⟩
  · simp only [List.mem_append]
    rintro c ((((hc | hc) | hc) | hc) | hc)
    · exact hg1 c hc
    · exact hg2 c hc
    · exact hg3 c hc
    · exact hg4 c hc
    · exact hg5 c hc
  · rintro rfl
    simp at hsome
  · rcases Piece.maybe_taken h10 with rfl | rfl <;>
      rcases Piece.maybe_taken h11 with rfl | rfl <;> decide

/-- A substitution that drops the lines with a binding. -/
structure Unbinds (s : Substitution) : Prop where
  binding : ∃ (name : String) (value : Text), s.pattern = bindingLine name value ∧
    Text.isName name.toList = true ∧ name.toList ≠ "extends".toList ∧ MildName value ∧
      ∀ c ∈ value, isChain c = true
  gone : ∀ h, s.replacement h = []

section

variable (hs : s.Unbinds)
include hs

theorem unbinds_line {b : Option Char} {parts : List Text}
    (h : s.pattern.fits? b t = some parts) : Binding parts.flatten := by
  obtain ⟨name, value, hp, hname, hother, hvalue, _⟩ := hs.binding
  rw [hp] at h
  exact line_binding hname hother hvalue h

theorem unbinds_start : s.pattern.behind = Pattern.lineStart := by
  obtain ⟨name, value, hp, _⟩ := hs.binding
  rw [hp]
  rfl

/-- A line end in front of the end of a binding line is its last character. -/
theorem unbinds_apart {b : Option Char} {parts : List Text} (h : s.pattern.fits? b t = some parts)
    {a v : Text} (hcut : parts.flatten = a ++ v) (hv : v ≠ []) : '\n' ∉ a := by
  obtain ⟨name, value, hp, hname, _, _, hchain⟩ := hs.binding
  rw [hp] at h
  obtain ⟨_, r, hr⟩ := Pattern.fits_some.1 h
  have hpieces : (bindingLine name value).pieces = bindingBody name value ++ [.maybe ['\n']] := rfl
  rw [hpieces, Piece.readAll_append, Option.bind_eq_some_iff] at hr
  obtain ⟨⟨front, rest⟩, hfront, hlast⟩ := hr
  obtain ⟨⟨back, r'⟩, hback, hparts⟩ := Option.map_eq_some_iff.1 hlast
  obtain ⟨l, _, _, hl, hnil, rfl⟩ := Piece.readAll_cons_iff.1 hback
  obtain ⟨rfl, _⟩ := Piece.readAll_nil_iff.1 hnil
  have hline : '\n' ∉ front.flatten := Piece.readAll_avoids (binding_body_avoids
    (Text.name_parts hname) hchain (by decide) (by decide) (by decide)) hfront
  rw [← (Prod.mk.inj hparts).1, List.flatten_append, List.flatten_singleton] at hcut
  intro hmem
  rcases List.append_eq_append_iff.1 hcut with ⟨w, rfl, hw⟩ | ⟨w, hfw, hw⟩
  · have hlen : l.length ≤ 1 := by
      rcases Piece.maybe_taken hl with rfl | rfl <;> simp
    have hpos := List.length_pos_iff.2 hv
    rw [hw, List.length_append] at hlen
    obtain rfl := List.length_eq_zero_iff.1 (by omega : w.length = 0)
    exact hline (by simpa using hmem)
  · exact hline (by rw [hfw]; exact List.mem_append_left _ hmem)

theorem unbinds_cuts : s.Cuts s.Replaces := by
  refine ⟨fun h => (binding_mild (unbinds_line hs h)).some, fun {b t parts a v} h hcut _ hv => ?_,
    fun {u t parts} h => ?_⟩
  · rw [unbinds_start hs]
    cases hlast : a.getLast? with
    | none => simp_all
    | some c =>
      have hline := unbinds_apart hs h hcut hv
      have hne : c ≠ '\n' := by
        rintro rfl
        exact hline (List.mem_of_getLast? hlast)
      simpa [Pattern.lineStart] using hne
  · obtain ⟨v, hv⟩ := fits_flatten h
    have hne := (binding_mild (unbinds_line hs h)).some
    refine ⟨parts.flatten, [], v, hv, hne, ⟨parts, by rw [← hv]; exact h, rfl,
      hs.gone _⟩, fun ms i hcode => ?_⟩
    rw [hv] at h ⊢
    rw [spread_fit ms hne h rfl hcode, hs.gone, last_append]

/-- The same literals stand behind a substitution that drops whole lines. -/
theorem unbinds_literals (hd : s.Sheds t) : literalTexts (s.run t).1 = literalTexts t := by
  obtain ⟨cells, hold, hnew, hgoes⟩ := run_goes (unbinds_cuts hs) t
  have hempty : ∀ {u old new v}, s.Replaces u old new v → new = [] := by
    rintro u old new v ⟨parts, _, _, hgiven⟩
    rw [← hgiven, hs.gone]
  let r : Change := fun u old new v =>
    s.Replaces u old new v ∧ LineFront u ∧ (EndsIn isLineEnd old ∨ v = [])
  have hr : ∀ {u old new v}, r u old new v → Reword u old new v := by
    rintro u old new v ⟨hrel, hfront, hend⟩
    obtain rfl := hempty hrel
    obtain ⟨parts, hfit, rfl, _⟩ := hrel
    exact .drop hfront (unbinds_line hs hfit) hend
  have hwoven : Woven r [] cells := by
    refine goes_woven hgoes fun a old new v hcut hcode hrel => ⟨hrel, ?_⟩
    obtain rfl := hempty hrel
    refine hd.lines a old v (by rw [← hold, hcut]) ?_ hrel
    rwa [isCode, ← drop_headD]
  have hquiet : ∀ e ∈ entries t, Script.Quiet r e := by
    intro e he
    refine ⟨fun hk old new v _ hrel => ?_, fun p _ _ hrel => ?_, fun old v hcut hrel => ?_⟩
    · rcases hrel.2.1 with hnil | ⟨hlast, _⟩
      · exact absurd (List.append_eq_nil_iff.1 hnil).2 (by simp [Entry.lexeme])
      · rw [List.getLast?_append_of_ne_nil _ (by simp [Entry.lexeme])] at hlast
        exact regex_entry hk (List.mem_of_getLast? hlast)
    · exact absurd (hempty hrel.1) (by decide)
    · exact hd.statements e he old v hcut hrel.1
  have haligned := lexemes_aligned hr hwoven (by rw [hold]; exact goes_unmasked hgoes)
    (by rw [hold]; exact hquiet) (by rw [hold, hnew]; exact hd.first)
  rw [hold, hnew] at haligned
  have hkept := literals_kept (fun h => reword_some (hr h)) haligned hwoven (goes_unmasked hgoes)
  rw [literal_texts, literal_texts, hkept]

end

/-! All substitutions. -/

section

variable {n : Names} (hn : n.Plain)
include hn

/-- A member of the namespace with a member of its own. -/
theorem nested_value {v w : Text} (hv : Text.isName v = true) (hvother : v ≠ "extends".toList)
    (hw : Text.isName w = true) (hwother : w ≠ "extends".toList) :
    MildName (n.namespaceAlias ++ '.' :: (v ++ '.' :: w)) ∧
      ∀ c ∈ n.namespaceAlias ++ '.' :: (v ++ '.' :: w), isChain c = true := by
  have hspace := hn.namespace_mild
  have hchain : ∀ c ∈ n.namespaceAlias ++ '.' :: (v ++ '.' :: w), isChain c = true := by
    intro c hc
    simp only [List.mem_append, List.mem_cons] at hc
    rcases hc with hc | rfl | hc | rfl | hc
    · exact name_chain (Text.name_parts hn.namespaceAlias) c hc
    · decide
    · exact name_chain (Text.name_parts hv) c hc
    · decide
    · exact name_chain (Text.name_parts hw) c hc
  refine ⟨⟨.member (name_plain hn.namespaceAlias (hn.apart (by simp)))
    (.member (name_plain hv hvother) (.name (name_plain hw hwother))), fun c hc =>
      plain_mild (chain_plain (hchain c hc))⟩, hchain⟩

theorem shapes_unbinds : (dropShapes n).Unbinds := by
  obtain ⟨hmild, hchain⟩ := nested_value hn (v := "animate".toList) (w := "ShapesCache".toList)
    (by decide) (by decide) (by decide) (by decide)
  exact ⟨⟨"shapes", _, rfl, by decide, by decide, hmild, hchain⟩, fun _ => rfl⟩

theorem from_frame_unbinds : (dropFromFrame n).Unbinds := by
  obtain ⟨hmild, hchain⟩ := nested_value hn (v := "Texture".toList) (w := "fromFrame".toList)
    (by decide) (by decide) (by decide) (by decide)
  exact ⟨⟨"fromFrame", _, rfl, by decide, by decide, hmild, hchain⟩, fun _ => rfl⟩

theorem drops_unbind : ∀ s ∈ drops n, s.Unbinds :=
  List.forall_mem_cons.2 ⟨shapes_unbinds hn, List.forall_mem_singleton.2 (from_frame_unbinds hn)⟩

theorem links_reword : ∀ s ∈ links n, ∃ x y, s.Rewords x y := by
  intro s hs
  simp only [links, List.mem_cons, List.not_mem_nil, or_false] at hs
  rcases hs with rfl | rfl | rfl | rfl | rfl | rfl
  · exact ⟨_, _, members_rewords hn⟩
  · exact ⟨_, _, primitives_rewords hn⟩
  · exact ⟨_, _, library_rewords hn⟩
  · exact ⟨_, _, shapes_rewords⟩
  · exact ⟨_, _, lookup_rewords⟩
  · exact ⟨_, _, declarations_rewords⟩

end

theorem run_all_append (ss rs : List Substitution) (t : Text) :
    (runAll (ss ++ rs) t).2 = (runAll rs (runAll ss t).2).2 := by
  induction ss generalizing t with
  | nil => rfl
  | cons s ss ih => exact ih (s.run t).1

/-- Substitutions that keep the literals, one after another. -/
theorem run_all_literals {p : Substitution → Text → Prop} {ss : List Substitution}
    (hp : ∀ s ∈ ss, ∀ {t}, p s t → literalTexts (s.run t).1 = literalTexts t) {t : Text}
    (h : Along p ss t) : literalTexts (runAll ss t).2 = literalTexts t := by
  induction ss generalizing t with
  | nil => rfl
  | cons s ss ih =>
    have hrest := ih (fun s' hs' => hp s' (List.mem_cons_of_mem s hs')) h.2
    exact hrest.trans (hp s List.mem_cons_self h.1)

instance decidableAlong (p : Substitution → Text → Prop) [∀ s t, Decidable (p s t)] :
    ∀ (ss : List Substitution) (t : Text), Decidable (Along p ss t)
  | [], _ => isTrue trivial
  | s :: ss, t =>
    have := decidableAlong p ss (s.run t).1
    inferInstanceAs (Decidable (_ ∧ _))

end Legacy.Substitution

namespace Legacy

open Script Substitution

def literalBody : Text := ("var shapes = PIXI.animate.ShapesCache;\n" ++
  "var text = 'lib.Text'; // PIXI.Text\nlib.Scene = fromFrame(text).match(/lib.a/g);\n").toList

/-- A dropped binding ends a statement, and a regular expression behind it becomes a division. -/
def endedBody : Text :=
  "x = a\nvar shapes = PIXI.animate.ShapesCache;\n/lib.b/g.exec(c);\n".toList

end Legacy

end Restage
