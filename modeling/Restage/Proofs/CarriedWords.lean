import Restage.Proofs.ConversionSplice
import Restage.Proofs.Recasting

/-!
Words that edits do not bring in. A word of an edited text was there before, if no edit begins behind
a character of the word and no replacement ends within it (`splice_word`). A substitution makes its
edits where its pattern fits, so for it the two conditions are said of the pattern and its
replacements (`run_word`). A conversion writes few characters of its own, and brings in no word that
begins with another one (`stretch_word`, `convert_word`).
-/

set_option autoImplicit false

namespace Restage

open Text (endOf)

namespace Text

/-- A word in a text of two parts stands in one of them, or both parts have a character of it where they
meet. -/
theorem infix_meeting {w u v : Text} (h : w <:+: u ++ v) :
    w <:+: u ∨ w <:+: v ∨ (∃ c ∈ w, u.getLast? = some c) ∧ ∃ d ∈ w, v.head? = some d := by
  obtain ⟨p, q, hpq⟩ := h
  rw [List.append_assoc] at hpq
  rcases List.append_eq_append_iff.1 hpq with ⟨x, rfl, hx⟩ | ⟨x, rfl, hx⟩
  · rcases List.append_eq_append_iff.1 hx with ⟨y, rfl, hy⟩ | ⟨y, hw, hy⟩
    · exact Or.inl ⟨p, y, by simp⟩
    · rcases List.eq_nil_or_concat x with rfl | ⟨x, c, rfl⟩
      · exact Or.inr (Or.inl ⟨[], q, by simp [hw, hy]⟩)
      · cases y with
        | nil => exact Or.inl ⟨p, [], by simp [hw]⟩
        | cons d y =>
          refine Or.inr (Or.inr ⟨⟨c, by simp [hw], ?_⟩, d, by simp [hw], by simp [hy]⟩)
          rw [List.concat_eq_append, ← List.append_assoc, List.getLast?_concat]
  · exact Or.inr (Or.inl ⟨x, q, by rw [hx, List.append_assoc]⟩)

theorem endOf_last (u : Text) : endOf none u = u.getLast? := by
  cases u using List.reverseRecOn with
  | nil => rfl
  | append_singleton u c => rw [endOf_concat, List.getLast?_concat]

/-- A text lends a word to what follows it only on a condition. -/
def Lends (w : Text) (p : Prop) (u : Text) : Prop := ∀ r, w <:+: u ++ r → p ∨ w <:+: r

section

variable {w : Text} {p : Prop}

theorem lends_nil : Lends w p [] := fun _ h => Or.inr h

theorem lends_append {u v : Text} (hu : Lends w p u) (hv : Lends w p v) : Lends w p (u ++ v) := by
  intro r h
  rw [List.append_assoc] at h
  exact (hu _ h).elim Or.inl fun h => hv r h

theorem lends_parts {us : List Text} (h : ∀ u ∈ us, Lends w p u) : Lends w p us.flatten := by
  induction us with
  | nil => exact lends_nil
  | cons u us ih =>
    rw [List.flatten_cons]
    exact lends_append (h u (by simp)) (ih fun v hv => h v (by simp [hv]))

theorem lends_without {c : Char} {u : Text} (h : c ∉ u) : Lends (c :: w) p u :=
  fun _ hin => Or.inr (infix_right_of_head h hin)

/-- Up to a character that the word lacks only the part before counts. -/
theorem lends_until {c : Char} {u : Text} (hc : c ∉ w) (h : w <:+: u → p) : Lends w p (u ++ [c]) := by
  intro r hin
  rw [List.append_assoc, List.singleton_append] at hin
  exact (infix_across hc hin).imp h id

end

end Text

namespace Edit

/-- An edit of a text does not begin inside of a word, and lends it only on a condition. -/
structure Guards (w : Text) (p : Prop) (t : Text) (e : Edit) : Prop where
  edge : (∀ c ∈ w, (t.take e.span.start).getLast? ≠ some c) ∨ ∃ d, d ∉ w ∧ e.text.head? = some d
  lends : Text.Lends w p e.text

theorem guards_weaken {w t : Text} {p q : Prop} {e : Edit} (h : Guards w p t e) (hq : p → q) :
    Guards w q t e := ⟨h.edge, fun r hin => (h.lends r hin).imp_left hq⟩

/-- A word of a stretch with edits made is a word of the stretch. -/
theorem splice_word {w t : Text} {p : Prop} {i : Nat} {es : List Edit} (hb : Behind i es)
    (ha : Ascending es) (hguards : ∀ e ∈ es, Guards w p t e) (h : w <:+: splice i (t.drop i) es) :
    p ∨ w <:+: t.drop i := by
  induction es generalizing i with
  | nil => exact Or.inr h
  | cons e es ih =>
    obtain ⟨hi, hspan⟩ := hb e (by simp)
    have hrest := (List.pairwise_cons.1 ha).2
    obtain ⟨hedge, hlends⟩ := hguards e (by simp)
    have hdrop : (t.drop i).drop (e.span.stop - i) = t.drop e.span.stop := by
      rw [List.drop_drop]
      congr 1
      omega
    have hbehind : p ∨ w <:+: e.text ++ splice e.span.stop (t.drop e.span.stop) es →
        p ∨ w <:+: t.drop i := by
      rintro (hp | hin)
      · exact Or.inl hp
      · rcases hlends _ hin with hp | hin
        · exact Or.inl hp
        · refine (ih (behind_tail ha hb) hrest
            (fun d hd => hguards d (by simp [hd])) hin).imp_right fun hin => ?_
          rw [← hdrop] at hin
          exact hin.trans (List.drop_suffix _ _).isInfix
    rw [splice, hdrop, List.append_assoc] at h
    rcases Text.infix_meeting h with h | h | ⟨⟨c, hc, hlast⟩, d, hd, hhead⟩
    · exact Or.inr (h.trans (List.take_prefix _ _).isInfix)
    · exact hbehind (Or.inr h)
    · exfalso
      rcases hedge with hedge | ⟨d', hd', hhead'⟩
      · refine hedge c hc ?_
        have htake : (t.drop i).take (e.span.start - i) = (t.take e.span.start).drop i := by
          rw [List.drop_take]
        rw [htake] at hlast
        have hsome : ((t.take e.span.start).drop i) ≠ [] := by
          intro hnil
          simp [hnil] at hlast
        rw [← hlast, ← List.take_append_drop i (t.take e.span.start)]
        rw [List.getLast?_append_of_ne_nil _ hsome]
        simp
      · rw [List.head?_append_of_ne_nil _ (fun hnil => by simp [hnil] at hhead'), hhead',
          Option.some.injEq] at hhead
        exact hd' (hhead ▸ hd)

end Edit

namespace Legacy.Substitution

theorem hits_apart {p : Pattern} {b : Option Char} {i skip : Nat} {t : Text} :
    (∀ h ∈ p.hitsFrom b i skip t, i + skip ≤ h.start) ∧
      (p.hitsFrom b i skip t).Pairwise fun a b => a.stop ≤ b.start := by
  fun_induction p.hitsFrom b i skip t with
  | case1 b i parts hf => exact ⟨by simp, List.pairwise_singleton _ _⟩
  | case2 b i hf => exact ⟨by simp, List.Pairwise.nil⟩
  | case3 => exact ⟨by simp, List.Pairwise.nil⟩
  | case4 b i c cs parts hf ih =>
    refine ⟨?_, List.pairwise_cons.2 ⟨?_, ih.2⟩⟩
    · intro h hh
      rcases List.mem_cons.1 hh with rfl | hh
      · exact Nat.le_refl _
      · have := ih.1 h hh
        omega
    · intro h hh
      have := ih.1 h hh
      simp only [Hit.stop, Hit.text]
      omega
  | case5 b i c cs hf ih => exact ⟨fun h hh => by have := ih.1 h hh; omega, ih.2⟩
  | case6 b i skip c cs ih => exact ⟨fun h hh => by have := ih.1 h hh; omega, ih.2⟩

/-- A substitution brings in no word that its pattern does not begin within, and that its replacements
do not lend. -/
theorem run_word {s : Substitution} {w : Text} {p : Prop}
    (hedge : ∀ c ∈ w, s.pattern.behind (some c) = false)
    (hlends : ∀ b v h, s.pattern.fits? b v = some h.parts → Text.Lends w p (s.replacement h))
    {t : Text} (h : w <:+: (s.run t).1) : p ∨ w <:+: t := by
  rw [run_spread, spread, editsFrom] at h
  refine Edit.splice_word (i := 0)
    (edits_behind s _ _ _ _) ?_ ?_ h
  · exact List.pairwise_map.2 ((hits_apart.2.filter _).imp id)
  · intro e he
    obtain ⟨hit, hhit, rfl⟩ := List.mem_map.1 he
    obtain ⟨u, v, rfl, hstart, hfit⟩ := Pattern.hit_cut (List.mem_filter.1 hhit).1
    refine ⟨Or.inl fun c hc hlast => ?_, hlends _ _ hit hfit⟩
    have htake : (u ++ v).take hit.start = u := by
      rw [hstart, Nat.zero_add, List.take_left]
    simp only [Hit.span, htake, ← Text.endOf_last] at hlast
    have hbehind := (Pattern.fits_some.1 hfit).1
    rw [hlast, hedge c hc] at hbehind
    exact Bool.noConfusion hbehind

theorem run_all_word {ss : List Substitution} {w : Text} {p : Prop}
    (hrun : ∀ s ∈ ss, ∀ t, w <:+: (s.run t).1 → p ∨ w <:+: t) {t : Text}
    (h : w <:+: (runAll ss t).2) : p ∨ w <:+: t := by
  induction ss generalizing t with
  | nil => exact Or.inr h
  | cons s ss ih =>
    rcases ih (fun s hs => hrun s (by simp [hs])) h with hp | h
    · exact Or.inl hp
    · exact hrun s (by simp) t h

end Legacy.Substitution

namespace Legacy

/-- The characters that a conversion writes between those it takes from a definition. -/
def written : Text := " = class extends \x7b\n constructor() super();\x7d".toList

/-- A word that begins with no character that a conversion writes, and that has none of those at the ends
of what it replaces and takes over. -/
structure Foreign (w : Text) : Prop where
  nonempty : w ≠ []
  head : ∀ a ∈ w.head?, a ∉ written ∧ Piece.isIndent a = false
  named : ∃ a ∈ w, Text.isNamePart a = false
  gap : ' ' ∉ w
  round : ')' ∉ w
  brace : '\x7d' ∉ w
  line : '\n' ∉ w
  call : (∀ a ∈ w, Pattern.freshName (some a) = false) ∨ 's' ∉ w

/-- The header of a definition stands at the front of a line. -/
theorem Definition.header_line {t : Text} {d : Definition} {x : Cut} (hx : CutIn t d x) {c : Char}
    (h : (t.take d.header.start).getLast? = some c) : c = '\n' := by
  rw [header_take hx, ← Text.endOf_last] at h
  have hline := hx.line
  rwa [h, Pattern.lineStart, beq_iff_eq] at hline

section

variable {w : Text} (hw : Foreign w)
include hw

theorem written_lends {p : Prop} {u : Text} (hu : ∀ a ∈ u, a ∈ written) : Text.Lends w p u := by
  obtain ⟨a, v, rfl⟩ := List.exists_cons_of_ne_nil hw.nonempty
  exact Text.lends_without fun ha => (hw.head a rfl).1 (hu a ha)

theorem indent_lends {p : Prop} {u : Text} (hu : ∀ a ∈ u, Piece.isIndent a = true) :
    Text.Lends w p u := by
  obtain ⟨a, v, rfl⟩ := List.exists_cons_of_ne_nil hw.nonempty
  exact Text.lends_without (Text.not_mem_of_all hu (hw.head a rfl).2)

theorem name_lends {p : Prop} {u : Text} (hu : ∀ a ∈ u, Text.isNamePart a = true) :
    Text.Lends w p (u ++ [' ']) := by
  obtain ⟨a, ha, hpart⟩ := hw.named
  exact Text.lends_until hw.gap fun hin => absurd (hin.subset ha) (Text.not_mem_of_all hu hpart)

variable {t : Text} {d : Definition}

theorem head_lends (hname : ∀ c ∈ d.name, Text.isNamePart c = true) {x : Cut}
    (hx : Definition.CutIn t d x) :
    Text.Lends w (w <:+: t.drop d.header.start) (Conversion.classHead d) := by
  have hbehind := Definition.header_drop hx
  have htarget : x.target <:+: t.drop d.header.start := by
    rw [hbehind]
    exact ⟨x.indent, x.link ++ '(' :: (x.keyword ++ '(' :: (x.raw ++ ')' ::
      (x.gap ++ ['{']))) ++ (x.inner ++ (x.foot ++ x.after)), by simp [Cut.head]⟩
  have hparams : x.raw.strip <:+: t.drop d.header.start := by
    refine (Text.trim_infix _ _).trans ?_
    rw [hbehind]
    exact ⟨x.indent ++ (x.target ++ (x.link ++ '(' :: (x.keyword ++ ['(']))),
      ')' :: (x.gap ++ ['{']) ++ (x.inner ++ (x.foot ++ x.after)), by simp [Cut.head]⟩
  have hcut : Conversion.classHead d = [x.indent, x.target ++ [' '], "= class ".toList,
      d.name ++ [' '], "extends ".toList, d.base.text ++ [' '], "\x7b\n".toList, x.indent,
      "    constructor(".toList, x.raw.strip ++ [')'], " \x7b".toList].flatten := by
    rw [Conversion.classHead, hx.indent, hx.target, hx.params]
    simp
  rw [hcut]
  refine Text.lends_parts fun u hu => ?_
  simp only [List.mem_cons, List.not_mem_nil, or_false] at hu
  rcases hu with rfl | rfl | rfl | rfl | rfl | rfl | rfl | rfl | rfl | rfl | rfl
  · exact indent_lends hw hx.indented
  · exact Text.lends_until hw.gap fun h => h.trans htarget
  · exact written_lends hw (by decide)
  · exact name_lends hw hname
  · exact written_lends hw (by decide)
  · exact name_lends hw (base_chars d.base)
  · exact written_lends hw (by decide)
  · exact indent_lends hw hx.indented
  · exact written_lends hw (by decide)
  · exact Text.lends_until hw.round fun h => h.trans hparams
  · exact written_lends hw (by decide)

theorem edits_guard (hname : ∀ c ∈ d.name, Text.isNamePart c = true) (h : Definition.Stands t d) :
    ∀ e ∈ Conversion.edits d, Edit.Guards w (w <:+: t.drop e.span.start) t e := by
  obtain ⟨⟨x, hx⟩, hcall⟩ := h
  have hheader : ∀ {u}, Text.Lends w (w <:+: t.drop d.header.start) u →
      Edit.Guards w (w <:+: t.drop d.header.start) t ⟨d.header, u⟩ := by
    refine fun hu => ⟨Or.inl fun c hc hlast => ?_, hu⟩
    exact hw.line (Definition.header_line hx hlast ▸ hc)
  have hfooter : Edit.Guards w (w <:+: t.drop d.footer.start) t
      ⟨d.footer, Conversion.classFoot d⟩ := by
    refine ⟨Or.inr ⟨'}', hw.brace, rfl⟩, ?_⟩
    rw [Conversion.classFoot, hx.indent]
    exact Text.lends_append (Text.lends_append (written_lends hw (by decide))
      (indent_lends hw hx.indented)) (written_lends hw (by decide))
  have hsuper : ∀ s, d.superCall = some s →
      Edit.Guards w (w <:+: t.drop s.start) t ⟨s, "super(".toList⟩ := by
    intro s hs
    refine ⟨hw.call.imp (fun hfresh c hc hlast => ?_) fun hnone => ⟨'s', hnone, rfl⟩,
      written_lends hw (u := "super(".toList) (by decide)⟩
    obtain ⟨_, u, arg, v, rfl, rfl, hbehind, _⟩ := hcall s hs
    rw [List.take_left, ← Text.endOf_last] at hlast
    rw [hlast, hfresh c hc] at hbehind
    exact Bool.noConfusion hbehind
  have hinserted : Text.Lends w (w <:+: t.drop d.header.start) (Conversion.insertedCall d) := by
    rw [Conversion.insertedCall, hx.indent]
    exact Text.lends_append (u := '\n' :: x.indent)
      (Text.lends_append (u := ['\n']) (written_lends hw (by decide)) (indent_lends hw hx.indented))
      (written_lends hw (by decide))
  intro e he
  rw [Conversion.edits] at he
  cases hs : d.superCall with
  | none =>
    simp only [hs, List.mem_cons, List.not_mem_nil, or_false] at he
    rcases he with rfl | rfl
    · exact hheader (Text.lends_append (head_lends hw hname hx) hinserted)
    · exact hfooter
  | some s =>
    simp only [hs, List.mem_cons, List.not_mem_nil, or_false] at he
    rcases he with rfl | rfl | rfl
    · exact hsuper s hs
    · exact hheader (head_lends hw hname hx)
    · exact hfooter

/-- Edits of a conversion bring no word that is foreign to it into a stretch of the text. -/
theorem stretch_word {library : Text} {c : Conversion} (h : (convert library t).result = .ok c)
    {i : Nat} {es : List Edit} (hes : ∀ e ∈ es, e ∈ c.definitions.flatMap Conversion.edits)
    (hb : Edit.Behind i es) (ha : Edit.Ascending es) (hin : w <:+: Edit.splice i (t.drop i) es) :
    w <:+: t.drop i := by
  obtain ⟨tree, htree, hdefs, _⟩ := convert_ok h
  have hguards : ∀ e ∈ es, Edit.Guards w (w <:+: t.drop i) t e := by
    intro e he
    obtain ⟨d, hd, hed⟩ := List.mem_flatMap.1 (hes e he)
    have hname := Definition.find_names htree d (List.mem_mergeSort.1 (hdefs ▸ hd))
    refine Edit.guards_weaken (edits_guard hw hname (convert_stands h d hd) e hed) fun hin => ?_
    rw [← Nat.add_sub_cancel' (hb e he).1, ← List.drop_drop] at hin
    exact hin.trans (List.drop_suffix _ _).isInfix
  exact (Edit.splice_word hb ha hguards hin).elim id id

/-- A conversion brings in no word that is foreign to it. -/
theorem convert_word {library : Text} {c : Conversion} (h : (convert library t).result = .ok c)
    (hin : w <:+: c.text) : w <:+: t := by
  obtain ⟨es, hperm, hascending, hwithin, htext⟩ := convert_splice h
  have hbehind : Edit.Behind 0 es := fun e he => ⟨Nat.zero_le _, Nat.le_of_lt (hwithin e he).1⟩
  exact stretch_word hw h (i := 0) (fun e he => hperm.mem_iff.1 he) hbehind hascending (htext ▸ hin)

end

end Legacy

end Restage
