import Restage.Proofs.KeptLiterals
import Restage.Proofs.ReferenceWords

/-!
Renamed bodies stay as they are. Behind a substitution that renames, no fit of it begins at code,
nor one of those that ran before (`run_clear`); so behind all of them none is left, not even of
those that drop bindings, and they change nothing more (`rename_settles`).
-/

set_option autoImplicit false

namespace Restage

/-! Code goes on up to a literal. -/

namespace Script

/-- Lexemes whose literals begin as literals do. -/
def OpensRight (xs : List Lexeme) : Prop :=
  ∀ x ∈ xs, x.kind.isLiteral = true → ∃ c ∈ literalOpeners, ∃ w, x.text = c :: w

theorem lexemes_from_open (st : State) (t : Text) : OpensRight (lexemesFrom st t) := by
  fun_induction lexemesFrom st t with
  | case1 => simp [OpensRight]
  | case2 st c cs s ih =>
    refine List.forall_mem_cons.2 ⟨fun hlit => ⟨c, ?_, _, rfl⟩, ih⟩
    cases opened_step st c cs with
    | code hcode => exact absurd (hcode.symm.trans hlit) (by decide)
    | regex hc => simp [hc, literalOpeners]
    | other hc => exact hc

theorem settle_open {xs : List Lexeme} (h : OpensRight xs) : OpensRight (settle xs).1 := by
  induction xs with
  | nil => exact h
  | cons x xs ih =>
    obtain ⟨hx, hxs⟩ := List.forall_mem_cons.1 h
    obtain ⟨y, hy, htext, hkind⟩ := settle_cons x xs
    rw [hy]
    refine List.forall_mem_cons.2 ⟨fun hlit => ?_, ih hxs⟩
    rw [htext]
    rcases hkind with hkind | hkind
    · exact hx (by rwa [← hkind])
    · rw [hkind] at hlit
      exact Bool.noConfusion hlit

theorem lexemes_open (t : Text) : OpensRight (lexemes t) := by
  rw [lexemes.eq_def]
  split
  · exact List.forall_mem_cons.2 ⟨fun h => Bool.noConfusion h, settle_open (lexemes_from_open _ _)⟩
  · exact settle_open (lexemes_from_open _ _)

/-- At a character that opens no literal, code goes on. -/
theorem mask_goes_on {xs : List Lexeme} (h : OpensRight xs) {i : Nat} {d : Char}
    (hd : (xs.flatMap (·.text))[i]? = some d) (hne : d ∉ literalOpeners)
    (hcode : i = 0 ∨ (maskOf xs).getD (i - 1) true = true) : (maskOf xs).getD i true = true := by
  induction xs generalizing i with
  | nil => rfl
  | cons x xs ih =>
    obtain ⟨hx, hxs⟩ := List.forall_mem_cons.1 h
    rw [List.flatMap_cons] at hd
    rw [mask_cons] at hcode ⊢
    have hlen : (List.replicate x.text.length (!x.kind.isLiteral)).length = x.text.length := by simp
    by_cases hi : i < x.text.length
    · rw [List.getElem?_append_left hi] at hd
      rw [List.getD_append _ _ _ _ (by omega), List.getD_replicate _ hi]
      rcases hcode with rfl | hcode
      · -- here a lexeme begins
        cases hlit : x.kind.isLiteral with
        | false => rfl
        | true =>
          obtain ⟨c, hc, w, hw⟩ := hx hlit
          rw [hw] at hd
          exact absurd (Option.some.inj hd ▸ hc) hne
      · rwa [List.getD_append _ _ _ _ (by omega), List.getD_replicate _ (by omega)] at hcode
    · rw [List.getElem?_append_right (by omega)] at hd
      rw [List.getD_append_right _ _ _ _ (by omega), hlen]
      refine ih hxs hd ?_
      by_cases h0 : i - x.text.length = 0
      · exact Or.inl h0
      · rcases hcode with rfl | hcode
        · omega
        · rw [List.getD_append_right _ _ _ _ (by omega), hlen] at hcode
          exact Or.inr (by rwa [Nat.sub_right_comm])

/-- Code goes on over characters that open no literals. -/
theorem code_goes_on {u w v : Text} {d : Char} (hw : ∀ c ∈ w, c ∉ literalOpeners)
    (hd : d ∉ literalOpeners) (hcode : isCode (u ++ (w ++ d :: v)) u.length = true) :
    isCode (u ++ (w ++ d :: v)) (u ++ w).length = true := by
  induction w generalizing u with
  | nil => simpa using hcode
  | cons c w ih =>
    have hcut : u ++ (c :: w ++ d :: v) = (u ++ [c]) ++ (w ++ d :: v) := by simp
    have hnext : isCode (u ++ (c :: w ++ d :: v)) (u ++ [c]).length = true := by
      obtain ⟨e, r, her⟩ : ∃ e r, w ++ d :: v = e :: r := by
        cases w with
        | nil => exact ⟨d, v, rfl⟩
        | cons e w => exact ⟨e, w ++ d :: v, rfl⟩
      refine mask_goes_on (lexemes_open _) (d := e) ?_ ?_ (Or.inr ?_)
      · rw [flatMap_lexemes, hcut, her, List.getElem?_append_right (Nat.le_refl _), Nat.sub_self]
        rfl
      · cases w with
        | nil => rwa [← (List.cons.inj her).1]
        | cons e' w =>
          rw [← (List.cons.inj her).1]
          exact hw e' (by simp)
      · simpa [isCode, codeMask] using hcode
    rw [hcut] at hnext ⊢
    have hrest := ih (fun e he => hw e (List.mem_cons_of_mem _ he)) hnext
    simpa using hrest

end Script

namespace Legacy.Substitution

open Script
open Text (endOf)

/-- A text in which no fit of a substitution begins at code. -/
def Clear (s : Substitution) (t : Text) : Prop :=
  ∀ u v, t = u ++ v → isCode t u.length = true → s.pattern.fits? u.getLast? v = none

theorem clear_run {s : Substitution} {t : Text} (h : s.Clear t) : s.run t = (t, 0) := by
  refine run_nothing (List.filter_eq_nil_iff.2 fun x hx hcode => ?_)
  obtain ⟨u, v, hcut, hstart, hfit⟩ := Pattern.hit_cut hx
  simp only [Text.entire, Nat.zero_add] at hcut hstart hfit
  have hnone := h u v hcut (by rwa [← hstart])
  rw [← Text.endOf_last, hfit] at hnone
  exact absurd hnone (by simp)

theorem clear_run_all {ss : List Substitution} {t : Text} (h : ∀ s ∈ ss, s.Clear t) :
    runAll ss t = ([], t) := by
  induction ss with
  | nil => rfl
  | cons s ss ih =>
    obtain ⟨hs, hss⟩ := List.forall_mem_cons.1 h
    rw [runAll, clear_run hs]
    simp only [ih hss, if_true]

/-! Behind a substitution. -/

/-- A stretch behind a text, with its marks, in which no fit of a substitution begins at code. -/
def ClearFrom (q : Substitution) (u : Text) (ms : List Bool) (t : Text) : Prop :=
  ∀ a v, t = a ++ v → (ms.drop a.length).headD true = true →
    q.pattern.fits? (u ++ a).getLast? v = none

section

variable {q : Substitution} {u t w : Text} {ms : List Bool}

theorem clear_iff : q.Clear t ↔ q.ClearFrom [] (codeMask t) t := by
  simp only [Clear, ClearFrom, isCode, drop_headD, List.nil_append]

theorem clear_cons {c : Char}
    (hc : ms.headD true = true → q.pattern.fits? u.getLast? (c :: t) = none)
    (h : q.ClearFrom (u ++ [c]) ms.tail t) : q.ClearFrom u ms (c :: t) := by
  intro a v hcut hcode
  cases a with
  | nil =>
    obtain rfl : c :: t = v := hcut
    simpa using hc (by simpa using hcode)
  | cons d a =>
    obtain ⟨rfl, rfl⟩ := List.cons.inj hcut
    simpa using h a v rfl (by simpa using hcode)

theorem clear_behind (h : q.ClearFrom u ms (w ++ t)) :
    q.ClearFrom (u ++ w) (ms.drop w.length) t := by
  intro a v hcut hcode
  have hnone := h (w ++ a) v (by rw [hcut, List.append_assoc])
    (by rwa [List.length_append, ← List.drop_drop])
  rwa [← List.append_assoc] at hnone

theorem clear_silent (hsilent : q.pattern.Silent u.getLast? w t)
    (h : q.ClearFrom (u ++ w) (ms.drop w.length) t) : q.ClearFrom u ms (w ++ t) := by
  intro a v hcut hcode
  rcases List.append_eq_append_iff.1 hcut with ⟨k, rfl, rfl⟩ | ⟨k, rfl, rfl⟩
  · have hnone := h k v rfl (by rwa [List.drop_drop, ← List.length_append])
    rwa [List.append_assoc] at hnone
  · cases k with
    | nil =>
      have hnone := h [] t rfl (by simpa using hcode)
      simpa using hnone
    | cons d k =>
      have hnone := hsilent a (d :: k) rfl (by simp)
      rwa [← last_append] at hnone

end

section

variable {s q : Substitution} {x y u : Text} {cells : List Cell} (hs : s.Rewords x y)
include hs

/-- Behind a character of a qualified name no word is put in. -/
theorem exchange_bound (hu : Pattern.freshName u.getLast? = false)
    (h : Woven (s.Exchanges x y) u cells) : cells = [] ∨ ∃ c rest, cells = .keep c :: rest := by
  cases h with
  | done => exact Or.inl rfl
  | keep => exact Or.inr ⟨_, _, rfl⟩
  | swap hrel =>
    obtain ⟨rfl, rfl, hfit⟩ := hrel
    rw [exchange_fresh hs.exchange hfit] at hu
    exact Bool.noConfusion hu

theorem exchange_head (hu : Pattern.freshName u.getLast? = false)
    (h : Woven (s.Exchanges x y) u cells) : (newText cells).head? = (oldText cells).head? := by
  rcases exchange_bound hs hu h with rfl | ⟨c, rest, rfl⟩ <;> rfl

theorem exchange_word {w v : Text} (hu : Pattern.freshName u.getLast? = false)
    (h : Woven (s.Exchanges x y) u cells) (hw : ∀ c ∈ w, isChain c = true)
    (hcut : newText cells = w ++ v) : ∃ rest, cells = w.map .keep ++ rest ∧ newText rest = v ∧
      Woven (s.Exchanges x y) (u ++ w) rest := by
  induction w generalizing u cells with
  | nil => exact ⟨cells, rfl, hcut, by rwa [List.append_nil]⟩
  | cons c w ih =>
    rcases exchange_bound hs hu h with rfl | ⟨d, rest, rfl⟩
    · simp at hcut
    · obtain ⟨rfl, hrest⟩ := List.cons.inj hcut
      have hd : Pattern.freshName (u ++ [d]).getLast? = false := by
        rw [List.getLast?_concat]
        exact chain_not_fresh (hw d (by simp))
      obtain ⟨rest', rfl, hnew, hwoven⟩ := ih hd (woven_keep h)
        (fun e he => hw e (List.mem_cons_of_mem _ he)) hrest
      exact ⟨rest', rfl, hnew, by simpa using hwoven⟩

/-- An exchange of words neither opens a call nor closes one. -/
theorem exchange_calls (h : Woven (s.Exchanges x y) u cells) :
    callsNext (newText cells) = callsNext (oldText cells) := by
  have hword : ∀ {t : Text}, WordFirst t → callsNext t = false := by
    rintro t ⟨c, v, rfl, hc⟩
    have hblank : Text.isBlank c = false := by
      by_contra hb
      have hname := Text.blank_not_name (Bool.not_eq_false _ ▸ hb)
      rw [(word_head_char hc).1] at hname
      exact Bool.noConfusion hname
    have hopen : c ≠ '(' := head_other hc (by decide)
    simp [callsNext, hblank, hopen]
  induction h with
  | done => rfl
  | @keep u c cells _ ih =>
    rw [new_text_keep, old_text_keep]
    cases hc : Text.isBlank c with
    | true => simpa [callsNext, hc] using ih
    | false => simp [callsNext, hc]
  | swap hrel =>
    obtain ⟨rfl, rfl, hfit⟩ := hrel
    obtain ⟨⟨hx, -⟩, hy, -⟩ := reword_words (hs.reword hfit) hs.given
    rw [new_text_swap, old_text_swap, hword (word_first_append hx _),
      hword (word_first_append hy _)]

/-- A fit behind the substitution that begins with a kept character stood there before. -/
theorem fits_before {u' : Text} {c : Char} {ws : List Text} {ok : Text → Bool}
    (hq : q.Spells ws ok) (hlast : Pattern.freshName u'.getLast? = true → u.getLast? = u'.getLast?)
    (h : Woven (s.Exchanges x y) (u ++ [c]) cells)
    (hfit : q.pattern.fits? u'.getLast? (c :: newText cells) ≠ none) :
    q.pattern.fits? u.getLast? (c :: oldText cells) ≠ none := by
  obtain ⟨hb, w, hw, v, hcut, hok⟩ := hq.fits.1 hfit
  obtain ⟨hne, hchain⟩ := hq.words w hw
  obtain ⟨d, w', rfl⟩ := List.exists_cons_of_ne_nil hne
  obtain ⟨rfl, hbehind⟩ := List.cons.inj hcut
  have hbound : Pattern.freshName (u ++ [c]).getLast? = false := by
    rw [List.getLast?_concat]
    exact chain_not_fresh (hchain c (by simp))
  obtain ⟨rest, rfl, rfl, hwoven⟩ := exchange_word hs hbound h
    (fun e he => hchain e (List.mem_cons_of_mem _ he)) hbehind
  have hend : Pattern.freshName ((u ++ [c]) ++ w').getLast? = false := by
    rw [List.append_assoc, last_append]
    exact chain_end (by simp) hchain
  have hsame := hq.glance (exchange_head hs hend hwoven) (exchange_calls hs hwoven)
  refine hq.fits.2 ⟨by rwa [hlast hb], c :: w', hw, oldText rest, ?_, by rwa [← hsame]⟩
  rw [old_text_append, old_text_kept, List.cons_append]

end

/-- What a substitution puts in holds no fit of another. -/
def Spares (s : Substitution) (x y : Text) (q : Substitution) : Prop :=
  ∀ {b b' : Option Char} {v v' : Text}, s.pattern.fits? b' (x ++ v') ≠ none → v.head? = v'.head? →
    q.pattern.Silent b y v

section

variable {s q : Substitution} {x y : Text} {ws : List Text} {ok : Text → Bool}
  (hs : s.Rewords x y) (hq : q.Spells ws ok) (hspares : s.Spares x y q)
  (hend : ∀ b, Pattern.freshName (endOf b y) = false)
include hs hq hspares hend

theorem goes_clear {u u' : Text} {ms ns : List Bool} {cells : List Cell}
    (h : Goes s (s.Exchanges x y) u ms cells) (hmatched : Matched cells ms ns)
    (hlast : Pattern.freshName u'.getLast? = true → u.getLast? = u'.getLast?)
    (hold : q = s ∨ q.ClearFrom u ms (oldText cells)) : q.ClearFrom u' ns (newText cells) := by
  induction h generalizing u' ns with
  | done =>
    intro a v hcut _
    obtain ⟨rfl, rfl⟩ := List.append_eq_nil_iff.1 hcut.symm
    by_contra hfit
    obtain ⟨_, w, hw, v, hnil, _⟩ := hq.fits.1 hfit
    exact (hq.words w hw).1 (List.append_eq_nil_iff.1 hnil.symm).1
  | @keep u ms c cells hnone hgoes ih =>
    cases hmatched with
    | @keep _ ms ns _ b hmatched =>
      have hwoven : Woven (s.Exchanges x y) (u ++ [c]) cells :=
        goes_woven hgoes fun _ _ _ _ _ _ h => h
      -- a fit that begins with a kept character is one of the text before
      refine clear_cons (fun hcode => ?_) (ih hmatched (by simp) ?_)
      · have hgone : q.pattern.fits? u.getLast? (c :: oldText cells) = none := by
          rcases hold with rfl | hold
          · exact hnone hcode
          · simpa using hold [] (c :: oldText cells) rfl hcode
        by_contra hfit
        exact fits_before hs hq hlast hwoven hfit hgone
      · exact hold.imp_right fun hold => clear_behind (w := [c]) hold
  | @swap u ms old new cells _ hrel hgoes ih =>
    cases hmatched with
    | @swap _ ms ns _ _ hmatched =>
      obtain ⟨rfl, rfl, hfit⟩ := hrel
      have hwoven : Woven (s.Exchanges old new) (u ++ old) cells :=
        goes_woven hgoes fun _ _ _ _ _ _ h => h
      have hmarks : ∀ (k : Nat) (ms : List Bool), (List.replicate k true ++ ms).drop k = ms :=
        fun k ms => List.drop_left' (List.length_replicate ..)
      rw [hmarks] at ih
      have hbound : Pattern.freshName (u ++ old).getLast? = false := by
        rw [last_append]
        exact chain_end hs.exchange.nonempty hs.exchange.chain
      -- no fit begins in the word that was put in, and none can begin right behind it
      rw [new_text_swap]
      refine clear_silent (hspares hfit (exchange_head hs hbound hwoven)) ?_
      rw [hmarks]
      refine ih hmatched (fun hfresh => ?_) (hold.imp_right fun hold => ?_)
      · rw [last_append, hend] at hfresh
        exact Bool.noConfusion hfresh
      · rw [old_text_swap] at hold
        have hbehind := clear_behind hold
        rwa [hmarks] at hbehind

/-- Behind a substitution that renames, no fit of it begins at code, nor one of another that had no
such fits before. -/
theorem run_clear {t : Text} (hg : s.Gentle t) (hold : q = s ∨ q.Clear t) :
    q.Clear (s.run t).1 := by
  obtain ⟨cells, hcells, hnew, hgoes, haligned⟩ := rewords_aligned hs hg
  have hwoven : Woven (s.Exchanges x y) [] cells := goes_woven hgoes fun _ _ _ _ _ _ h => h
  have hmatched := masks_matched (fun h => reword_some (exchange_reword hs h)) haligned hwoven
    (goes_unmasked hgoes)
  rw [clear_iff, ← hnew]
  rw [← hnew] at hmatched
  refine goes_clear hs hq hspares hend hgoes hmatched (fun _ => rfl) (hold.imp_right fun hold => ?_)
  rw [hcells]
  exact clear_iff.1 hold

end

/-! All substitutions. -/

/-- Substitutions that run behind others: what one of them puts in holds no fit of its own, nor one
of those before it. -/
inductive Settling : List Substitution → List Substitution → Prop
  | done (qs : List Substitution) : Settling qs []
  | step {qs ss : List Substitution} {s : Substitution} {x y : Text} : s.Rewords x y →
    (∀ q ∈ s :: qs, (∃ ws ok, q.Spells ws ok) ∧ s.Spares x y q) →
    (∀ b, Pattern.freshName (endOf b y) = false) → Settling (s :: qs) ss → Settling qs (s :: ss)

theorem settling_clear {qs ss : List Substitution} (h : Settling qs ss) {t : Text}
    (hg : Along Gentle ss t) (hold : ∀ q ∈ qs, q.Clear t) :
    ∀ q, q ∈ ss ∨ q ∈ qs → q.Clear (runAll ss t).2 := by
  induction h generalizing t with
  | done => exact fun q hq => hold q (hq.resolve_left List.not_mem_nil)
  | @step qs ss s x y hs hspares hend _ ih =>
    have hclear : ∀ q ∈ s :: qs, q.Clear (s.run t).1 := by
      intro q hq
      obtain ⟨⟨ws, ok, hspells⟩, hspare⟩ := hspares q hq
      exact run_clear hs hspells hspare hend hg.1 ((List.mem_cons.1 hq).imp_right (hold q))
    intro q hq
    refine ih hg.2 hclear q ?_
    simp only [List.mem_cons] at hq ⊢
    tauto

section

variable {n : Names} (hn : n.Plain)
include hn

/-- The names that the fits begin with. -/
theorem links_open : ∀ q ∈ links n, ∃ m sep, q.Opens m sep ∧
    (m ∈ [n.namespaceAlias, n.libraryAlias, "shapes".toList] ∧ sep = isDot ∨
      sep '.' = false ∧ m ≠ "const".toList) := by
  have hspace : n.namespaceAlias ∈ [n.namespaceAlias, n.libraryAlias, "shapes".toList] := by simp
  refine List.forall_mem_cons.2 ⟨⟨_, _, members_opens hn.namespaceAlias, Or.inl ⟨hspace, rfl⟩⟩,
    List.forall_mem_cons.2 ⟨⟨_, _, primitives_opens hn.namespaceAlias, Or.inl ⟨hspace, rfl⟩⟩,
    List.forall_mem_cons.2 ⟨⟨_, _, library_opens hn.libraryAlias, Or.inl ⟨by simp, rfl⟩⟩,
    List.forall_mem_cons.2 ⟨⟨_, _, shapes_opens, Or.inl ⟨by simp, rfl⟩⟩,
    List.forall_mem_cons.2 ⟨⟨_, _, lookup_opens, Or.inr ⟨by decide, by decide⟩⟩,
    List.forall_mem_singleton.2 ⟨_, _, declarations_opens, Or.inr ⟨by decide, by decide⟩⟩⟩⟩⟩⟩⟩

theorem emitted_spared (hlast : Text.lastName n.emitted ≠ n.namespaceAlias) (s : Substitution)
    (x : Text) : ∀ q ∈ [renderingPrimitives n, namespaceMembers n],
      s.Spares x (n.emitted ++ ['.']) q := by
  have hsilent : ∀ {q : Substitution}, q.Opens n.namespaceAlias isDot →
      s.Spares x (n.emitted ++ ['.']) q := fun hq _ _ v _ _ _ =>
    dotted_silent hq (Text.identifier_parts hn.emitted) (by simp) (Or.inl hlast) v
  exact List.forall_mem_cons.2 ⟨hsilent (primitives_opens hn.namespaceAlias),
    List.forall_mem_singleton.2 (hsilent (members_opens hn.namespaceAlias))⟩

theorem data_spared (hdata : "data".toList ∉ [n.namespaceAlias, n.libraryAlias]) (s : Substitution)
    (x : Text) {k : Text} (hk : ∀ c ∈ k, isChain c = true) :
    ∀ q ∈ links n, s.Spares x ("data".toList ++ '.' :: k) q := by
  intro q hq b b' v v' _ _
  obtain ⟨m, sep, hopens, ⟨hm, _⟩ | ⟨hsep, _⟩⟩ := links_open hn q hq
  · refine dotted_silent hopens (by decide) hk (Or.inl ?_) v
    have hself : Text.lastName "data".toList = "data".toList := by decide
    rw [hself]
    rintro rfl
    simp only [List.mem_cons, List.not_mem_nil, or_false, not_or] at hdata hm
    exact hm.elim hdata.1 fun hm => hm.elim hdata.2 (by decide)
  · exact dotted_silent hopens (by decide) hk (Or.inr hsep) v

theorem const_spared : ∀ q ∈ links n, declarations.Spares "var".toList "const".toList q := by
  intro q hq b b' v v' hfit hhead
  obtain ⟨parts, hparts⟩ := Option.ne_none_iff_exists'.1 hfit
  obtain ⟨_, _, w, hw, hok⟩ := (swaps_fits declarations_swaps).1 hparts
  obtain rfl := List.append_cancel_left hw
  obtain ⟨d, r, rfl, hd⟩ := first_is v' hok
  obtain ⟨r', rfl⟩ : ∃ r', v = d :: r' := by
    cases v with
    | nil => simp at hhead
    | cons e r' => exact ⟨r', by rw [Option.some.inj hhead]⟩
  have hpart : Text.isNamePart d = false := Text.blank_not_part hd
  obtain ⟨m, sep, hopens, ⟨_, rfl⟩ | ⟨_, hm⟩⟩ := links_open hn q hq
  · refine word_silent hopens (by decide) hpart (Or.inr ?_) r'
    rw [isDot, beq_eq_false_iff_ne]
    rintro rfl
    exact absurd hd (by decide)
  · exact word_silent hopens (by decide) hpart (Or.inl hm.symm) r'

theorem links_settling (hdata : "data".toList ∉ [n.namespaceAlias, n.libraryAlias])
    (hlast : Text.lastName n.emitted ≠ n.namespaceAlias) : Settling [] (links n) := by
  have hbound : ∀ {p k : Text}, (∀ c ∈ k, isChain c = true) →
      ∀ b, Pattern.freshName (endOf b (p ++ '.' :: k)) = false := by
    intro p k hk b
    rw [Text.endOf_append]
    exact chain_end (by simp) (List.forall_mem_cons.2 ⟨by decide, hk⟩)
  have hspells := links_spell hn
  have hmember := fun s x => data_spared hn hdata s x (k := "lib.".toList) (by decide)
  have hshape := fun s x => data_spared hn hdata s x (k := "shapes.".toList) (by decide)
  have hlookup := fun s x => data_spared hn hdata s x (k := "getTexture".toList) (by decide)
  refine .step (members_rewords hn) ?members (hbound (by simp))
    (.step (primitives_rewords hn) ?primitives (hbound (by simp))
    (.step (library_rewords hn) ?library
      (hbound (p := "data".toList) (k := "lib.".toList) (by decide))
    (.step shapes_rewords ?shapes (hbound (p := "data".toList) (k := "shapes.".toList) (by decide))
    (.step lookup_rewords ?lookup
      (hbound (p := "data".toList) (k := "getTexture".toList) (by decide))
    (.step declarations_rewords ?declarations (fun b => chain_end (by decide) (by decide))
    (.done _))))))
  all_goals
    intro q hq
    have hlink : q ∈ links n := by
      simp only [List.mem_cons, List.not_mem_nil, or_false] at hq
      simp only [links, List.mem_cons, List.not_mem_nil, or_false]
      tauto
    refine ⟨hspells q hlink, ?_⟩
  case members => exact emitted_spared hn hlast _ _ q (List.mem_cons_of_mem _ hq)
  case primitives => exact emitted_spared hn hlast _ _ q hq
  case library => exact hmember _ _ q hlink
  case shapes => exact hshape _ _ q hlink
  case lookup => exact hlookup _ _ q hlink
  case declarations => exact const_spared hn q hlink

end

/-- A name can begin behind the indent of a line. -/
theorem indent_fresh {u g : Text} (hu : Pattern.lineStart u.getLast? = true)
    (hg : ∀ c ∈ g, Piece.isIndent c = true) : Pattern.freshName (u ++ g).getLast? = true := by
  rw [last_append]
  refine blank_fresh ?_ fun c hc => Text.indent_blank (hg c hc)
  cases h : u.getLast? with
  | none => rfl
  | some c =>
    rw [h, Pattern.lineStart, beq_iff_eq] at hu
    rw [hu]
    decide

/-- A binding that could be dropped has a keyword that could be exchanged. -/
theorem unbinds_clear {s : Substitution} (hs : s.Unbinds) {t : Text} (h : declarations.Clear t) :
    s.Clear t := by
  intro u v ht hcode
  by_contra hfit
  obtain ⟨parts, hparts⟩ := Option.ne_none_iff_exists'.1 hfit
  obtain ⟨name, value, hp, _⟩ := hs.binding
  rw [hp] at hparts
  obtain ⟨hb, r, hr⟩ := Pattern.fits_some.1 hparts
  obtain ⟨g, _, _, h1, k1, _⟩ := Piece.readAll_cons_iff.1 hr
  obtain ⟨_, _, _, h2, k2, _⟩ := Piece.readAll_cons_iff.1 k1
  obtain ⟨g', w, _, h3, _, _⟩ := Piece.readAll_cons_iff.1 k2
  obtain ⟨_, rfl⟩ := Piece.word_split_iff.1 h2
  obtain ⟨rfl, _, hg, _⟩ := Piece.run_split_iff.1 h1
  obtain ⟨rfl, hsome, hg', _⟩ := Piece.run_split_iff.1 h3
  have hvar : declarations.pattern.fits? (u ++ g).getLast? ("var".toList ++ (g' ++ w)) ≠ none := by
    obtain ⟨d, k, rfl⟩ := List.exists_cons_of_ne_nil (List.length_pos_iff.1 hsome)
    have hblank : firstIs Text.isBlank (d :: k ++ w) = true := Text.indent_blank (hg' d (by simp))
    rw [(swaps_fits declarations_swaps).2 ⟨indent_fresh hb hg, rfl, _, rfl, hblank⟩]
    simp
  have hindent : ∀ c ∈ g, c ∉ literalOpeners := by
    intro c hc
    have hindent := hg c hc
    simp only [Piece.isIndent, Bool.or_eq_true, beq_iff_eq] at hindent
    rcases hindent with rfl | rfl <;> decide
  refine hvar (h (u ++ g) _ (by rw [ht, List.append_assoc]) ?_)
  rw [ht] at hcode ⊢
  exact code_goes_on (d := 'v') hindent (by decide) hcode

end Legacy.Substitution

namespace Legacy

open Substitution

def frameBody : Text := ("var shapes = PIXI.animate.ShapesCache;\n" ++
  "lib.Scene = PIXI.animate.MovieClip;\nvar a = fromFrame(shapes.a, new PIXI.Text('lib.a'));\n").toList

/-- A namespace that ends with the alias of the rendering namespace, behind a character at which the
patterns let a name begin. -/
def joinedNames : Names := ⟨"PIXI".toList, "lib".toList, "a·PIXI".toList⟩

end Legacy

end Restage
