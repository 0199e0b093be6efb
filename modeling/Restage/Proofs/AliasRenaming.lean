import Restage.Proofs.RowRenaming

/-!
The substitutions of qualified names on a rewritten setup body. Each leaves a lone word alone and
turns the name of the library, or the keyword of a variable, in front of a member or a name
(`Renames`); so all eight bring a body to its final style (`rename_rewritten`).
-/

set_option autoImplicit false

namespace Restage.Legacy

open Piece
open Text (endOf)

/-! Where a substitution of names does nothing. -/

theorem chain_not_fresh {c : Char} (h : Substitution.isChain c = true) :
    Pattern.freshName (some c) = false := by
  show (!Substitution.isChain c) = false
  rw [h]
  rfl

section

variable {s : Substitution} (hs : s.Tame)
include hs

theorem tame_head {b : Option Char} {c : Char} (hc : Substitution.isChain c = false) (t : Text) :
    s.pattern.fits? b (c :: t) = none := by
  cases h : s.pattern.fits? b (c :: t) with
  | none => rfl
  | some parts =>
    obtain ⟨hne, hall⟩ := hs.taken h
    obtain ⟨_, r, hr⟩ := Pattern.fits_some.1 h
    obtain ⟨d, u, hd⟩ := List.exists_cons_of_ne_nil hne
    have htext := readAll_flatten hr
    rw [hd] at htext hall
    rw [(List.cons.inj htext).1, hall d (by simp)] at hc
    exact Bool.noConfusion hc

theorem tame_marks {u : Text} (hu : ∀ c ∈ u, Substitution.isChain c = false) (b : Option Char)
    (t : Text) : s.pattern.Silent b u t := by
  induction u generalizing b with
  | nil => exact Pattern.silent_nil _ _
  | cons c u ih =>
    exact Pattern.silent_cons.2 ⟨tame_head hs (hu c (by simp)) _,
      ih (fun d hd => hu d (by simp [hd])) _⟩

/-- Behind a character of a qualified name the rest of the name is passed over. -/
theorem tame_bound {b : Option Char} (hb : Pattern.freshName b = false) {u : Text}
    (hu : ∀ c ∈ u, Substitution.isChain c = true) (t : Text) : s.pattern.Silent b u t := by
  have hnone : ∀ {b : Option Char} (v : Text), Pattern.freshName b = false →
      s.pattern.fits? b v = none := by
    intro b v hb
    cases h : s.pattern.fits? b v with
    | none => rfl
    | some parts => rw [hs.fresh h] at hb; exact Bool.noConfusion hb
  induction u generalizing b with
  | nil => exact Pattern.silent_nil _ _
  | cons c u ih =>
    exact Pattern.silent_cons.2 ⟨hnone _ hb, ih (chain_not_fresh (hu c (by simp)))
      fun d hd => hu d (by simp [hd])⟩

theorem tame_word {b : Option Char} {u t : Text} (hu : ∀ c ∈ u, Substitution.isChain c = true)
    (h : s.pattern.fits? b (u ++ t) = none) : s.pattern.Silent b u t := by
  cases u with
  | nil => exact Pattern.silent_nil _ _
  | cons c u =>
    exact Pattern.silent_cons.2 ⟨h, tame_bound hs (chain_not_fresh (hu c (by simp)))
      (fun d hd => hu d (by simp [hd])) _⟩

end

theorem chain_end {b : Option Char} {u : Text} (hne : u ≠ [])
    (hu : ∀ c ∈ u, Substitution.isChain c = true) : Pattern.freshName (endOf b u) = false := by
  rcases List.eq_nil_or_concat u with rfl | ⟨w, c, hw⟩
  · exact absurd rfl hne
  · rw [List.concat_eq_append] at hw
    subst hw
    rw [Text.endOf_concat]
    exact chain_not_fresh (hu c (by simp))

/-! What a substitution does to a style. -/

/-- In front of a character one word is turned into another, or left alone if they are the same. -/
def Turns (s : Substitution) (sep : Char) (x y : Text) : Prop :=
  ∀ b t, Pattern.freshName b = true →
    (s.pattern.fits? b (x ++ sep :: t) = none ∧ y = x) ∨
      ∃ parts, s.pattern.fits? b (x ++ sep :: t) = some parts ∧ parts.flatten = x ∧
        ∀ i, s.replacement ⟨i, parts⟩ = y

/-- What stands behind a word in the head of a class. -/
def StopsWord (t : Text) : Prop := t.head?.all (fun c => !Text.isBlank c && c != '(') = true

/-- A substitution of names that turns one style into another and leaves lone words alone. -/
structure Renames (s : Substitution) (σ σ' : Style) : Prop where
  tame : s.Tame
  lone : ∀ {b w t}, (∀ c ∈ w, Text.isNamePart c = true) → w ≠ "var".toList → StopsWord t →
    s.pattern.fits? b (w ++ ' ' :: t) = none
  root : Turns s '.' σ.root σ'.root
  keyword : Turns s ' ' σ.keyword σ'.keyword

section

variable {s : Substitution} {ms : List Bool} {i : Nat}

theorem spread_turns {sep : Char} {x y : Text} (htame : s.Tame) (hturn : Turns s sep x y)
    (hne : x ≠ []) (hx : ∀ c ∈ x, Substitution.isChain c = true) {b : Option Char}
    (hb : Pattern.freshName b = true) (hcode : ms.getD i true = true) (t : Text) :
    s.spread ms b i (x ++ sep :: t) =
      y ++ s.spread ms (endOf b x) (i + x.length) (sep :: t) := by
  rcases hturn b t hb with ⟨hnone, rfl⟩ | ⟨parts, hfit, hparts, hgiven⟩
  · exact Substitution.spread_silent _ (tame_word htame hx hnone) i
  · rw [Substitution.spread_fit _ hne hfit hparts hcode, hgiven]

end

theorem name_stops {n : Text} (hn : Text.isName n = true) (t : Text) : StopsWord (n ++ t) := by
  obtain ⟨c, u, rfl, hc⟩ := Text.name_head hn
  have hblank : Text.isBlank c = false := by
    by_contra h
    have := Text.blank_not_part (Bool.not_eq_false _ ▸ h)
    rw [Text.start_part hc] at this
    exact Bool.noConfusion this
  have hopen : c ≠ '(' := by
    rintro rfl
    revert hc
    decide
  simp [StopsWord, hblank, hopen]

section

variable {s : Substitution} {ms : List Bool} {i : Nat} {σ σ' : Style} (hs : Renames s σ σ')
include hs

/-- A word of the head of a class, with the blank behind it. -/
theorem lone_silent {w : Text} (hw : ∀ c ∈ w, Text.isNamePart c = true) (hvar : w ≠ "var".toList)
    {t : Text} (ht : StopsWord t) (b : Option Char) : s.pattern.Silent b (w ++ [' ']) t := by
  refine Pattern.silent_append.2 ⟨tame_word hs.tame (fun c hc => ?_) (hs.lone hw hvar ht), ?_⟩
  · simp [Substitution.isChain, hw c hc]
  · exact tame_marks hs.tame (by decide) _ _

/-- The name of a class and what follows it stay. -/
theorem head_rest_silent {name : Text} (hn : Text.isName name = true) (hvar : name ≠ "var".toList)
    (base : Base) (b : Option Char) (t : Text) :
    s.pattern.Silent b (name ++ (Row.headRest name base ++ ['\n'])) t := by
  have htext : name ++ (Row.headRest name base ++ ['\n']) =
      (name ++ [' ']) ++ ("= ".toList ++ (("class".toList ++ [' ']) ++ ((name ++ [' ']) ++
        (("extends".toList ++ [' ']) ++ ((base.text ++ [' ']) ++ "\x7b\n".toList))))) := by
    have h1 : " = class ".toList = [' '] ++ ("= ".toList ++ ("class".toList ++ [' '])) := rfl
    have h2 : " extends ".toList = [' '] ++ ("extends".toList ++ [' ']) := rfl
    have h3 : " \x7b".toList ++ ['\n'] = [' '] ++ "\x7b\n".toList := rfl
    unfold Row.headRest
    simp only [List.append_assoc]
    rw [h3, h2, h1]
    simp only [List.append_assoc]
  have hname := Text.name_parts hn
  have hbase : base.text ≠ "var".toList := by cases base <;> decide
  have hbaseName : Text.isName base.text = true := by cases base <;> decide
  have hequals : ∀ t, StopsWord ("= ".toList ++ t) := by
    intro t
    simp [StopsWord]
    decide
  have hextends : ∀ t, StopsWord ("extends".toList ++ t) := by
    intro t
    simp [StopsWord]
    decide
  have hbrace : ∀ t, StopsWord ("\x7b\n".toList ++ t) := by
    intro t
    simp [StopsWord]
    decide
  rw [htext]
  refine Pattern.silent_append.2 ⟨lone_silent hs hname hvar ?_ _,
    Pattern.silent_append.2 ⟨tame_marks hs.tame (by decide) _ _,
    Pattern.silent_append.2 ⟨lone_silent hs (by decide) (by decide) ?_ _,
    Pattern.silent_append.2 ⟨lone_silent hs hname hvar ?_ _,
    Pattern.silent_append.2 ⟨lone_silent hs (by decide) (by decide) ?_ _,
    Pattern.silent_append.2 ⟨lone_silent hs (base_chars base) hbase (hbrace _) _,
      tame_marks hs.tame (by decide) _ _⟩⟩⟩⟩⟩⟩
  · rw [List.append_assoc]
    exact hequals _
  · rw [List.append_assoc, List.append_assoc]
    exact name_stops hn _
  · rw [List.append_assoc, List.append_assoc]
    exact hextends _
  · rw [List.append_assoc, List.append_assoc]
    exact name_stops hbaseName _

omit hs in
/-- The first word behind an indent is turned. -/
theorem lead_spread {sep : Char} {x y indent t : Text} (htame : s.Tame) (hturn : Turns s sep x y)
    (hne : x ≠ []) (hx : ∀ c ∈ x, Substitution.isChain c = true)
    (hi : ∀ c ∈ indent, isIndent c = true)
    (hms : MarksAt ms i .fresh (indent ++ (x ++ sep :: t))) :
    ∃ b, Pattern.freshName b = false ∧ s.spread ms (some '\n') i (indent ++ (x ++ sep :: t)) =
      indent ++ (y ++ s.spread ms b (i + indent.length + x.length) (sep :: t)) := by
  have hmarks : ∀ c ∈ indent, Substitution.isChain c = false := by
    intro c hc
    have := hi c hc
    simp only [isIndent, Bool.or_eq_true, beq_iff_eq] at this
    rcases this with rfl | rfl <;> decide
  have hfresh : Pattern.freshName (endOf (some '\n') indent) = true :=
    blank_fresh (by decide) fun c hc => Text.indent_blank (hi c hc)
  obtain ⟨n, hn, hscan, _⟩ := Script.scan_harmless (m := .fresh) rfl
    fun c hc => harmless_of (by decide) (hi c hc)
  have hcode : ms.getD (i + indent.length) true = true := by
    obtain ⟨c, x', rfl⟩ := List.exists_cons_of_ne_nil hne
    refine marks_head (marks_next hms hscan) hn (Script.opens_not_quote ?_)
    exact (harmless_of (by decide) (hx c (by simp))).1
  refine ⟨endOf (endOf (some '\n') indent) x, chain_end hne hx, ?_⟩
  rw [Substitution.spread_silent _ (tame_marks htame hmarks _ _),
    spread_turns htame hturn hne hx hfresh hcode]

variable (hσ : σ.Proper)
include hσ

theorem head_spread {indent name : Text} {exported : Bool} {base : Base}
    (hr : (Row.head indent exported name base).Fine) {t : Text}
    (hms : MarksAt ms i .fresh ((Row.head indent exported name base).text σ ++ '\n' :: t)) :
    s.spread ms (some '\n') i ((Row.head indent exported name base).text σ ++ '\n' :: t) =
      (Row.head indent exported name base).text σ' ++ '\n' :: s.spread ms (some '\n')
        (i + ((Row.head indent exported name base).text σ).length + 1) t := by
  obtain ⟨hi, hn, hvar⟩ := hr
  have hrest := head_rest_silent hs hn hvar base
  have hlead : ∀ {x y : Text} {sep : Char}, Turns s sep x y → x ≠ [] →
      (∀ c ∈ x, Substitution.isChain c = true) →
      (∀ b t, Pattern.freshName b = false → s.pattern.Silent b [sep] t) →
      MarksAt ms i .fresh (indent ++ (x ++ sep :: (name ++ (Row.headRest name base ++ '\n' :: t)))) →
      s.spread ms (some '\n') i
          (indent ++ (x ++ sep :: (name ++ (Row.headRest name base ++ '\n' :: t)))) =
        indent ++ (y ++ sep :: (name ++ (Row.headRest name base ++ '\n' :: s.spread ms (some '\n')
          (i + (indent ++ (x ++ sep :: (name ++ Row.headRest name base))).length + 1) t))) := by
    intro x y sep hturn hne hx hsep hms
    obtain ⟨b, hb, hspread⟩ := lead_spread hs.tame hturn hne hx hi hms
    have hsilent : s.pattern.Silent b ([sep] ++ (name ++ (Row.headRest name base ++ ['\n']))) t :=
      Pattern.silent_append.2 ⟨hsep b _ hb, hrest _ _⟩
    have hend := Substitution.spread_silent ms hsilent (i + indent.length + x.length)
    have hnew : endOf b ([sep] ++ (name ++ (Row.headRest name base ++ ['\n']))) = some '\n' := by
      rw [← List.append_assoc, ← List.append_assoc, Text.endOf_concat]
    have hlen : i + indent.length + x.length +
        ([sep] ++ (name ++ (Row.headRest name base ++ ['\n']))).length =
        i + (indent ++ (x ++ sep :: (name ++ Row.headRest name base))).length + 1 := by
      simp only [List.length_append, List.length_cons, List.length_nil]
      omega
    rw [hnew, hlen] at hend
    simp only [List.append_assoc, List.cons_append, List.nil_append] at hend
    rw [hspread, hend]
  cases exported with
  | true =>
    have hshape : ∀ (ρ : Style) (v : Text), (Row.head indent true name base).text ρ ++ v =
        indent ++ (ρ.root ++ '.' :: (name ++ (Row.headRest name base ++ v))) := by
      intro ρ v
      simp [Row.text, Row.lead]
    have hlen : (Row.head indent true name base).text σ =
        indent ++ (σ.root ++ '.' :: (name ++ Row.headRest name base)) := by
      simpa using hshape σ []
    rw [hshape] at hms ⊢
    rw [hlead hs.root hσ.root_some hσ.root (fun b t hb => tame_bound hs.tame hb (by decide) t) hms,
      hshape, hlen]
  | false =>
    have hshape : ∀ (ρ : Style) (v : Text), (Row.head indent false name base).text ρ ++ v =
        indent ++ (ρ.keyword ++ ' ' :: (name ++ (Row.headRest name base ++ v))) := by
      intro ρ v
      simp [Row.text, Row.lead]
    have hlen : (Row.head indent false name base).text σ =
        indent ++ (σ.keyword ++ ' ' :: (name ++ Row.headRest name base)) := by
      simpa using hshape σ []
    rw [hshape] at hms ⊢
    rw [hlead hs.keyword hσ.keyword_some hσ.keyword
      (fun b t _ => tame_marks hs.tame (by decide) b t) hms, hshape, hlen]

omit hσ in
/-- A line of code is recast. -/
theorem renames_code {x : Text} (hx : Row.Plain x) {t : Text}
    (hms : MarksAt ms i .fresh (x ++ '\n' :: t)) :
    ∃ x', s.spread ms (some '\n') i (x ++ '\n' :: t) =
      x' ++ '\n' :: s.spread ms (some '\n') (i + x.length + 1) t ∧ Kept [.code x] [.code x'] := by
  obtain ⟨n, hn, hscan⟩ := Script.tidy_bare hx.bare
  have hcode := marks_code hms rfl (Script.bare_unquoted hx.bare) hscan
  have hline : Substitution.isChain '\n' = false := by decide
  obtain ⟨x', hspread, hcast⟩ := Substitution.spread_recast hcode
    (Substitution.tame_stays hs.tame (some '\n') x hline t)
  refine ⟨x', ?_, ?_, rfl, ?_⟩
  · rw [hspread, Substitution.spread_step (tame_head hs.tame hline t)]
  · have hchars := Substitution.recast_chars hs.tame hcast
    have hlacks : ∀ {c : Char}, c ∉ x → Substitution.isPlainMark c = false → c ∉ x' := by
      intro c hc hmark hm
      rcases hchars c hm with h | h
      · exact hc h
      · rw [hmark] at h
        exact Bool.noConfusion h
    have hplain : Row.Plain x' := by
      refine ⟨hlacks hx.one_line (by decide), ⟨?_, ?_⟩, ?_, ?_, ?_⟩
      · intro c hc
        rcases hchars c hc with h | h
        · exact hx.bare.1 c h
        · exact (harmless_of (by decide) h).1
      · exact fun h => hx.bare.2 (Substitution.recast_absent hs.tame (by decide) (by decide) hcast h)
      · exact fun h => hx.no_extend (Substitution.recast_dotted hs.tame (x := "extend".toList)
          (d := '(') (by decide) ⟨_, rfl, by decide⟩ hcast h)
      · exact fun h => hx.no_call (Substitution.recast_dotted hs.tame (x := "call".toList)
          (d := '(') (by decide) ⟨_, rfl, by decide⟩ hcast h)
      · exact fun h => hx.no_assets (Substitution.recast_dotted hs.tame (x := "asset".toList)
          (d := 's') (by decide) ⟨_, rfl, by decide⟩ hcast h)
    simpa [Row.Fine] using hplain
  · have := Substitution.recast_filter hs.tame (p := Script.isBracket)
      (fun c hc => not_bracket (by decide) hc) hcast
    simp [Row.brackets, this]

end

/-! The assets assignment. -/

theorem filler_not_chain {c : Char} (h : isFiller c = true) : Substitution.isChain c = false := by
  simp only [isFiller, Bool.or_eq_true, beq_iff_eq] at h
  rcases h with (h | rfl) | rfl
  · have hdot : c ≠ '.' := by
      rintro rfl
      revert h
      decide
    simp [Substitution.isChain, Text.blank_not_part h, hdot]
  · decide
  · decide

section

variable {s : Substitution} (htame : s.Tame) {ms : List Bool}
include htame

theorem fillers_spread {u : Text} (hu : ∀ c ∈ u, isFiller c = true) {i : Nat} {m : Script.Post}
    (hm : m.inString = false) {b : Option Char} {t : Text} (hms : MarksAt ms i m (u ++ t)) :
    s.spread ms b i (u ++ t) = u ++ s.spread ms (endOf b u) (i + u.length) t ∧
      ∃ n, n.inString = false ∧ MarksAt ms (i + u.length) n t := by
  obtain ⟨n, hn, hscan, _⟩ := Script.scan_harmless hm fun c hc => harmless_of (by decide) (hu c hc)
  exact ⟨Substitution.spread_silent _ (tame_marks htame (fun c hc => filler_not_chain (hu c hc)) _ _) i,
    n, hn, marks_next hms hscan⟩

/-- A string stays. -/
theorem quote_spread {u : Text} (hu : AssetString u) {i : Nat} {m : Script.Post}
    (hm : m.inString = false) {b : Option Char} {t : Text} (hms : MarksAt ms i m (quoteText u ++ t)) :
    s.spread ms b i (quoteText u ++ t) =
        quoteText u ++ s.spread ms (endOf b (quoteText u)) (i + (quoteText u).length) t ∧
      MarksAt ms (i + (quoteText u).length) .behind t := by
  have hquote : Substitution.isChain '\x22' = false := by decide
  have hin := asset_inside hu
  have hnext : m.next '\x22' = some (.quoted '\x22') := by
    rw [Script.Post.next_plain hm]
    rfl
  have htext : quoteText u ++ t = '\x22' :: (u ++ '\x22' :: t) := by simp [quoteText]
  have hopen : MarksAt ms (i + 1) (.quoted '\x22') (u ++ '\x22' :: t) := by
    rw [htext] at hms
    exact marks_next (u := ['\x22']) hms (by rw [Script.scan, hnext]; rfl)
  have hmasked := marks_inside hopen hin
  have hkept := Substitution.spread_kept (i := i + 1) (b := some '\x22') (u := u)
    (Substitution.tame_stays htame (some '\x22') u hquote t)
    (by
      intro a v huv hv _
      exact hmasked a.length (by rw [huv, List.length_append]; have := List.length_pos_iff.2 hv; omega))
  have hend : endOf b (quoteText u) = some '\x22' := by
    rw [show quoteText u = ('\x22' :: u) ++ ['\x22'] from rfl, Text.endOf_concat]
  refine ⟨?_, marks_next hms (Script.scan_quotes hm rfl hin).1⟩
  rw [htext, Substitution.spread_step (tame_head htame hquote _), hkept,
    Substitution.spread_step (tame_head htame hquote _), hend]
  have hlen : i + (quoteText u).length = i + 1 + u.length + 1 := by simp [quoteText]; omega
  rw [hlen]
  simp [quoteText]

theorem pair_spread {p : AssetPair} (hp : p.Formed) {i : Nat} {m : Script.Post}
    (hm : m.inString = false) {b : Option Char} {t : Text} (hms : MarksAt ms i m (p.text ++ t)) :
    s.spread ms b i (p.text ++ t) = p.text ++ s.spread ms (endOf b p.text) (i + p.text.length) t ∧
      MarksAt ms (i + p.text.length) .behind t := by
  have htext : ∀ t, p.text ++ t =
      p.lead ++ (quoteText p.id ++ (p.middle ++ (quoteText p.path ++ t))) := by
    simp [AssetPair.text]
  rw [htext] at hms ⊢
  obtain ⟨h1, n, hn, hms⟩ := fillers_spread htame hp.lead hm (b := b) hms
  obtain ⟨h2, hms⟩ := quote_spread htame hp.id hn (b := endOf b p.lead) hms
  obtain ⟨h3, k, hk, hms⟩ := fillers_spread htame hp.middle rfl
    (b := endOf (endOf b p.lead) (quoteText p.id)) hms
  obtain ⟨h4, hms⟩ := quote_spread htame hp.path hk
    (b := endOf (endOf (endOf b p.lead) (quoteText p.id)) p.middle) hms
  have hlen : i + p.text.length = i + p.lead.length + (quoteText p.id).length + p.middle.length +
      (quoteText p.path).length := by
    simp only [AssetPair.text, List.length_append]
    omega
  have hend : endOf b p.text = endOf (endOf (endOf (endOf b p.lead) (quoteText p.id)) p.middle)
      (quoteText p.path) := by
    simp only [AssetPair.text, Text.endOf_append]
  rw [hlen, hend]
  exact ⟨by rw [h1, h2, h3, h4, htext], hms⟩

theorem pairs_spread {ps : List AssetPair} (hps : ∀ p ∈ ps, p.Formed) {i : Nat} {m : Script.Post}
    (hm : m.inString = false) {b : Option Char} {t : Text}
    (hms : MarksAt ms i m (ps.flatMap AssetPair.text ++ t)) :
    s.spread ms b i (ps.flatMap AssetPair.text ++ t) = ps.flatMap AssetPair.text ++
        s.spread ms (endOf b (ps.flatMap AssetPair.text))
          (i + (ps.flatMap AssetPair.text).length) t := by
  induction ps generalizing i m b with
  | nil => rfl
  | cons p ps ih =>
    rw [List.flatMap_cons, List.append_assoc] at hms ⊢
    obtain ⟨h, hnext⟩ := pair_spread htame (hps p (by simp)) hm (b := b) hms
    rw [h, ih (fun q hq => hps q (by simp [hq])) rfl hnext, Text.endOf_append, List.append_assoc,
      List.length_append, Nat.add_assoc]

end

/-! The parts of an assignment. -/

theorem assignment_row (e : Export) (root t : Text) :
    e.assignment root ++ '\n' :: t = e.indent ++ (root ++ (e.assigned ++
      (e.pairs.flatMap AssetPair.text ++ ((e.close ++ "\x7d;\n".toList) ++ t)))) := by
  simp [Export.assignment, Export.assigned, Export.inner]

theorem assignment_length (e : Export) (root : Text) : (e.assignment root).length + 1 =
    e.indent.length + root.length + e.assigned.length + (e.pairs.flatMap AssetPair.text).length +
      (e.close ++ "\x7d;\n".toList).length := by
  have := congrArg List.length (assignment_row e root [])
  simp only [List.length_append, List.length_cons, List.length_nil] at this ⊢
  omega

theorem assigned_silent {s : Substitution} (htame : s.Tame) {e : Export} (he : e.Formed)
    {b : Option Char} (hb : Pattern.freshName b = false) (t : Text) :
    s.pattern.Silent b e.assigned t := by
  have htext : e.assigned = ('.' :: (e.stage ++ ".assets".toList)) ++ " = \x7b".toList := by
    simp [Export.assigned]
  have hname : ∀ c ∈ '.' :: (e.stage ++ ".assets".toList), Substitution.isChain c = true := by
    simp only [List.mem_cons, List.mem_append]
    rintro c (rfl | hc | hc)
    · decide
    · simp [Substitution.isChain, Text.name_parts he.stage c hc]
    · exact (by decide : ∀ c ∈ ".assets".toList, Substitution.isChain c = true) c hc
  rw [htext]
  exact Pattern.silent_append.2 ⟨tame_bound htame hb hname _, tame_marks htame (by decide) _ _⟩

/-- Behind the last asset the substitution goes on at the next row. -/
theorem close_spread {s : Substitution} (htame : s.Tame) {e : Export} (he : e.Formed)
    (ms : List Bool) (b : Option Char) (i : Nat) (t : Text) :
    s.spread ms b i ((e.close ++ "\x7d;\n".toList) ++ t) = (e.close ++ "\x7d;\n".toList) ++
      s.spread ms (some '\n') (i + (e.close ++ "\x7d;\n".toList).length) t := by
  have hclose : ∀ c ∈ e.close ++ "\x7d;\n".toList, Substitution.isChain c = false := by
    intro c hc
    rcases List.mem_append.1 hc with hc | hc
    · exact filler_not_chain (he.close c hc)
    · exact (by decide : ∀ c ∈ "\x7d;\n".toList, Substitution.isChain c = false) c hc
  have hend : endOf b (e.close ++ "\x7d;\n".toList) = some '\n' := by
    rw [show e.close ++ "\x7d;\n".toList = (e.close ++ "\x7d;".toList) ++ ['\n'] by simp,
      Text.endOf_concat]
  rw [← hend]
  exact Substitution.spread_silent ms (tame_marks htame hclose b t) i

/-- The marks of an assignment at its first asset. -/
theorem marks_pairs {σ : Style} (hσ : σ.Proper) {e : Export} (he : e.Formed) {ms : List Bool}
    {i : Nat} {t : Text} (hms : MarksAt ms i .fresh (e.assignment σ.root ++ '\n' :: t)) :
    ∃ n : Script.Post, n.inString = false ∧
      MarksAt ms (i + e.indent.length + σ.root.length + e.assigned.length) n
        (e.pairs.flatMap AssetPair.text ++ ((e.close ++ "\x7d;\n".toList) ++ t)) := by
  have hroot : ∀ c ∈ σ.root, Script.opensLiteral c = false ∧ c ≠ '>' :=
    fun c hc => harmless_of (by decide) (hσ.root c hc)
  obtain ⟨n, hn, hscan, _⟩ := Script.scan_harmless (m := .fresh) rfl
    (Export.assigned_harmless he hroot)
  have hrow : e.assignment σ.root ++ '\n' :: t = (e.indent ++ (σ.root ++ e.assigned)) ++
      (e.pairs.flatMap AssetPair.text ++ ((e.close ++ "\x7d;\n".toList) ++ t)) := by
    rw [assignment_row]
    simp only [List.append_assoc]
  rw [hrow] at hms
  have := marks_next hms hscan
  rw [List.length_append, List.length_append, ← Nat.add_assoc, ← Nat.add_assoc] at this
  exact ⟨n, hn, this⟩

/-- In an assignment only the name of the library is turned. -/
theorem renames_assignment {s : Substitution} {σ σ' : Style} (hs : Renames s σ σ') (hσ : σ.Proper)
    {e : Export} (he : e.Formed) {ms : List Bool} {i : Nat} {t : Text}
    (hms : MarksAt ms i .fresh (e.assignment σ.root ++ '\n' :: t)) :
    s.spread ms (some '\n') i (e.assignment σ.root ++ '\n' :: t) =
      e.assignment σ'.root ++ '\n' :: s.spread ms (some '\n')
        (i + (e.assignment σ.root).length + 1) t := by
  obtain ⟨n, hn, hinner⟩ := marks_pairs hσ he hms
  rw [assignment_row] at hms
  obtain ⟨b, hb, hlead⟩ := lead_spread (t := e.stage ++ (".assets".toList ++ " = \x7b".toList) ++
    (e.pairs.flatMap AssetPair.text ++ ((e.close ++ "\x7d;\n".toList) ++ t)))
    hs.tame hs.root hσ.root_some hσ.root he.indent hms
  have hassigned := Substitution.spread_silent ms (assigned_silent hs.tame he hb
    (e.pairs.flatMap AssetPair.text ++ ((e.close ++ "\x7d;\n".toList) ++ t)))
    (i + e.indent.length + σ.root.length)
  have hpairs := pairs_spread hs.tame he.pairs hn (b := endOf b e.assigned) hinner
  have hclose := close_spread hs.tame he ms
    (endOf (endOf b e.assigned) (e.pairs.flatMap AssetPair.text))
    (i + e.indent.length + σ.root.length + e.assigned.length +
      (e.pairs.flatMap AssetPair.text).length) t
  have hlen : i + (e.assignment σ.root).length + 1 = i + e.indent.length + σ.root.length +
      e.assigned.length + (e.pairs.flatMap AssetPair.text).length +
        (e.close ++ "\x7d;\n".toList).length := by
    rw [Nat.add_assoc, assignment_length]
    omega
  rw [← hlen] at hclose
  rw [hpairs, hclose] at hassigned
  rw [assignment_row, assignment_row, ← hassigned]
  exact hlead

theorem renames_handles {s : Substitution} {σ σ' : Style} (hs : Renames s σ σ') (hσ : σ.Proper)
    {e : Export} (he : e.Formed) : Handles s e σ σ' := by
  refine ⟨fun t => tame_head hs.tame (by decide) t, ?_, ?_, renames_assignment hs hσ he⟩
  · cases h : s.pattern.fits? (some '\n') [] with
    | none => rfl
    | some parts =>
      obtain ⟨_, r, hr⟩ := Pattern.fits_some.1 h
      have := readAll_flatten hr
      exact absurd (List.append_eq_nil_iff.1 this.symm).1 (hs.tame.taken h).1
  · intro ms i r t hr hms
    cases r with
    | code x =>
      obtain ⟨x', hspread, hkept⟩ := renames_code hs hr hms
      exact ⟨[.code x'], by rw [show (Row.code x).text σ = x from rfl, hspread]; simp [Row.text], hkept⟩
    | head indent exported name base =>
      exact ⟨[.head indent exported name base], by rw [head_spread hs hσ hr hms]; simp,
        kept_self (by simpa using hr)⟩

end Restage.Legacy
