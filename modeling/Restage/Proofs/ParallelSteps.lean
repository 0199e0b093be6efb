import Restage.Proofs.Reword

/-!
One lexeme of a script before and behind a pass. Where the lexer stands in front of a character that
the pass keeps, it reads the same kind of lexeme in both texts, over the same cells, and stands
alike behind them (`step_pairs`), unless the pass replaces a word that the lexeme is about.
-/

set_option autoImplicit false

namespace Restage.Script

/-- What a pass must leave alone at a place where a lexeme begins. No word right behind a regular
expression is replaced, for its flags would be others. A called name is a value, for a method or a
function has no other name. A line that is dropped stands where the lexer is as behind any line. -/
structure Quiet (r : Change) (e : Entry) : Prop where
  regex : e.step.kind = .regex → ∀ old new v, e.behind = old ++ v →
    ¬ r (e.front ++ e.lexeme.text) old new v
  call : ∀ p, e.step.kind = .name → e.lexeme.text = p ++ "fromFrame".toList →
    r (e.front ++ p) "fromFrame".toList "data.getTexture".toList e.behind →
    (e.state.name e.lexeme.text).place = .operator
  drop : ∀ old v, e.char :: e.rest = old ++ v → r e.front old [] v →
    e.state.semicolon.blank true = e.state

/-- Cells in front of which the lexer stands. -/
structure Sound (r : Change) (u : Text) (st : State) (cells : List Cell) : Prop where
  woven : Woven r u cells
  marked : Unmasked (maskOf (settle (lexemesFrom st (oldText cells))).1) cells
  quiet : ∀ e ∈ entriesFrom u st (oldText cells), Quiet r e

/-- Two steps of one kind over the same cells. -/
def Pairs (cells : List Cell) (s s' : Step) : Prop :=
  s.kind = s'.kind ∧ s.state = s'.state ∧ ∃ ks rest, cells = ks ++ rest ∧
    s.more = (oldText ks).length ∧ s'.more = (newText ks).length

section

variable {cells : List Cell}

theorem pairs_none (k : Kind) (st : State) : Pairs cells ⟨k, 0, st⟩ ⟨k, 0, st⟩ :=
  ⟨rfl, rfl, [], cells, rfl, rfl, rfl⟩

theorem pairs_ite {p : Prop} [Decidable p] {a b a' b' : Step} (ha : p → Pairs cells a a')
    (hb : ¬ p → Pairs cells b b') : Pairs cells (if p then a else b) (if p then a' else b') := by
  by_cases hp : p
  · simpa only [if_pos hp] using ha hp
  · simpa only [if_neg hp] using hb hp

theorem pairs_run {p : Char → Bool} (hp : Runs p Reword) {u : Text} (hu : EndsIn p u)
    (hw : Woven Reword u cells) (k : Kind) (st : State) :
    Pairs cells ⟨k, ((oldText cells).takeWhile p).length, st⟩
      ⟨k, ((newText cells).takeWhile p).length, st⟩ := by
  obtain ⟨ks, rest, hcells, hold, hnew⟩ := run_cells hp hu hw
  exact ⟨rfl, rfl, ks, rest, hcells, by rw [hold], by rw [hnew]⟩

theorem pairs_ends {ks rest : List Cell} {c : Char} (h : cells = ks ++ .keep c :: rest) (k : Kind)
    (st : State) : Pairs cells ⟨k, (oldText ks).length + 1, st⟩
      ⟨k, (newText ks).length + 1, st⟩ :=
  ⟨rfl, rfl, ks ++ [.keep c], rest, by simp [h], by simp, by simp⟩

end

/-! Templates. -/

section

variable {u : Text} {cells : List Cell}

theorem mild_cells (hw : Woven Reword u cells) : Woven MildChange u cells :=
  woven_imp reword_mild hw

theorem plain_live {σ : Type} (hu : InLine u) (q : σ) : PlainLive q q u := ⟨hu.1, fun _ => rfl⟩

variable (hw : Woven Reword u cells) (hu : InLine u) (st : State)
include hw hu

theorem template_meets : Scanner.Meets templateScan cells (templateLength? (oldText cells))
    (templateLength? (newText cells)) := by
  rw [template_scan, template_scan]
  exact Scanner.run_meets template_respects (mild_cells hw) (plain_live hu _)

theorem template_pairs :
    Pairs cells (templateStep st (oldText cells)) (templateStep st (newText cells)) := by
  have hmeets := template_meets hw hu
  rw [templateStep, templateStep]
  generalize templateLength? (oldText cells) = o, templateLength? (newText cells) = o' at hmeets
  cases hmeets with
  | never => exact pairs_none _ _
  | ends ks rest c x hcells _ => cases x <;> exact pairs_ends hcells _ _

theorem resume_pairs :
    Pairs cells (resumeStep st (oldText cells)) (resumeStep st (newText cells)) := by
  have hmeets := template_meets hw hu
  rw [resumeStep, resumeStep]
  generalize templateLength? (oldText cells) = o, templateLength? (newText cells) = o' at hmeets
  cases hmeets with
  | never => exact pairs_none _ _
  | ends ks rest c x hcells _ => cases x <;> exact pairs_ends hcells _ _

theorem string_pairs {quote : Char} (hquote : isMild quote = false) (hq : quote ≠ '\\') :
    Pairs cells
      (match stringLength? quote (oldText cells) with
        | some n => ⟨.string, n, st.value⟩
        | none => ⟨.mark, 0, st.value⟩)
      (match stringLength? quote (newText cells) with
        | some n => ⟨.string, n, st.value⟩
        | none => ⟨.mark, 0, st.value⟩) := by
  have hlive : QuotedLive .inside u :=
    ⟨hu.1, fun h => absurd h hu.2, fun h => Quoted.noConfusion h, fun h => Quoted.noConfusion h⟩
  have hmeets := Scanner.run_meets (string_respects hquote) (mild_cells hw) hlive
  rw [string_scan hq, string_scan hq]
  generalize (stringScan quote).run .inside (oldText cells) = o,
    (stringScan quote).run .inside (newText cells) = o' at hmeets
  cases hmeets with
  | never => exact pairs_none _ _
  | ends ks rest c x hcells _ => exact pairs_ends hcells _ _

omit hu in
theorem line_comment_pairs (hlast : EndsIn (fun d => !isNewline d) u) :
    Pairs cells (lineComment st (oldText cells)) (lineComment st (newText cells)) := by
  have hruns : Runs (fun d => !isNewline d) Reword :=
    runs_through (by decide) (fun c hc => by simp [(name_char_unspaced hc).1]) (by decide)
  exact pairs_run hruns hlast hw _ _

end

/-! Marks. -/

/-- How many characters behind it a mark takes: signs that begin no word. -/
theorem mark_step_more (st : State) (c : Char) (cs : Text) : (markStep st c cs).more = 0 ∨
    ∃ d v, cs = d :: v ∧ isWordHead d = false ∧ d ≠ '\n' ∧ ((markStep st c cs).more = 1 ∨
      (markStep st c cs).more = 2 ∧ ∃ e w, v = e :: w ∧ isWordHead e = false) := by
  unfold markStep
  split
  case h_1 => exact Or.inr ⟨_, _, rfl, by decide, by decide, Or.inl rfl⟩
  case h_2 => exact Or.inr ⟨_, _, rfl, by decide, by decide, Or.inl rfl⟩
  case h_3 => exact Or.inr ⟨_, _, rfl, by decide, by decide, Or.inl rfl⟩
  case h_4 => exact Or.inr ⟨_, _, rfl, by decide, by decide, Or.inr ⟨rfl, _, _, rfl, by decide⟩⟩
  case h_6 =>
    split
    · exact Or.inl rfl
    · exact Or.inr ⟨_, _, rfl, by decide, by decide, Or.inl rfl⟩
  case h_7 => exact Or.inr ⟨_, _, rfl, by decide, by decide, Or.inl rfl⟩
  all_goals exact Or.inl rfl

/-- A text that begins with no word, in a line. -/
theorem keep_cells {u : Text} {cells : List Cell} (hw : Woven Reword u cells) (hu : InLine u)
    {c : Char} {t : Text} (h : oldText cells = c :: t) (hc : isWordHead c = false) :
    ∃ rest, cells = .keep c :: rest ∧ oldText rest = t := by
  rcases heads_cells hw hu with rfl | ⟨d, rest, rfl⟩ | ⟨⟨d, w, hold, hd⟩, _⟩
  · simp at h
  · obtain ⟨rfl, rfl⟩ := List.cons.inj h
    exact ⟨rest, rfl, rfl⟩
  · rw [hold] at h
    rw [(List.cons.inj h).1, hc] at hd
    exact Bool.noConfusion hd

theorem mark_pairs {u : Text} {cells : List Cell} (hw : Woven Reword u cells) (hu : InLine u)
    (st : State) (c : Char) :
    Pairs cells (markStep st c (oldText cells)) (markStep st c (newText cells)) := by
  rw [mark_step_cells hw hu]
  refine ⟨rfl, rfl, ?_⟩
  rcases mark_step_more st c (oldText cells) with h | ⟨d, v, hcut, hd, hline, hmore⟩
  · exact ⟨[], cells, rfl, h, h⟩
  · obtain ⟨rest, rfl, rfl⟩ := keep_cells hw hu hcut hd
    rcases hmore with h | ⟨h, e, w, hcut', he⟩
    · exact ⟨[.keep d], rest, rfl, h, h⟩
    · obtain ⟨rest', rfl, rfl⟩ := keep_cells (woven_keep hw) (in_line_concat hline) hcut' he
      exact ⟨[.keep d, .keep e], rest', rfl, h, h⟩

/-! Comments and regular expressions. -/

theorem replaced_marked {ms : List Bool} {ks rest : List Cell} {old new : Text}
    (h : Unmasked ms (ks ++ .swap old new :: rest)) {n : Nat} {ns : List Bool}
    (hms : ms = List.replicate n false ++ ns) : n ≤ (oldText ks).length := by
  by_contra hn
  have hcut : List.replicate n false = List.replicate (oldText ks).length false ++
      List.replicate (n - (oldText ks).length) false := by
    rw [List.replicate_append_replicate]
    congr 1
    omega
  rw [hms, hcut, List.append_assoc] at h
  have hhead := (unmasked_behind (by simp) h).1
  obtain ⟨k, hk⟩ : ∃ k, n - (oldText ks).length = k + 1 := ⟨n - (oldText ks).length - 1, by omega⟩
  rw [hk, List.replicate_succ] at hhead
  exact Bool.noConfusion hhead

theorem flag_part {d : Char} (hd : isFlag d = true) : Text.isNamePart d = true := by
  have hrange : d.toNat ∈ List.range' 97 26 := by
    simp only [isFlag, Bool.and_eq_true, decide_eq_true_eq, Char.le_def,
      UInt32.le_iff_toNat_le] at hd
    have ha : 'a'.val.toNat = 97 := rfl
    have hz : 'z'.val.toNat = 122 := rfl
    have hcode : d.toNat = d.val.toNat := rfl
    rw [List.mem_range'_1]
    omega
  have hall : ∀ n ∈ List.range' 97 26, Text.isNamePart (Char.ofNat n) = true := by decide
  rw [← Char.ofNat_toNat d]
  exact hall _ hrange

/-- Right behind a flag no word is replaced. -/
theorem flag_runs : Runs isFlag Reword := by
  intro u old new v hrel hu
  have hbound : Pattern.freshName u.getLast? = false := by
    rw [EndsIn] at hu
    cases hlast : u.getLast? with
    | none => simp [hlast] at hu
    | some d =>
      rw [hlast, Option.any_some] at hu
      simp [Pattern.freshName, flag_part hu]
  have hline : InLine u := in_line_ends (p := isFlag) (by decide) hu
  cases hrel with
  | link hfresh => rw [hfresh] at hbound; exact Bool.noConfusion hbound
  | bind hfresh => rw [hfresh] at hbound; exact Bool.noConfusion hbound
  | call hfresh => rw [hfresh] at hbound; exact Bool.noConfusion hbound
  | drop hfront => exact absurd hline (front_not_in_line hfront)

theorem regex_stop {q : Expressed} {d : Char} {x : Unit} (hstop : regexScan q d = .stop x) :
    d = '/' := by
  obtain ⟨inClass, escaped⟩ := q
  simp only [regexScan] at hstop
  split_ifs at hstop with h1 h2 h3 h4
  exact h4.1

section

variable {r : Change} (hr : ∀ {u old new v}, r u old new v → Reword u old new v) {u : Text}
  {st : State} {c : Char} {cells : List Cell} (h : Sound r u st (.keep c :: cells))
include h

/-- The marks of a literal other than a template. -/
theorem literal_marks (hk : (step st c (oldText cells)).kind ∈ [.comment, .string, .regex]) :
    ∃ ms, Unmasked (List.replicate (step st c (oldText cells)).more false ++ ms) cells := by
  have hmarked := h.marked
  rw [old_text_keep, lexemes_cons] at hmarked
  have hsettled : ∀ (x : Lexeme) (xs : List Lexeme), x.kind ∈ [.comment, .string, .regex] →
      (settle (x :: xs)).1 = x :: (settle xs).1 := by
    intro x xs hx
    simp only [List.mem_cons, List.not_mem_nil, or_false] at hx
    rcases hx with hx | hx | hx <;> simp [settle, hx]
  have hliteral : (step st c (oldText cells)).kind.isLiteral = true := by
    simp only [List.mem_cons, List.not_mem_nil, or_false] at hk
    rcases hk with hk | hk | hk <;> rw [hk] <;> rfl
  rw [hsettled _ _ hk, mask_cons, List.length_cons, List.length_take,
    Nat.min_eq_left (step_within st c _), List.replicate_succ, hliteral] at hmarked
  exact ⟨_, hmarked⟩

/-- No word is replaced right behind a regular expression: its first letters would be flags, or it
stands where the pass must leave words alone. -/
theorem regex_unreplaced {ks rest : List Cell} {old new : Text}
    (hcells : cells = ks ++ .keep '/' :: .swap old new :: rest)
    (hkind : (step st c (oldText cells)).kind = .regex) (hmore : (step st c (oldText cells)).more =
      (oldText ks).length + 1 +
        ((oldText (.swap old new :: rest)).takeWhile isFlag).length) : False := by
  obtain ⟨ms, hms⟩ := literal_marks h (by rw [hkind]; decide)
  have hcut : cells = (ks ++ [.keep '/']) ++ .swap old new :: rest := by simp [hcells]
  rw [hcut] at hms
  have hover := replaced_marked hms rfl
  rw [← hcut, hmore] at hover
  have hflags : (oldText (.swap old new :: rest)).takeWhile isFlag = [] := by
    rw [← List.length_eq_zero_iff]
    simp only [old_text_append, old_text_keep, old_text_nil, List.length_append,
      List.length_cons, List.length_nil] at hover
    omega
  rw [hflags, List.length_nil, Nat.add_zero] at hmore
  have hold : oldText cells = (oldText ks ++ ['/']) ++ (old ++ oldText rest) := by simp [hcells]
  have hlen : (step st c (oldText cells)).more = (oldText ks ++ ['/']).length := by
    rw [hmore]
    simp
  have hquiet := (h.quiet ⟨u, st, c, oldText cells⟩
    (by rw [old_text_keep, entries_cons]; exact List.mem_cons_self)).regex hkind old new
    (oldText rest)
  have hwoven := h.woven
  rw [hcells] at hwoven
  have hrel := (woven_swap (woven_keep (woven_behind (woven_keep hwoven)))).1
  refine hquiet ?_ ?_
  · show (oldText cells).drop (step st c (oldText cells)).more = _
    rw [hlen, hold, List.drop_left]
  · show r (u ++ (c :: (oldText cells).take (step st c (oldText cells)).more)) _ _ _
    rw [hlen, hold, List.take_left]
    simpa using hrel

include hr

/-- The text of such a literal stays. -/
theorem literal_kept (hk : (step st c (oldText cells)).kind ∈ [.comment, .string, .regex])
    {ks rest : List Cell} (hcells : cells = ks ++ rest)
    (hn : (oldText ks).length = (step st c (oldText cells)).more) : newText ks = oldText ks := by
  obtain ⟨ms, hms⟩ := literal_marks h hk
  subst hcells
  obtain ⟨p, rfl⟩ := masked_keeps (fun hrel => reword_some (hr hrel)) (woven_keep h.woven) hn hms
  rw [new_text_kept, old_text_kept]

/-- The flags of a regular expression are the same in both texts. -/
theorem flags_cells {ks rest : List Cell} (hcells : cells = ks ++ .keep '/' :: rest)
    (hkind : (step st c (oldText cells)).kind = .regex) (hmore : (step st c (oldText cells)).more =
      (oldText ks).length + 1 + ((oldText rest).takeWhile isFlag).length) :
    ∃ fs rest', rest = fs ++ rest' ∧ (oldText rest).takeWhile isFlag = oldText fs ∧
      (newText rest).takeWhile isFlag = newText fs := by
  have hw : Woven Reword u (.keep c :: cells) := woven_imp hr h.woven
  cases rest with
  | nil => exact ⟨[], [], rfl, rfl, rfl⟩
  | cons d rest =>
    cases d with
    | keep d =>
      by_cases hd : isFlag d = true
      · have hrest : Woven Reword (u ++ [c] ++ oldText ks ++ ['/'] ++ [d]) rest := by
          rw [hcells] at hw
          exact woven_keep (woven_keep (woven_behind (woven_keep hw)))
        obtain ⟨fs, rest', rfl, hold, hnew⟩ := run_cells flag_runs (ends_in_concat.2 hd) hrest
        refine ⟨.keep d :: fs, rest', rfl, ?_, ?_⟩
        · rw [old_text_keep, List.takeWhile_cons_of_pos hd, hold, old_text_keep]
        · rw [new_text_keep, List.takeWhile_cons_of_pos hd, hnew, new_text_keep]
      · exact ⟨[], .keep d :: rest, rfl, by simp [hd], by simp [hd]⟩
    | swap old new => exact (regex_unreplaced h hcells hkind hmore).elim

theorem slash_pairs (hc : c = '/')
    (hstep : step st c (oldText cells) = slashStep st (oldText cells)) :
    Pairs cells (slashStep st (oldText cells)) (slashStep st (newText cells)) := by
  subst hc
  have hw : Woven Reword (u ++ ['/']) cells := woven_imp hr (woven_keep h.woven)
  have hlive : ExpressedLive ⟨false, false⟩ (u ++ ['/']) := in_line_concat (by decide)
  have hmeets := Scanner.run_meets regex_respects (mild_cells hw) hlive
  rw [slashStep, slashStep]
  refine pairs_ite (fun hregex => ?_) fun _ => pairs_none _ _
  rw [slashStep, if_pos hregex, regex_scan] at hstep
  rw [regex_scan, regex_scan]
  generalize regexScan.run ⟨false, false⟩ (oldText cells) = o,
    regexScan.run ⟨false, false⟩ (newText cells) = o' at hmeets hstep
  cases hmeets with
  | never => exact pairs_none _ _
  | ends ks rest d x hcells hstop =>
    obtain ⟨q, hq⟩ := hstop
    obtain rfl := regex_stop hq
    have hdrop : ∀ a b : Text, (a ++ '/' :: b).drop (a.length + 1) = b := by
      intro a b
      rw [← List.drop_drop, List.drop_left]
      rfl
    have hold : (oldText cells).drop ((oldText ks).length + 1) = oldText rest := by
      rw [hcells, old_text_append, old_text_keep, hdrop]
    have hnew : (newText cells).drop ((newText ks).length + 1) = newText rest := by
      rw [hcells, new_text_append, new_text_keep, hdrop]
    simp only [Option.map_some, hold] at hstep
    simp only [Option.map_some, hold, hnew]
    obtain ⟨fs, rest', rfl, hfold, hfnew⟩ := flags_cells hr h hcells (by rw [hstep]) (by rw [hstep])
    refine ⟨rfl, rfl, ks ++ .keep '/' :: fs, rest', by simp [hcells], ?_, ?_⟩
    · rw [hfold]
      simp only [old_text_append, old_text_keep, List.length_append, List.length_cons]
      omega
    · rw [hfnew]
      simp only [new_text_append, new_text_keep, List.length_append, List.length_cons]
      omega

theorem block_comment_pairs (hc : c = '/') {rest : List Cell} (hcells : cells = .keep '*' :: rest)
    (hstep : step st c (oldText cells) = blockComment st (oldText cells)) :
    Pairs cells (blockComment st (oldText cells)) (blockComment st (newText cells)) := by
  have hw : Woven Reword (u ++ [c] ++ ['*']) rest :=
    woven_imp hr (woven_keep (woven_keep (hcells ▸ h.woven)))
  have hline : InLine (u ++ [c] ++ ['*']) := in_line_concat (by decide)
  have hmeets := Scanner.run_meets comment_respects (mild_cells hw) (plain_live hline _)
  have hslash := slash_pairs hr h hc
  have hkept := fun hk => @literal_kept r hr u st c cells h hk
  subst hcells
  rw [old_text_keep, blockComment, List.drop_one, List.tail_cons, comment_scan] at hstep
  rw [old_text_keep, new_text_keep, blockComment, blockComment, List.drop_one, List.drop_one,
    List.tail_cons, List.tail_cons, comment_scan, comment_scan]
  generalize commentScan.run false (oldText rest) = o,
    commentScan.run false (newText rest) = o' at hmeets hstep
  cases hmeets with
  | never => exact hslash hstep
  | ends ks rest' d x hcut _ =>
    simp only [Option.map_some] at hstep ⊢
    have hkind : (step st c (oldText (.keep '*' :: rest))).kind ∈ [.comment, .string, .regex] := by
      rw [old_text_keep, hstep]
      simp
    have hmore : (step st c (oldText (.keep '*' :: rest))).more = (oldText ks).length + 1 + 1 := by
      rw [old_text_keep, hstep]
    have hcells : Cell.keep '*' :: rest = .keep '*' :: (ks ++ [.keep d]) ++ rest' := by simp [hcut]
    have hsame := hkept hkind hcells (by rw [hmore]; simp)
    simp only [new_text_keep, new_text_append, old_text_keep, old_text_append, new_text_nil,
      old_text_nil, List.cons.injEq, true_and, List.append_cancel_right_eq] at hsame
    have htake : ∀ a b : Text, ('*' :: (a ++ d :: b)).take (a.length + 1) = '*' :: a := by
      intro a b
      rw [List.take_succ_cons, List.take_left]
    have hold : ('*' :: oldText rest).take ((oldText ks).length + 1) = '*' :: oldText ks := by
      rw [hcut, old_text_append, old_text_keep, htake]
    have hnew : ('*' :: newText rest).take ((newText ks).length + 1) = '*' :: newText ks := by
      rw [hcut, new_text_append, new_text_keep, htake]
    rw [hsame] at hnew
    refine ⟨rfl, by simp only [hold, hsame, hnew], .keep '*' :: (ks ++ [.keep d]), rest', ?_, ?_,
      ?_⟩
    · simp [hcut]
    · simp
    · simp

/-! The lexeme at a character. -/

omit h hr in
theorem digit_name_char (hd : Text.isDigit c = true) : isNameChar c = true := by
  have hrange : c.toNat ∈ List.range' 48 10 := by
    simp only [Text.isDigit, Bool.and_eq_true, decide_eq_true_eq, Char.le_def,
      UInt32.le_iff_toNat_le] at hd
    have h0 : '0'.val.toNat = 48 := rfl
    have h9 : '9'.val.toNat = 57 := rfl
    have hcode : c.toNat = c.val.toNat := rfl
    rw [List.mem_range'_1]
    omega
  have hall : ∀ n ∈ List.range' 48 10, isNameChar (Char.ofNat n) = true := by decide
  rw [← Char.ofNat_toNat c]
  exact hall _ hrange

/-- Where no word begins, the lexeme at a kept character is of one kind and over the same cells in
both texts. -/
theorem step_pairs (hc : isWordHead c = false) :
    Pairs cells (step st c (oldText cells)) (step st c (newText cells)) := by
  have hw : Woven Reword (u ++ [c]) cells := woven_imp hr (woven_keep h.woven)
  by_cases hline : c = '\n'
  · subst hline
    exact pairs_none _ _
  · have hu : InLine (u ++ [c]) := in_line_concat hline
    have hhead : ∀ x, isWordHead x = false → x ≠ 'a' → ((newText cells).head? == some x) =
        ((oldText cells).head? == some x) := fun x hx ha => head_cells hw hu hx ha
    rw [step, step, digit_cells hw hu, hhead '/' (by decide) (by decide),
      hhead '*' (by decide) (by decide), starts_cells hw hu]
    refine pairs_ite (fun _ => pairs_none _ _) fun hnl => pairs_ite (fun hspace => ?_) fun hsp =>
      pairs_ite (fun hnumber => ?_) fun hnumber => pairs_ite (fun hname => ?_) fun hname =>
      pairs_ite (fun hquote => ?_) fun hquote => pairs_ite (fun _ => template_pairs hw hu st)
      fun htick => pairs_ite (fun _ => resume_pairs hw hu st) fun hbrace =>
      pairs_ite (fun hslash => ?_) fun hslash => pairs_ite (fun hstar => ?_) fun hstar =>
      pairs_ite (fun hone => ?_) fun hone => pairs_ite (fun harrow => ?_) fun _ =>
      mark_pairs hw hu st c
    · exact pairs_run (runs_against (by decide) fun d hd =>
        (name_char_unspaced (word_head_char hd).1).2) (ends_in_concat.2 hspace) hw _ _
    · have hchar : (isNameChar c || c == '.') = true := by
        simp only [Bool.or_eq_true, Bool.and_eq_true] at hnumber ⊢
        exact hnumber.imp digit_name_char fun hdot => hdot.1.1
      exact pairs_run (runs_through (by decide) (fun d hd => by simp [hd]) (by decide))
        (ends_in_concat.2 hchar) hw _ _
    · have hdigit : Text.isDigit c = false := by
        simp only [Bool.or_eq_true, not_or, Bool.not_eq_true] at hnumber
        exact hnumber.1
      rw [isWordHead, hname, hdigit] at hc
      exact Bool.noConfusion hc
    · have hmark : isMild c = false ∧ c ≠ '\\' := by
        simp only [Bool.or_eq_true, beq_iff_eq] at hquote
        rcases hquote with rfl | rfl <;> decide
      exact string_pairs hw hu st hmark.1 hmark.2
    · have hc : c = '/' := by simpa using (Bool.and_eq_true_iff.1 hslash).1
      subst hc
      exact line_comment_pairs hw st (ends_in_concat.2 (by decide))
    · rw [Bool.and_eq_true, beq_iff_eq, beq_iff_eq] at hstar
      obtain ⟨t, ht⟩ : ∃ t, oldText cells = '*' :: t := by
        cases hold : oldText cells with
        | nil => simp [hold] at hstar
        | cons d t =>
          rw [hold, List.head?_cons, Option.some.injEq] at hstar
          exact ⟨t, by rw [hstar.2]⟩
      obtain ⟨rest, hcells, _⟩ := keep_cells hw hu ht (by decide)
      refine block_comment_pairs hr h hstar.1 hcells ?_
      rw [step, if_neg hnl, if_neg hsp, if_neg hnumber, if_neg hname, if_neg hquote, if_neg htick,
        if_neg hbrace, if_neg hslash, if_pos (by simp [hstar])]
    · refine slash_pairs hr h (by simpa using hone) ?_
      rw [step, if_neg hnl, if_neg hsp, if_neg hnumber, if_neg hname, if_neg hquote, if_neg htick,
        if_neg hbrace, if_neg hslash, if_neg hstar, if_pos hone]
    · have hc : c = '-' := by
        simp only [Bool.and_eq_true, beq_iff_eq] at harrow
        exact harrow.1.1
      subst hc
      exact line_comment_pairs hw st (ends_in_concat.2 (by decide))

end

end Restage.Script
