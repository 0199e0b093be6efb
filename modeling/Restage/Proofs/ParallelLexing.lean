import Restage.Proofs.ParallelSteps

/-!
The lexemes of a script before and behind a pass. The lexer goes through both texts side by side:
each lexeme of the one is a lexeme of the other over the same cells, but for the names and dots of a
word that is replaced and the line that is dropped, which are code in both (`lexemes_aligned`).
-/

set_option autoImplicit false

namespace Restage.Script

/-- The lexemes of the two texts of some cells. -/
inductive Aligned : List Cell → List Lexeme → List Lexeme → Prop
  | done : Aligned [] [] []
  | same {cells : List Cell} {xs ys : List Lexeme} (k : Kind) (ks : List Cell) :
    Aligned cells xs ys → Aligned (ks ++ cells) (⟨k, oldText ks⟩ :: xs) (⟨k, newText ks⟩ :: ys)
  | code {cells ks : List Cell} {us vs xs ys : List Lexeme} : AllCode us → AllCode vs →
    us.flatMap (·.text) = oldText ks → vs.flatMap (·.text) = newText ks → Aligned cells xs ys →
    Aligned (ks ++ cells) (us ++ xs) (vs ++ ys)

/-- The lexer goes over some cells in both texts, and stands alike behind them unless the text ends
there. -/
def Advances (st : State) (cells : List Cell) : Prop :=
  ∃ ks rest us vs st₁ st₂, cells = ks ++ rest ∧ oldText ks ≠ [] ∧
    Lexes st (oldText cells) us st₁ (oldText rest) ∧
    Lexes st (newText cells) vs st₂ (newText rest) ∧
    (st₁ = st₂ ∨ rest = []) ∧
    ((AllCode us ∧ AllCode vs) ∨ ∃ k, us = [⟨k, oldText ks⟩] ∧ vs = [⟨k, newText ks⟩])

/-- The lexer reads only code at the head of a text. -/
def Passes (st : State) (t : Text) (st' : State) (v : Text) : Prop :=
  ∃ us, AllCode us ∧ Lexes st t us st' v

theorem passes_stop (st : State) (t : Text) : Passes st t st t :=
  ⟨[], by simp [AllCode], .stop st t⟩

theorem passes_trans {st st' st'' : State} {t v w : Text} (h : Passes st t st' v)
    (h' : Passes st' v st'' w) : Passes st t st'' w := by
  obtain ⟨us, hus, hread⟩ := h
  obtain ⟨vs, hvs, hread'⟩ := h'
  exact ⟨us ++ vs, fun x hx => (List.mem_append.1 hx).elim (hus x) (hvs x),
    lexes_trans hread hread'⟩

theorem passes_one {st st' : State} {c : Char} {cs : Text} {k : Kind} {n : Nat}
    (hk : k.isLiteral = false) (h : step st c cs = ⟨k, n, st'⟩) :
    Passes st (c :: cs) st' (cs.drop n) :=
  ⟨_, by simpa [AllCode] using hk, lexes_one h⟩

theorem passes_name {w v : Text} (hw : NameWord w) (hv : EndsName v) (st : State) :
    Passes st (w ++ v) (st.name w) v :=
  ⟨_, by simp [AllCode, Kind.isLiteral], name_lexes hw hv st⟩

/-! A prefix of a name. -/

/-- Characters of a name that stand in front of a word which begins afresh. -/
structure NamePrefix (p : Text) : Prop where
  chars : ∀ d ∈ p, isNameChar d = true
  head : p.head?.all isWordHead = true
  fresh : p = [] ∨ Pattern.freshName p.getLast? = true

/-- No word of letters alone begins with more than nothing of such a prefix. -/
theorem prefix_foreign {p w k : Text} (hp : NamePrefix p) (hne : p ≠ [])
    (hk : ∀ c ∈ k, Text.isNamePart c = true) : p ++ w ≠ k := by
  rintro rfl
  have hfresh := hp.fresh.resolve_left hne
  cases hlast : p.getLast? with
  | none => exact hne (List.getLast?_eq_none_iff.1 hlast)
  | some d =>
    have hd := hk d (List.mem_append_left _ (List.mem_of_getLast? hlast))
    rw [hlast] at hfresh
    simp [Pattern.freshName, hd] at hfresh

theorem prefix_apart {p w k : Text} (hp : NamePrefix p) (hw : w ≠ k)
    (hk : ∀ c ∈ k, Text.isNamePart c = true) : p ++ w ≠ k := by
  rcases eq_or_ne p [] with rfl | hne
  · exact hw
  · exact prefix_foreign hp hne hk

theorem prefix_word {p w : Text} (hp : NamePrefix p) (hw : NameWord w) : NameWord (p ++ w) := by
  refine ⟨fun d hd => (List.mem_append.1 hd).elim (hp.chars d) (hw.chars d), ?_⟩
  cases p with
  | nil => exact hw.head
  | cons c p =>
    have hc : isWordHead c = true := by simpa using hp.head
    obtain ⟨hname, hdigit⟩ := word_head_char hc
    obtain ⟨hline, hspace⟩ := name_char_unspaced hname
    exact ⟨c, p ++ w, rfl, hline, hspace, hdigit, head_other hc (by decide)⟩

theorem prefix_plain {p w : Text} (hp : NamePrefix p) (hw : PlainName w) : PlainName (p ++ w) :=
  ⟨prefix_word hp hw.word, prefix_apart hp hw.other (by decide)⟩

theorem prefix_qualified {p x : Text} (hp : NamePrefix p) (hx : Qualified x) :
    Qualified (p ++ x) := by
  cases hx with
  | name hw => exact .name (prefix_plain hp hw)
  | member hw hx =>
    rw [← List.append_assoc]
    exact .member (prefix_plain hp hw) hx

/-! Behind a qualified name. -/

theorem dot_mark {cs : Text} (h : cs.head?.any Text.isDigit = false) (st : State) :
    step st '.' cs = markStep st '.' cs := by
  have h1 : isNewline '.' = false := by decide
  have h2 : isSpace '.' = false := by decide
  have h3 : Text.isDigit '.' = false := by decide
  have h4 : isNameChar '.' = false := by decide
  simp [step, h1, h2, h3, h4, h]

theorem mark_step_dot (st : State) (p : Place) (cs : Text) :
    markStep (st.at_ p) '.' cs = markStep st '.' cs := by
  unfold markStep
  split <;> first | rfl | simp_all

theorem mark_step_code (st : State) (c : Char) (cs : Text) :
    (markStep st c cs).kind.isLiteral = false := by
  rw [mark_step_kind]
  rfl

/-- The characters of numbers and qualified names. -/
def isNumberChar (c : Char) : Bool := isNameChar c || c == '.'

theorem number_step {d : Char} (hd : Text.isDigit d = true) (cs : Text) (st : State) :
    step st d cs = ⟨.number, (cs.takeWhile isNumberChar).length, st.value⟩ := by
  obtain ⟨hline, hspace⟩ := name_char_unspaced (digit_name_char hd)
  simp only [step, hline, hspace, hd, Bool.false_eq_true, if_false, Bool.true_or, if_true]
  rfl

/-- A digit behind a dot: the dot begins the number, or is the dot of a member. -/
theorem digit_passes (st : State) (p : Place) {d : Char} (hd : Text.isDigit d = true) {z v : Text}
    (hrun : (z ++ v).takeWhile isNumberChar = z) :
    Passes (st.at_ p) ('.' :: d :: (z ++ v)) (st.at_ .operator) v := by
  have h1 : isNewline '.' = false := by decide
  have h2 : isSpace '.' = false := by decide
  have h3 : Text.isDigit '.' = false := by decide
  have h4 : isNameChar '.' = false := by decide
  by_cases hp : p.allowsRegex = true
  · have hvalue : (st.at_ p).value = st.at_ .operator := by
      cases p with
      | key => exact absurd hp (by decide)
      | _ => rfl
    have hstep : step (st.at_ p) '.' (d :: (z ++ v)) =
        ⟨.number, z.length + 1, st.at_ .operator⟩ := by
      have hnumber : isNumberChar d = true := by simp [isNumberChar, digit_name_char hd]
      have htake : (d :: (z ++ v)).takeWhile isNumberChar = d :: z := by
        rw [List.takeWhile_cons_of_pos hnumber, hrun]
      have hallows : (st.at_ p).place.allowsRegex = true := hp
      rw [step, if_neg (by simp [h1]), if_neg (by simp [h2]), if_pos (by simp [hallows, hd]),
        hvalue]
      show Step.mk _ (List.takeWhile isNumberChar _).length _ = _
      rw [htake, List.length_cons]
    have hpass := passes_one rfl hstep
    rwa [List.drop_succ_cons, List.drop_left] at hpass
  · have hdot : d ≠ '.' := by
      rintro rfl
      exact absurd hd (by decide)
    have hstep : step (st.at_ p) '.' (d :: (z ++ v)) = ⟨.mark, 0, st.at_ .property⟩ := by
      have hallows : (st.at_ p).place.allowsRegex = false := by simpa [State.at_] using hp
      have hmark : markStep (st.at_ p) '.' (d :: (z ++ v)) = ⟨.mark, 0, st.at_ .property⟩ := by
        rw [mark_step_dot]
        unfold markStep
        split <;> simp_all
      simp [step, h1, h2, h3, h4, hallows, hmark]
    have hnumber := number_step hd (z ++ v) (st.at_ .property)
    rw [hrun] at hnumber
    have hpass := passes_trans (passes_one rfl hstep) (passes_one rfl hnumber)
    rwa [List.drop_left] at hpass

/-- Behind a dot the lexer goes on alike, wherever it stood in front of the dot. -/
theorem dot_passes {u : Text} {cells : List Cell} (hw : Woven Reword u cells) (hu : InLine u)
    (st : State) (p q : Place) : ∃ ks rest st', cells = ks ++ rest ∧
      Passes (st.at_ p) ('.' :: oldText cells) st' (oldText rest) ∧
      Passes (st.at_ q) ('.' :: newText cells) st' (newText rest) := by
  by_cases hdigit : (oldText cells).head?.any Text.isDigit = true
  · obtain ⟨d, t, hcut⟩ : ∃ d t, oldText cells = d :: t := by
      cases hold : oldText cells with
      | nil => simp [hold] at hdigit
      | cons d t => exact ⟨d, t, rfl⟩
    have hd : Text.isDigit d = true := by simpa [hcut] using hdigit
    obtain ⟨rest, rfl, rfl⟩ := keep_cells hw hu hcut (by simp [isWordHead, hd])
    have hruns : Runs isNumberChar Reword :=
      runs_through (by decide) (fun c hc => by simp [isNumberChar, hc]) (by decide)
    have hends : EndsIn isNumberChar (u ++ [d]) :=
      ends_in_concat.2 (by simp [isNumberChar, digit_name_char hd])
    obtain ⟨ks, rest', rfl, hold, hnew⟩ := run_cells hruns hends (woven_keep hw)
    rw [old_text_append] at hold
    rw [new_text_append] at hnew
    refine ⟨.keep d :: ks, rest', st.at_ .operator, rfl, ?_, ?_⟩
    · rw [old_text_keep, old_text_append]
      exact digit_passes st p hd hold
    · rw [new_text_keep, new_text_append]
      exact digit_passes st q hd hnew
  · rw [Bool.not_eq_true] at hdigit
    have hdigit' : (newText cells).head?.any Text.isDigit = false := by
      rw [digit_cells hw hu, hdigit]
    obtain ⟨-, hstate, ks, rest, rfl, hold, hnew⟩ := mark_pairs hw hu st '.'
    have hpass : ∀ (o : Place) {cs : Text}, cs.head?.any Text.isDigit = false →
        Passes (st.at_ o) ('.' :: cs) (markStep st '.' cs).state
          (cs.drop (markStep st '.' cs).more) := by
      intro o cs hcs
      have hstep := dot_mark hcs (st.at_ o)
      rw [mark_step_dot] at hstep
      exact passes_one (mark_step_code st '.' cs) hstep
    refine ⟨ks, rest, (markStep st '.' (oldText (ks ++ rest))).state, rfl, ?_, ?_⟩
    · have := hpass p hdigit
      rwa [hold, old_text_append, List.drop_left, ← old_text_append] at this
    · have := hpass q hdigit'
      rwa [← hstate, hnew, new_text_append, List.drop_left, ← new_text_append] at this

/-! A line with a binding. -/

theorem gap_passes {g v : Text} (hg : ∀ c ∈ g, Piece.isIndent c = true)
    (hv : v.head?.all (fun d => !isSpace d) = true) (st : State) : Passes st (g ++ v) st v := by
  have hspaces : ∀ {c : Char}, Piece.isIndent c = true →
      isNewline c = false ∧ isSpace c = true := by
    intro c hc
    simp only [Piece.isIndent, Bool.or_eq_true, beq_iff_eq] at hc
    rcases hc with rfl | rfl <;> decide
  cases g with
  | nil => exact passes_stop st v
  | cons c g =>
    obtain ⟨hline, hspace⟩ := hspaces (hg c (by simp))
    have hrun : (g ++ v).takeWhile isSpace = g :=
      Text.run_taken (fun d hd => (hspaces (hg d (by simp [hd]))).2) hv
    have hstep : step st c (g ++ v) = ⟨.blank, g.length, st⟩ := by
      simp [step, hline, hspace, hrun]
    have hpass := passes_one rfl hstep
    rwa [List.drop_left] at hpass

theorem indent_ends {g v : Text} (hg : ∀ c ∈ g, Piece.isIndent c = true)
    (hv : g = [] → EndsName v) : EndsName (g ++ v) := by
  cases g with
  | nil => exact hv rfl
  | cons c g =>
    have hc := hg c (by simp)
    simp only [Piece.isIndent, Bool.or_eq_true, beq_iff_eq] at hc
    rcases hc with rfl | rfl <;> simp [EndsName] <;> decide

theorem plain_passes {w v : Text} (hw : PlainName w) (hv : EndsName v) (st : State) :
    ∃ p, Passes st (w ++ v) (st.at_ p) v := by
  obtain ⟨p, hp⟩ := name_at hw.other st
  exact ⟨p, hp ▸ passes_name hw.word hv st⟩

theorem var_plain : PlainName "var".toList :=
  ⟨⟨by decide, 'v', "ar".toList, rfl, by decide, by decide, by decide, by decide⟩, by decide⟩

theorem const_plain : PlainName "const".toList :=
  ⟨⟨by decide, 'c', "onst".toList, rfl, by decide, by decide, by decide, by decide⟩, by decide⟩

theorem called_plain : PlainName "fromFrame".toList :=
  ⟨⟨by decide, 'f', "romFrame".toList, rfl, by decide, by decide, by decide, by decide⟩, by decide⟩

theorem data_plain : PlainName "data".toList :=
  ⟨⟨by decide, 'd', "ata".toList, rfl, by decide, by decide, by decide, by decide⟩, by decide⟩

theorem getter_qualified : Qualified "data.getTexture".toList :=
  .member data_plain (.name
    ⟨⟨by decide, 'g', "etTexture".toList, rfl, by decide, by decide, by decide, by decide⟩,
      by decide⟩)

theorem equals_passes {v : Text} (hv : v.head? ≠ some '>') (st : State) :
    Passes st (['='] ++ v) (st.at_ .operand) v := by
  have hstep : step st '=' v = ⟨.mark, 0, st.at_ .operand⟩ := by
    have h1 : isNewline '=' = false := by decide
    have h2 : isSpace '=' = false := by decide
    have h3 : Text.isDigit '=' = false := by decide
    have h4 : isNameChar '=' = false := by decide
    have hmark : markStep st '=' v = ⟨.mark, 0, st.at_ .operand⟩ := by
      unfold markStep
      split <;> simp_all
    simp [step, h1, h2, h3, h4, hmark]
  exact passes_one rfl hstep

theorem semicolon_passes (st : State) (v : Text) : Passes st ([';'] ++ v) st.semicolon v := by
  have hstep : step st ';' v = ⟨.mark, 0, st.semicolon⟩ := by
    have h1 : isNewline ';' = false := by decide
    have h2 : isSpace ';' = false := by decide
    have h3 : Text.isDigit ';' = false := by decide
    have h4 : isNameChar ';' = false := by decide
    simp [step, h1, h2, h3, h4, markStep]
  exact passes_one rfl hstep

theorem newline_passes {c : Char} (hc : isLineEnd c = true) (st : State) (v : Text) :
    Passes st (c :: v) (st.blank true) v := by
  have hstep : step st c v = ⟨.blank, 0, st.blank true⟩ := by
    have hline : isNewline c = true := by
      simp only [isLineEnd, Bool.or_eq_true, beq_iff_eq] at hc
      rcases hc with rfl | rfl <;> decide
    simp [step, hline]
  exact passes_one rfl hstep

theorem line_end_passes {stop : Text} (hstop : stop ∈ [['\n'], ['\r'], ['\r', '\n']]) (st : State)
    (v : Text) : Passes st (stop ++ v) (st.blank true) v := by
  have hn : isLineEnd '\n' = true := by decide
  have hr : isLineEnd '\r' = true := by decide
  simp only [List.mem_cons, List.not_mem_nil, or_false] at hstop
  rcases hstop with rfl | rfl | rfl
  · exact newline_passes hn st v
  · exact newline_passes hr st v
  · have hboth := passes_trans (newline_passes hr st ('\n' :: v)) (newline_passes hn _ v)
    simpa [State.blank] using hboth

/-- The statement of a binding leaves the lexer as a semicolon does. -/
theorem statement_passes {g₁ g₂ name g₃ g₄ value : Text}
    (hindent : ∀ c ∈ g₁ ++ g₂ ++ g₃ ++ g₄, Piece.isIndent c = true) (hsome : g₂ ≠ [])
    (hname : PlainName name) (hvalue : Qualified value) (st : State) (v : Text) :
    Passes st (g₁ ++ ("var".toList ++ (g₂ ++ (name ++ (g₃ ++ (['='] ++ (g₄ ++ (value ++
      ([';'] ++ v))))))))) st.semicolon v := by
  simp only [List.mem_append, or_imp, forall_and] at hindent
  obtain ⟨⟨⟨h1, h2⟩, h3⟩, h4⟩ := hindent
  have hspace : ∀ {w : Text}, WordFirst w → ∀ v,
      (w ++ v).head?.all (fun d => !isSpace d) = true := by
    rintro w ⟨c, w, rfl, hc⟩ v
    simp [(name_char_unspaced (word_head_char hc).1).2]
  have hnamed : WordFirst name := qualified_first (.name hname)
  have hvalued := qualified_first hvalue
  have harrow : ∀ v, (g₄ ++ (value ++ v)).head? ≠ some '>' := by
    intro v
    cases g₄ with
    | nil =>
      obtain ⟨c, w, rfl, hc⟩ := hvalued
      simp only [List.nil_append, List.cons_append, List.head?_cons, ne_eq, Option.some.injEq]
      exact head_other hc (by decide)
    | cons c g =>
      simp only [List.cons_append, List.head?_cons, ne_eq, Option.some.injEq]
      rintro rfl
      exact absurd (h4 '>' (by simp)) (by decide)
  obtain ⟨p, hvar⟩ := plain_passes var_plain (indent_ends h2 fun h => absurd h hsome)
    (v := g₂ ++ (name ++ (g₃ ++ (['='] ++ (g₄ ++ (value ++ ([';'] ++ v))))))) st
  obtain ⟨q, hword⟩ := plain_passes hname (v := g₃ ++ (['='] ++ (g₄ ++ (value ++ ([';'] ++ v)))))
    (indent_ends h3 fun _ => by simp [EndsName]; decide) (st.at_ p)
  obtain ⟨us, o, hread, hcode, -⟩ := qualified_lexes hvalue (((st.at_ p).at_ q).at_ .operand)
    (v := [';'] ++ v) (by simp [EndsName]; decide)
  exact passes_trans (gap_passes h1 (hspace (qualified_first (.name var_plain)) _) _)
    (passes_trans hvar (passes_trans (gap_passes h2 (hspace hnamed _) _)
    (passes_trans hword (passes_trans (gap_passes h3 (by simp; decide) _)
    (passes_trans (equals_passes (harrow _) _) (passes_trans (gap_passes h4 (hspace hvalued _) _)
    (passes_trans ⟨us, hcode, hread⟩ (semicolon_passes _ _))))))))

/-- A statement ends no line, and neither do the blanks behind it. -/
theorem statement_unended {u g : Text} (hg : ∀ c ∈ g, Piece.isIndent c = true) :
    ¬ EndsIn isLineEnd (u ++ ([';'] ++ g)) := by
  intro hends
  rw [EndsIn, List.getLast?_append_of_ne_nil _ (by simp)] at hends
  cases hlast : ([';'] ++ g).getLast? with
  | none => simp at hlast
  | some c =>
    rw [hlast, Option.any_some] at hends
    rcases List.mem_append.1 (List.mem_of_getLast? hlast) with hc | hc
    · rw [List.mem_singleton.1 hc] at hends
      exact absurd hends (by decide)
    · have hindent := hg c hc
      simp only [Piece.isIndent, Bool.or_eq_true, beq_iff_eq] at hindent
      rcases hindent with rfl | rfl <;> exact absurd hends (by decide)

/-- A line with a binding leaves the lexer as a semicolon and a line end do. -/
theorem binding_passes {line t : Text} (hline : Binding line)
    (hend : EndsIn isLineEnd line ∨ t = []) (st : State) :
    ∃ st', Passes st (line ++ t) st' t ∧ (st' = st.semicolon.blank true ∨ t = []) := by
  obtain ⟨g₁, g₂, name, g₃, g₄, value, g₅, stop, rfl, hindent, hsome, hname, -, hvalue, hstop⟩ :=
    hline.parts
  have hfront : ∀ c ∈ g₁ ++ g₂ ++ g₃ ++ g₄, Piece.isIndent c = true :=
    fun c hc => hindent c (List.mem_append_left _ hc)
  have hgap : ∀ c ∈ g₅, Piece.isIndent c = true := fun c hc => hindent c (by simp [hc])
  have hstatement := statement_passes hfront hsome hname hvalue.qualified st (g₅ ++ (stop ++ t))
  simp only [List.append_assoc] at hstatement ⊢
  rcases List.mem_cons.1 hstop with rfl | hstop
  · -- without a line end of its own the line is the last one
    have ht : t = [] := by
      refine hend.resolve_left fun hends => statement_unended hgap (u := g₁ ++ ("var".toList ++
        (g₂ ++ (name ++ (g₃ ++ (['='] ++ (g₄ ++ value))))))) ?_
      simpa only [List.append_assoc, List.append_nil] using hends
    subst ht
    exact ⟨_, passes_trans hstatement (gap_passes hgap rfl _), Or.inr rfl⟩
  · have hblank : (stop ++ t).head?.all (fun d => !isSpace d) = true := by
      simp only [List.mem_cons, List.not_mem_nil, or_false] at hstop
      rcases hstop with rfl | rfl | rfl <;> rfl
    exact ⟨_, passes_trans hstatement (passes_trans (gap_passes hgap hblank _)
      (line_end_passes hstop _ t)), Or.inl rfl⟩

/-! A word that is replaced. -/

theorem woven_nil {u : Text} {cells : List Cell} (hw : Woven Reword u cells)
    (h : oldText cells = []) : cells = [] := by
  cases hw with
  | done => rfl
  | keep => simp at h
  | swap hrel => exact absurd (List.append_eq_nil_iff.1 h).1 (reword_some hrel)

/-- A name goes on in kept characters, up to its end or to a word that is replaced. -/
theorem name_cells {u : Text} {cells : List Cell} (hw : Woven Reword u cells) (hu : InLine u) :
    ∃ (p : Text) (rest : List Cell), cells = p.map .keep ++ rest ∧ (∀ d ∈ p, isNameChar d = true) ∧
      ((EndsName (oldText rest) ∧ EndsName (newText rest)) ∨
        ∃ old new rest', rest = .swap old new :: rest') := by
  induction hw with
  | done => exact ⟨[], [], rfl, by simp, Or.inl ⟨rfl, rfl⟩⟩
  | @keep u c cells hw ih =>
    by_cases hc : isNameChar c = true
    · have hline : c ≠ '\n' := by
        rintro rfl
        exact absurd hc (by decide)
      obtain ⟨p, rest, rfl, hp, hrun⟩ := ih (in_line_concat hline)
      exact ⟨c :: p, rest, rfl, List.forall_mem_cons.2 ⟨hc, hp⟩, hrun⟩
    · exact ⟨[], .keep c :: cells, rfl, by simp, Or.inl (by simp [EndsName, hc])⟩
  | @swap u old new cells hrel hw ih => exact ⟨[], _, rfl, by simp, Or.inr ⟨old, new, cells, rfl⟩⟩

/-- Both words are keywords of declarations, and no others behind a part of a name. -/
theorem var_const_name {p : Text} (hp : NamePrefix p) (st : State) :
    st.name (p ++ "const".toList) = st.name (p ++ "var".toList) := by
  have happart : ∀ w ∈ ["var".toList, "const".toList], ∀ k : Text, w ≠ k →
      (∀ c ∈ k, Text.isNamePart c = true) → p ++ w ≠ k := fun w _ k => prefix_apart hp
  have hother : ∀ w ∈ ["var".toList, "const".toList], ∀ ws ∈ [State.guardWords,
      State.statementWords, State.joiningWords], ws.contains (p ++ w) = false := by
    intro w hw ws hws
    have hall : ∀ w ∈ ["var".toList, "const".toList], ∀ ws ∈ [State.guardWords,
        State.statementWords, State.joiningWords], ∀ k ∈ ws, w ≠ k ∧
        ∀ c ∈ k, Text.isNamePart c = true := by decide
    rw [List.contains_eq_mem, decide_eq_false_iff_not]
    intro hmem
    obtain ⟨hne, hk⟩ := hall w hw ws hws _ hmem
    exact happart w hw _ hne hk rfl
  have hoperand : State.operandWords.contains (p ++ "const".toList) =
      State.operandWords.contains (p ++ "var".toList) := by
    rcases eq_or_ne p [] with rfl | hne
    · decide
    · have hnone : ∀ w, State.operandWords.contains (p ++ w) = false := by
        intro w
        have hall : ∀ k ∈ State.operandWords, ∀ c ∈ k, Text.isNamePart c = true := by decide
        rw [List.contains_eq_mem, decide_eq_false_iff_not]
        exact fun hmem => prefix_foreign hp hne (hall _ hmem) rfl
      rw [hnone, hnone]
  have hkeyword : st.keyword (p ++ "const".toList) = st.keyword (p ++ "var".toList) := by
    have hv := fun k => happart "var".toList (by simp) k
    have hc := fun k => happart "const".toList (by simp) k
    have hv' := hother "var".toList (by simp)
    have hc' := hother "const".toList (by simp)
    unfold State.keyword
    rw [hv' _ (by simp), hc' _ (by simp), hv' State.guardWords (by simp),
      hc' State.guardWords (by simp), hv' State.statementWords (by simp),
      hc' State.statementWords (by simp), hoperand,
      if_neg (hc "function".toList (by decide) (by decide)),
      if_neg (hv "function".toList (by decide) (by decide)),
      if_neg (hc "class".toList (by decide) (by decide)),
      if_neg (hv "class".toList (by decide) (by decide))]
    have hof : ∀ w ∈ ["var".toList, "const".toList], (decide (p ++ w = "of".toList)) = false := by
      intro w hw
      simp only [decide_eq_false_iff_not]
      exact happart w hw _ (by revert w; decide) (by decide)
    simp only [hof "var".toList (by simp), hof "const".toList (by simp)]
  unfold State.name
  split
  · rfl
  · rfl
  · rfl
  · rw [if_neg (happart "const".toList (by simp) _ (by decide) (by decide)),
      if_neg (happart "var".toList (by simp) _ (by decide) (by decide))]
  · rfl
  · exact hkeyword

section

variable {r : Change} (hr : ∀ {u old new v}, r u old new v → Reword u old new v) {u : Text}
  {st : State} {cells : List Cell}

/-- Cells at whose head both texts hold only code. -/
theorem advances_code (ks rest : List Cell) {st₁ st₂ : State} (hcells : cells = ks ++ rest)
    (hks : oldText ks ≠ []) (hold : Passes st (oldText cells) st₁ (oldText rest))
    (hnew : Passes st (newText cells) st₂ (newText rest)) (hst : st₁ = st₂ ∨ rest = []) :
    Advances st cells := by
  obtain ⟨us, hus, hread⟩ := hold
  obtain ⟨vs, hvs, hread'⟩ := hnew
  exact ⟨ks, rest, us, vs, st₁, st₂, hcells, hks, hread, hread', hst, Or.inl ⟨hus, hvs⟩⟩

theorem old_text_word (p old new : Text) (rest : List Cell) :
    oldText (p.map .keep ++ .swap old new :: rest) = p ++ (old ++ oldText rest) := by
  rw [old_text_append, old_text_kept, old_text_swap]

theorem new_text_word (p old new : Text) (rest : List Cell) :
    newText (p.map .keep ++ .swap old new :: rest) = p ++ (new ++ newText rest) := by
  rw [new_text_append, new_text_kept, new_text_swap]

/-- A qualified name is put in the place of another, behind a part of a name. -/
theorem advances_link {p x y : Text} {rest : List Cell} (hp : NamePrefix p) (hx : MildName x)
    (hy : MildName y) (hrest : Woven Reword (u ++ p ++ (x ++ ['.'])) rest) :
    Advances st (p.map .keep ++ .swap (x ++ ['.']) (y ++ ['.']) :: rest) := by
  have hdot : ∀ v, EndsName ('.' :: v) := by
    have : isNameChar '.' = false := by decide
    simp [EndsName, this]
  obtain ⟨us, o, hread, hcode, -⟩ :=
    qualified_lexes (prefix_qualified hp hx.qualified) st (hdot (oldText rest))
  obtain ⟨vs, q, hread', hcode', -⟩ :=
    qualified_lexes (prefix_qualified hp hy.qualified) st (hdot (newText rest))
  obtain ⟨ks, rest', st', rfl, hpass, hpass'⟩ :=
    dot_passes hrest (in_line_append _ (by simp) (by simp)) st o q
  have hstart : Passes st (oldText (p.map .keep ++ .swap (x ++ ['.']) (y ++ ['.']) :: (ks ++ rest')))
      st' (oldText rest') := by
    rw [old_text_word]
    simpa only [List.append_assoc, List.singleton_append] using passes_trans ⟨us, hcode, hread⟩ hpass
  have hstart' : Passes st (newText (p.map .keep ++ .swap (x ++ ['.']) (y ++ ['.']) :: (ks ++ rest')))
      st' (newText rest') := by
    rw [new_text_word]
    simpa only [List.append_assoc, List.singleton_append] using
      passes_trans ⟨vs, hcode', hread'⟩ hpass'
  exact advances_code (p.map .keep ++ .swap (x ++ ['.']) (y ++ ['.']) :: ks) rest' (by simp)
    (by simp [old_text_append]) hstart hstart' (Or.inl rfl)

/-- The keyword of a declaration is put in the place of another, behind a part of a name: both
words are one lexeme, and the lexer takes them alike. -/
theorem advances_bind {p : Text} {rest : List Cell} (hp : NamePrefix p)
    (hbehind : EndsName (oldText rest)) (hrest : Woven Reword (u ++ p ++ "var".toList) rest) :
    Advances st (p.map .keep ++ .swap "var".toList "const".toList :: rest) := by
  have hread := name_lexes (prefix_word hp var_plain.word) hbehind st
  have hread' := name_lexes (prefix_word hp const_plain.word)
    (ends_name_cells hrest (in_line_append _ (by decide) (by decide)) hbehind) st
  rw [var_const_name hp] at hread'
  refine ⟨p.map .keep ++ [.swap "var".toList "const".toList], rest,
    [⟨.name, p ++ "var".toList⟩], [⟨.name, p ++ "const".toList⟩], st.name (p ++ "var".toList),
    st.name (p ++ "var".toList), by simp, by simp, ?_, ?_, Or.inl rfl,
    Or.inr ⟨.name, by simp [old_text_kept], by simp [new_text_kept]⟩⟩
  · rwa [old_text_word, ← List.append_assoc]
  · rwa [new_text_word, ← List.append_assoc]

/-- Behind a called name that is replaced the lexer stands as behind a value. -/
theorem called_value {p : Text} {rest : List Cell} (hp : NamePrefix p)
    (hends : Pattern.freshName (u ++ p).getLast? = true) (hbehind : EndsName (oldText rest))
    (hrel : r (u ++ p) "fromFrame".toList "data.getTexture".toList (oldText rest))
    (h : Sound r u st (p.map .keep ++ .swap "fromFrame".toList "data.getTexture".toList :: rest)) :
    st.name (p ++ "fromFrame".toList) = st.at_ .operator := by
  have hword := prefix_plain hp called_plain
  obtain ⟨c, w, hcut⟩ : ∃ c w, p ++ "fromFrame".toList = c :: w := by
    cases p with
    | nil => exact ⟨_, _, rfl⟩
    | cons c p => exact ⟨c, _, rfl⟩
  have hstep := name_step (hcut ▸ hword.word) hbehind st
  have hmore : (step st c (w ++ oldText rest)).more = w.length := by rw [hstep]
  have hentry : Quiet r ⟨u, st, c, w ++ oldText rest⟩ := h.quiet _ (by
    rw [old_text_word, ← List.append_assoc, hcut, List.cons_append, entries_cons]
    exact List.mem_cons_self)
  have hlexeme : (c :: (w ++ oldText rest).take w.length) = p ++ "fromFrame".toList := by
    rw [List.take_left, hcut]
  have hplace := hentry.call p (congrArg Step.kind hstep)
    (by
      show (c :: (w ++ oldText rest).take (step st c (w ++ oldText rest)).more) = _
      rw [hmore, hlexeme])
    (by
      show r _ _ _ ((w ++ oldText rest).drop (step st c (w ++ oldText rest)).more)
      rw [hmore, List.drop_left]
      exact hrel)
  obtain ⟨o, ho⟩ := name_at hword.other st
  have hvalue : (st.name (p ++ "fromFrame".toList)).place = .operator := by
    rw [← hlexeme, ← hmore]
    exact hplace
  rw [ho] at hvalue ⊢
  obtain rfl : o = .operator := hvalue
  rfl

/-- A member is put in the place of a called name, behind a part of a name. -/
theorem advances_call {p : Text} {rest : List Cell} (hp : NamePrefix p)
    (hends : Pattern.freshName (u ++ p).getLast? = true) (hbehind : EndsName (oldText rest))
    (hrel : r (u ++ p) "fromFrame".toList "data.getTexture".toList (oldText rest))
    (hrest : Woven Reword (u ++ p ++ "fromFrame".toList) rest)
    (h : Sound r u st (p.map .keep ++ .swap "fromFrame".toList "data.getTexture".toList :: rest)) :
    Advances st (p.map .keep ++ .swap "fromFrame".toList "data.getTexture".toList :: rest) := by
  have hread := name_lexes (prefix_plain hp called_plain).word hbehind st
  obtain ⟨vs, q, hread', hcode', hq⟩ := qualified_lexes (prefix_qualified hp getter_qualified) st
    (ends_name_cells hrest (in_line_append _ (by decide) (by decide)) hbehind)
  obtain rfl := hq (Or.inr (by simp))
  rw [called_value hp hends hbehind hrel h] at hread
  have hcode : AllCode [⟨.name, p ++ "fromFrame".toList⟩] := by simp [AllCode, Kind.isLiteral]
  rw [List.append_assoc, ← old_text_word] at hread
  rw [List.append_assoc, ← new_text_word] at hread'
  exact advances_code (p.map .keep ++ [.swap "fromFrame".toList "data.getTexture".toList]) rest
    (by simp) (by simp) ⟨_, hcode, hread⟩ ⟨vs, hcode', hread'⟩ (Or.inl rfl)

/-- A line with a binding is dropped. -/
theorem advances_drop {line : Text} {rest : List Cell} (hbinding : Binding line)
    (hend : EndsIn isLineEnd line ∨ oldText rest = []) (hrel : r u line [] (oldText rest))
    (hrest : Woven Reword (u ++ line) rest) (h : Sound r u st (.swap line [] :: rest)) :
    Advances st (.swap line [] :: rest) := by
  have hold : oldText (.swap line [] :: rest) = line ++ oldText rest := old_text_swap ..
  obtain ⟨st', hpass, hst⟩ := binding_passes hbinding hend st
  obtain ⟨c, w, hcut⟩ := List.exists_cons_of_ne_nil (binding_mild hbinding).some
  have hquiet := (h.quiet ⟨u, st, c, w ++ oldText rest⟩ (by
    rw [hold, hcut, List.cons_append, entries_cons]
    exact List.mem_cons_self)).drop line (oldText rest) (by rw [hcut]; rfl) hrel
  refine advances_code [.swap line []] rest rfl (by simp [hcut]) (hold ▸ hpass)
    (by rw [new_text_swap]; exact passes_stop st _) ?_
  rcases hst with hst | hnil
  · exact Or.inl (hst.trans hquiet)
  · exact Or.inr (woven_nil hrest hnil)

include hr

/-- The lexer goes over a word that is replaced and the part of a name in front of it. -/
theorem advances_swap {p old new : Text} {rest : List Cell} (hchars : ∀ d ∈ p, isNameChar d = true)
    (hhead : p.head?.all isWordHead = true)
    (h : Sound r u st (p.map .keep ++ .swap old new :: rest)) :
    Advances st (p.map .keep ++ .swap old new :: rest) := by
  have hw := woven_behind h.woven
  rw [old_text_kept] at hw
  obtain ⟨hrel, hrest⟩ := woven_swap hw
  have hrest : Woven Reword (u ++ p ++ old) rest := woven_imp hr hrest
  have hfresh : Pattern.freshName (u ++ p).getLast? = true → NamePrefix p := by
    intro hfresh
    refine ⟨hchars, hhead, ?_⟩
    rcases eq_or_ne p [] with hp | hp
    · exact Or.inl hp
    · rw [List.getLast?_append_of_ne_nil _ hp] at hfresh
      exact Or.inr hfresh
  cases hr hrel with
  | link hends hx hy => exact advances_link (hfresh hends) hx hy hrest
  | bind hends hbehind => exact advances_bind (hfresh hends) hbehind hrest
  | call hends hbehind => exact advances_call (hfresh hends) hends hbehind hrel hrest h
  | drop hfront hbinding hend =>
    -- no part of a name stands in front of a line
    have hp : p = [] := by
      by_contra hne
      obtain ⟨d, hd⟩ := Option.ne_none_iff_exists'.1 (mt List.getLast?_eq_none_iff.1 hne)
      have hchar := hchars d (List.mem_of_getLast? hd)
      refine front_not_in_line hfront (in_line_append _ hne ?_)
      rw [hd, ne_eq, Option.some.injEq]
      rintro rfl
      exact absurd hchar (by decide)
    subst hp
    simp only [List.append_nil] at hrel hrest
    exact advances_drop hbinding hend hrel hrest h

/-- The lexer goes over the first cells, whatever they are. -/
theorem advances (h : Sound r u st cells) (hne : cells ≠ []) : Advances st cells := by
  cases cells with
  | nil => exact absurd rfl hne
  | cons k rest =>
    cases k with
    | swap old new => exact advances_swap hr (p := []) (by simp) rfl h
    | keep c =>
      have hw : Woven Reword (u ++ [c]) rest := woven_imp hr (woven_keep h.woven)
      have hkept : ∀ (ks rest' : List Cell) (k : Kind) (st' : State), rest = ks ++ rest' →
          step st c (oldText rest) = ⟨k, (oldText ks).length, st'⟩ →
          step st c (newText rest) = ⟨k, (newText ks).length, st'⟩ →
          Advances st (.keep c :: rest) := by
        rintro ks rest' k st' rfl hold hnew
        have hread := lexes_one hold
        have hread' := lexes_one hnew
        rw [old_text_append, List.take_left, List.drop_left, ← old_text_append] at hread
        rw [new_text_append, List.take_left, List.drop_left, ← new_text_append] at hread'
        exact ⟨.keep c :: ks, rest', _, _, _, _, rfl, by simp, hread, hread', Or.inl rfl,
          Or.inr ⟨k, rfl, rfl⟩⟩
      by_cases hc : isWordHead c = true
      · obtain ⟨p, rest', rfl, hp, hrun⟩ :=
          name_cells hw (in_line_concat (head_other hc (by decide)))
        have hword : NameWord (c :: p) := by
          obtain ⟨hname, hdigit⟩ := word_head_char hc
          obtain ⟨hline, hspace⟩ := name_char_unspaced hname
          exact ⟨List.forall_mem_cons.2 ⟨hname, hp⟩, c, p, rfl, hline, hspace, hdigit,
            head_other hc (by decide)⟩
        rcases hrun with ⟨hold, hnew⟩ | ⟨old, new, rest'', rfl⟩
        · refine hkept (p.map .keep) rest' .name (st.name (c :: p)) rfl ?_ ?_
          · rw [old_text_append, old_text_kept]
            exact name_step hword hold _
          · rw [new_text_append, new_text_kept]
            exact name_step hword hnew _
        · exact advances_swap hr (p := c :: p) (List.forall_mem_cons.2 ⟨(word_head_char hc).1, hp⟩)
            (by simpa using hc) h
      · obtain ⟨hkind, hstate, ks, rest', hcells, hold, hnew⟩ :=
          step_pairs hr h (Bool.not_eq_true _ ▸ hc)
        refine hkept ks rest' (step st c (oldText rest)).kind (step st c (oldText rest)).state
          hcells ?_ ?_
        · rw [← hold]
        · rw [hkind, hstate, ← hnew]

/-! All lexemes. -/

omit hr in
theorem marks_behind (us xs : List Lexeme) : ∃ ms, maskOf (settle (us ++ xs)).1 =
    ms ++ maskOf (settle xs).1 ∧ ms.length = (us.flatMap (·.text)).length := by
  induction us with
  | nil => exact ⟨[], rfl, rfl⟩
  | cons x us ih =>
    obtain ⟨ms, hms, hlen⟩ := ih
    obtain ⟨y, hy, htext, -⟩ := settle_cons x (us ++ xs)
    refine ⟨List.replicate x.text.length (!y.kind.isLiteral) ++ ms, ?_, by simp [hlen]⟩
    rw [List.cons_append, hy, mask_cons, hms, htext, List.append_assoc]

omit hr in
theorem sound_behind {ks rest : List Cell} (h : Sound r u st (ks ++ rest)) {us : List Lexeme}
    {st' : State} (hread : Lexes st (oldText (ks ++ rest)) us st' (oldText rest)) :
    us.flatMap (·.text) = oldText ks ∧ Sound r (u ++ oldText ks) st' rest := by
  have htext : us.flatMap (·.text) = oldText ks := by
    have hcut := lexes_text hread
    rw [old_text_append] at hcut
    exact (List.append_cancel_right hcut).symm
  refine ⟨htext, woven_behind h.woven, ?_, fun e he => h.quiet e (lexes_entries hread ?_)⟩
  · obtain ⟨ms, hms, hlen⟩ := marks_behind us (lexemesFrom st' (oldText rest))
    have hmarked := h.marked
    rw [lexes_lexemes hread, hms] at hmarked
    exact unmasked_behind (by rw [hlen, htext]) hmarked
  · rwa [htext]

theorem aligned_from (h : Sound r u st cells) :
    Aligned cells (lexemesFrom st (oldText cells)) (lexemesFrom st (newText cells)) := by
  induction hn : (oldText cells).length using Nat.strongRecOn generalizing u st cells with
  | ind n ih =>
    subst hn
    rcases eq_or_ne cells [] with rfl | hne
    · simpa [lexemesFrom] using Aligned.done
    · obtain ⟨ks, rest, us, vs, st₁, st₂, rfl, hks, hold, hnew, hst, hus⟩ := advances hr h hne
      obtain ⟨htext, hsound⟩ := sound_behind h hold
      have htext' : vs.flatMap (·.text) = newText ks := by
        have hcut := lexes_text hnew
        rw [new_text_append] at hcut
        exact (List.append_cancel_right hcut).symm
      have hpos := List.length_pos_iff.2 hks
      have hrest := ih _ (by rw [old_text_append, List.length_append]; omega) hsound rfl
      have hsame : lexemesFrom st₁ (newText rest) = lexemesFrom st₂ (newText rest) := by
        rcases hst with rfl | rfl
        · rfl
        · simp [lexemesFrom]
      rw [lexes_lexemes hold, lexes_lexemes hnew, ← hsame]
      rcases hus with ⟨hus, hvs⟩ | ⟨k, rfl, rfl⟩
      · exact .code hus hvs htext htext' hrest
      · exact .same k ks hrest

end

end Restage.Script
