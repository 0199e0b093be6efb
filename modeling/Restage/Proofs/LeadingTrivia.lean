import Restage.Proofs.ImportLine

/-!
What stands in front of a token. Blanks and comments in front of a text change its first token by no
more than the state they leave (`Leads`). A position in a text lies behind blanks and comments that
do so, or behind the first character of a token, unless it is inside a comment (`lead_reached`).
-/

set_option autoImplicit false

namespace Restage.Script

def Kind.isTrivia : Kind → Bool
  | .blank | .comment => true
  | _ => false

/-- The first lexeme that is neither a blank nor a comment. -/
def firstFrom (st : State) (t : Text) : Option Lexeme :=
  (lexemesFrom st t).find? fun x => !x.kind.isTrivia

/-- One mark for each character in front of the first token: whether it is in no comment. -/
def leadMask (st : State) (t : Text) : List Bool :=
  maskOf ((lexemesFrom st t).takeWhile fun x => x.kind.isTrivia)

section

variable {st : State} {c : Char} {cs : Text}

theorem first_token (h : (step st c cs).kind.isTrivia = false) :
    firstFrom st (c :: cs) = some ⟨(step st c cs).kind, c :: cs.take (step st c cs).more⟩ := by
  rw [firstFrom, lexemes_cons, List.find?_cons_of_pos (by simp [h])]

theorem first_behind_trivia (h : (step st c cs).kind.isTrivia = true) :
    firstFrom st (c :: cs) =
      firstFrom (step st c cs).state (cs.drop (step st c cs).more) := by
  rw [firstFrom, lexemes_cons, List.find?_cons_of_neg (by simp [h]), firstFrom]

theorem lead_behind_trivia (h : (step st c cs).kind.isTrivia = true) :
    leadMask st (c :: cs) =
      List.replicate (c :: cs.take (step st c cs).more).length (!(step st c cs).kind.isLiteral) ++
        leadMask (step st c cs).state (cs.drop (step st c cs).more) := by
  rw [leadMask, lexemes_cons, List.takeWhile_cons_of_pos (by simpa using h), leadMask]
  rfl

/-! Which steps take blanks and comments. -/

/-- A line comment begins at a character. -/
def LineOpens (st : State) (c : Char) (cs : Text) : Prop :=
  c = '/' ∧ cs.head? = some '/' ∨ c = '-' ∧ st.fresh = true ∧ Text.startsWith cs "->".toList = true

/-- A block comment begins at a character, and is closed. -/
def BlockOpens (c : Char) (cs : Text) : Prop :=
  (c = '/' ∧ cs.head? = some '*') ∧ (blockCommentLength? (cs.drop 1)).isSome = true

/-- A blank or a comment begins at a character. -/
def TriviaOpens (st : State) (c : Char) (cs : Text) : Prop :=
  isNewline c = true ∨ isSpace c = true ∨ LineOpens st c cs ∨ BlockOpens c cs

/-- A step takes a blank or a comment only where one begins. -/
def TakesTrivia (st : State) (c : Char) (cs : Text) (s : Step) : Prop :=
  s.kind.isTrivia = true → TriviaOpens st c cs

theorem slash_step_trivia : TakesTrivia st c cs (slashStep st cs) := by
  unfold slashStep
  refine iteInduction (motive := TakesTrivia st c cs) (fun _ => ?_) fun _ => nofun
  split <;> exact nofun

theorem step_trivia (st : State) (c : Char) (cs : Text) : TakesTrivia st c cs (step st c cs) := by
  unfold step
  refine iteInduction (motive := TakesTrivia st c cs) (fun h _ => Or.inl h) fun _ => ?_
  refine iteInduction (motive := TakesTrivia st c cs) (fun h _ => Or.inr (Or.inl h)) fun _ => ?_
  refine iteInduction (motive := TakesTrivia st c cs) (fun _ => nofun) fun _ => ?_
  refine iteInduction (motive := TakesTrivia st c cs) (fun _ => nofun) fun _ => ?_
  refine iteInduction (motive := TakesTrivia st c cs) (fun _ => ?_) fun _ => ?_
  · split <;> exact nofun
  refine iteInduction (motive := TakesTrivia st c cs) (fun _ => ?_) fun _ => ?_
  · unfold templateStep
    split <;> exact nofun
  refine iteInduction (motive := TakesTrivia st c cs) (fun _ => ?_) fun _ => ?_
  · unfold resumeStep
    split <;> exact nofun
  refine iteInduction (motive := TakesTrivia st c cs) (fun h _ => ?_) fun _ => ?_
  · exact Or.inr (Or.inr (Or.inl (Or.inl (by simpa using h))))
  refine iteInduction (motive := TakesTrivia st c cs) (fun h => ?_) fun _ => ?_
  · unfold blockComment
    split
    · next n hn => exact fun _ => Or.inr (Or.inr (Or.inr ⟨by simpa using h, by rw [hn]; rfl⟩))
    · exact slash_step_trivia
  refine iteInduction (motive := TakesTrivia st c cs) (fun _ => slash_step_trivia) fun _ => ?_
  refine iteInduction (motive := TakesTrivia st c cs) (fun h _ => ?_) fun _ => ?_
  · exact Or.inr (Or.inr (Or.inl (Or.inr (by simpa [and_assoc] using h))))
  intro h
  rw [mark_step_kind] at h
  exact nomatch h

theorem newline_step (h : isNewline c = true) : step st c cs = ⟨.blank, 0, st.blank true⟩ := by
  simp [step, h]

theorem space_step (h : isSpace c = true) :
    step st c cs = ⟨.blank, (cs.takeWhile isSpace).length, st⟩ := by
  have hline : isNewline c = false := by
    simp only [isSpace, Bool.and_eq_true, Bool.not_eq_true'] at h
    exact h.1
  simp [step, h, hline]

theorem slash_classes : isNewline '/' = false ∧ isSpace '/' = false ∧
    Text.isDigit '/' = false ∧ isNameChar '/' = false := by decide

theorem dash_classes : isNewline '-' = false ∧ isSpace '-' = false ∧
    Text.isDigit '-' = false ∧ isNameChar '-' = false := by decide

theorem line_step (h : LineOpens st c cs) : step st c cs = lineComment st cs := by
  rcases h with ⟨rfl, h⟩ | ⟨rfl, hfresh, h⟩
  · simp [step, h, slash_classes]
  · have h : Text.startsWith cs ['-', '>'] = true := h
    simp [step, h, hfresh, dash_classes]

theorem block_step {n : Nat} (h : c = '/' ∧ cs.head? = some '*')
    (hn : blockCommentLength? (cs.drop 1) = some n) :
    step st c cs = ⟨.comment, n + 1, st.blank ((cs.take n).any isNewline)⟩ := by
  obtain ⟨rfl, h⟩ := h
  have hcomment : step st '/' cs = blockComment st cs := by simp [step, h, slash_classes]
  rw [hcomment, blockComment, hn]

theorem trivia_iff : (step st c cs).kind.isTrivia = true ↔ TriviaOpens st c cs := by
  refine ⟨step_trivia st c cs, ?_⟩
  rintro (h | h | h | ⟨h, hn⟩)
  · rw [newline_step h]; rfl
  · rw [space_step h]; rfl
  · rw [line_step h]; rfl
  · obtain ⟨n, hn⟩ := Option.isSome_iff_exists.1 hn
    rw [block_step h hn]; rfl

end

/-! What may be passed over. -/

/-- A text in front of another changes its first token by no more than the state. -/
def Leads (st : State) (u : Text) (st' : State) : Prop :=
  ∀ r, firstFrom st (u ++ r) = firstFrom st' r

section

variable {st st' : State} {c : Char} {cs u v r : Text}

theorem leads_nil : Leads st [] st := fun _ => rfl

theorem leads_append {st'' : State} (hu : Leads st u st') (hv : Leads st' v st'') :
    Leads st (u ++ v) st'' := fun r => by
  rw [List.append_assoc, hu, hv]

theorem drop_run (p : Char → Bool) (cs : Text) :
    cs.drop (cs.takeWhile p).length = cs.dropWhile p := by
  have h := List.take_append_drop (cs.takeWhile p).length cs
  rw [take_run] at h
  exact List.append_cancel_left (h.trans List.takeWhile_append_dropWhile.symm)

theorem first_newline (h : isNewline c = true) (cs : Text) :
    firstFrom st (c :: cs) = firstFrom (st.blank true) cs ∧
      leadMask st (c :: cs) = true :: leadMask (st.blank true) cs := by
  have hstep : step st c cs = _ := newline_step h
  have htrivia : (step st c cs).kind.isTrivia = true := by rw [hstep]; rfl
  rw [first_behind_trivia htrivia, lead_behind_trivia htrivia, hstep]
  exact ⟨rfl, rfl⟩

/-- Spaces are passed one by one. -/
theorem first_space (h : isSpace c = true) (cs : Text) :
    firstFrom st (c :: cs) = firstFrom st cs ∧ leadMask st (c :: cs) = true :: leadMask st cs := by
  have hrun : ∀ {c : Char}, isSpace c = true → ∀ cs : Text,
      firstFrom st (c :: cs) = firstFrom st (cs.dropWhile isSpace) ∧ leadMask st (c :: cs) =
        List.replicate ((cs.takeWhile isSpace).length + 1) true ++
          leadMask st (cs.dropWhile isSpace) := by
    intro c hc cs
    have hstep : step st c cs = _ := space_step hc
    have htrivia : (step st c cs).kind.isTrivia = true := by rw [hstep]; rfl
    rw [first_behind_trivia htrivia, lead_behind_trivia htrivia, hstep]
    simp only [drop_run, take_run, List.length_cons]
    exact ⟨trivial, rfl⟩
  obtain ⟨h1, h2⟩ := hrun h cs
  rw [h1, h2]
  cases cs with
  | nil => exact ⟨rfl, rfl⟩
  | cons d ds =>
    cases hd : isSpace d with
    | false => 
      rw [List.dropWhile_cons_of_neg (by simp [hd]), List.takeWhile_cons_of_neg (by simp [hd])]
      exact ⟨rfl, rfl⟩
    | true =>
      obtain ⟨h3, h4⟩ := hrun hd ds
      rw [h3, h4, List.dropWhile_cons_of_pos hd, List.takeWhile_cons_of_pos hd]
      exact ⟨rfl, rfl⟩

/-- Whether a line comment begins is seen on its line. -/
theorem line_opens_local {m r : Text} {d : Char} (hd : isNewline d = true)
    (h : LineOpens st c (m ++ d :: r)) (r' : Text) : LineOpens st c (m ++ d :: r') := by
  have hmarks : d ≠ '/' ∧ d ≠ '-' ∧ d ≠ '>' := by
    refine ⟨?_, ?_, ?_⟩ <;> rintro rfl <;> exact absurd hd (by decide)
  refine h.imp (And.imp_right fun hh => ?_) (And.imp_right (And.imp_right fun hs => ?_))
  · cases m with
    | nil => exact absurd (Option.some.inj hh) hmarks.1
    | cons e m => exact hh
  · obtain ⟨w, hw⟩ := Option.isSome_iff_exists.1 hs
    have hw : m ++ d :: r = '-' :: '>' :: w := Text.after?_eq_some.1 hw
    rcases m with _ | ⟨e, _ | ⟨f, m⟩⟩
    · exact absurd (List.cons.inj hw).1 hmarks.2.1
    · exact absurd (List.cons.inj (List.cons.inj hw).2).1 hmarks.2.2
    · obtain ⟨he, hrest⟩ := List.cons.inj hw
      obtain ⟨hf, _⟩ := List.cons.inj hrest
      rw [he, hf]
      rfl

/-- A line comment and the line end behind it. -/
theorem first_line {m r : Text} {d : Char} (hm : ∀ x ∈ m, isNewline x = false)
    (hd : isNewline d = true) (hopens : LineOpens st c (m ++ d :: r)) :
    firstFrom st (c :: (m ++ d :: r)) = firstFrom (st.blank true) r ∧
      leadMask st (c :: (m ++ d :: r)) =
        List.replicate (m.length + 1) false ++ true :: leadMask (st.blank true) r := by
  have hstep : step st c (m ++ d :: r) = ⟨.comment, m.length, st⟩ := by
    rw [line_step hopens, lineComment, List.takeWhile_append_of_pos fun x hx => by simp [hm x hx],
      List.takeWhile_cons_of_neg (by simp [hd]), List.append_nil]
  have htrivia : (step st c (m ++ d :: r)).kind.isTrivia = true := by rw [hstep]; rfl
  rw [first_behind_trivia htrivia, lead_behind_trivia htrivia, hstep]
  simp only [List.drop_left, List.take_left, List.length_cons]
  exact ⟨(first_newline hd r).1, by rw [(first_newline hd r).2]; rfl⟩

/-- A comment is found by itself. -/
theorem comment_cut {t : Text} {n : Nat} (h : blockCommentLength? t = some n) :
    0 < n ∧ ∀ r, blockCommentLength? (t.take n ++ r) = some n := by
  fun_induction blockCommentLength? t generalizing n with
  | case1 => simp at h
  | case2 t =>
    obtain rfl := Option.some.inj h
    exact ⟨by decide, fun r => rfl⟩
  | case3 c cs hclose ih =>
    obtain ⟨k, hk, rfl⟩ := Option.map_eq_some_iff.1 h
    obtain ⟨hpos, hcut⟩ := ih hk
    refine ⟨Nat.succ_pos k, fun r => ?_⟩
    rw [List.take_succ_cons, List.cons_append, blockCommentLength?.eq_3, hcut r]
    · rfl
    · rintro t rfl ht
      cases cs with
      | nil => simp [blockCommentLength?] at hk
      | cons d ds =>
        obtain ⟨k, rfl⟩ := Nat.exists_eq_add_one.2 hpos
        rw [List.take_succ_cons, List.cons_append] at ht
        exact hclose ds rfl (by rw [(List.cons.inj ht).1])

/-- A block comment. -/
theorem first_block {n : Nat} (h : c = '/' ∧ cs.head? = some '*')
    (hn : blockCommentLength? (cs.drop 1) = some n) (r : Text) :
    firstFrom st (c :: (cs.take (n + 1) ++ r)) =
        firstFrom (st.blank ((cs.take n).any isNewline)) r ∧
      leadMask st (c :: (cs.take (n + 1) ++ r)) =
        List.replicate (n + 2) false ++ leadMask (st.blank ((cs.take n).any isNewline)) r := by
  obtain ⟨m, rfl⟩ : ∃ m, cs = '*' :: m := by
    cases cs with
    | nil => simp at h
    | cons d m =>
      obtain rfl : d = '*' := by simpa using h.2
      exact ⟨m, rfl⟩
  obtain ⟨hpos, hcut⟩ := comment_cut hn
  have hlength : (('*' :: m).take (n + 1)).length = n + 1 := by
    have := comment_within hn
    rw [List.length_take, List.length_cons]
    simp only [List.drop_succ_cons, List.drop_zero] at this
    omega
  have htake : (('*' :: m).take (n + 1) ++ r).take n = ('*' :: m).take n := by
    rw [List.take_append_of_le_length (by omega), List.take_take, Nat.min_eq_left (Nat.le_succ n)]
  have hstep : step st c (('*' :: m).take (n + 1) ++ r) =
      ⟨.comment, n + 1, st.blank ((('*' :: m).take n).any isNewline)⟩ := by
    rw [block_step (n := n) ⟨h.1, rfl⟩ (by simpa using hcut r), htake]
  have htrivia : (step st c (('*' :: m).take (n + 1) ++ r)).kind.isTrivia = true := by
    rw [hstep]; rfl
  rw [first_behind_trivia htrivia, lead_behind_trivia htrivia, hstep]
  simp only [List.drop_left' hlength, List.take_left' hlength, List.length_cons, hlength]
  exact ⟨trivial, rfl⟩

/-- A position is reached over blanks and comments, or it lies behind the beginning of a token that
is reached so. -/
def Reached (st : State) (v : Text) (j : Nat) : Prop :=
  (∃ st', Leads st (v.take j) st') ∨ ∃ u c w st', v = u ++ c :: w ∧ u.length < j ∧
    Leads st u st' ∧ (step st' c w).kind.isTrivia = false

theorem reached_behind (hu : Leads st u st') {j : Nat} (h : Reached st' v j) :
    Reached st (u ++ v) (u.length + j) := by
  rcases h with ⟨st'', h⟩ | ⟨a, c, w, st'', rfl, hj, h, htoken⟩
  · refine Or.inl ⟨st'', ?_⟩
    rw [List.take_length_add_append]
    exact leads_append hu h
  · refine Or.inr ⟨u ++ a, c, w, st'', (List.append_assoc _ _ _).symm, ?_, leads_append hu h,
      htoken⟩
    rw [List.length_append]
    omega

/-- A stretch in front of a text is passed over, and all of its characters but the first end a line
or are in a comment. -/
structure Passed (st : State) (ℓ r : Text) (a : State) (bs : List Bool) : Prop where
  some : ℓ ≠ []
  length : bs.length = ℓ.length
  first : ∀ r, firstFrom st (ℓ ++ r) = firstFrom a r
  mask : leadMask st (ℓ ++ r) = bs ++ leadMask a r
  inside : ∀ i, 0 < i → ∀ x, ℓ[i]? = Option.some x → isNewline x = true ∨ bs.getD i true = false

/-- One character is passed over. -/
theorem passed_one {st' : State} {b : Bool} (hfirst : ∀ r, firstFrom st ([c] ++ r) = firstFrom st' r)
    (hmask : leadMask st ([c] ++ r) = [b] ++ leadMask st' r) : Passed st [c] r st' [b] := by
  refine ⟨by simp, rfl, hfirst, hmask, fun i hi x hx => ?_⟩
  have := (List.getElem?_eq_some_iff.1 hx).1
  simp only [List.length_singleton] at this
  omega

/-- A line comment is passed over with the end of its line. -/
theorem passed_line {m : Text} {d : Char} (hm : ∀ x ∈ m, isNewline x = false)
    (hd : isNewline d = true) (hc : LineOpens st c (m ++ d :: r)) :
    Passed st (c :: (m ++ [d])) r (st.blank true) (List.replicate (m.length + 1) false ++ [true]) := by
  have hpass := fun r' => first_line hm hd (line_opens_local hd hc r')
  refine ⟨by simp, by simp, fun r' => ?_, ?_, fun i _ x hx => ?_⟩
  · simpa using (hpass r').1
  · simpa using (hpass r).2
  · by_cases hi : i < m.length + 1
    · rw [List.getD_append _ _ _ _ (by simpa using hi), List.getD_replicate _ hi]
      exact Or.inr rfl
    · have hlast := (List.getElem?_eq_some_iff.1 hx).1
      rw [List.length_cons, List.length_append, List.length_singleton] at hlast
      obtain rfl : i = (c :: m).length := by rw [List.length_cons]; omega
      rw [← List.cons_append, List.getElem?_append_right (Nat.le_refl _), Nat.sub_self] at hx
      obtain rfl : d = x := by simpa using hx
      exact Or.inl hd

theorem passed_block {n : Nat} (hc : c = '/' ∧ cs.head? = some '*')
    (hn : blockCommentLength? (cs.drop 1) = some n) :
    Passed st (c :: cs.take (n + 1)) (cs.drop (n + 1)) (st.blank ((cs.take n).any isNewline))
      (List.replicate (n + 2) false) := by
  have hwithin : (cs.take (n + 1)).length = n + 1 := by
    have := comment_within hn
    rw [List.length_take]
    rw [List.length_drop] at this
    have := (comment_cut hn).1
    omega
  refine ⟨by simp, by simp [hwithin], fun r => (first_block hc hn r).1, (first_block hc hn _).2,
    fun i _ x hx => Or.inr ?_⟩
  have hi := (List.getElem?_eq_some_iff.1 hx).1
  rw [List.length_cons, hwithin] at hi
  rw [List.getD_replicate _ hi]

/-- A blank or a comment is passed over, unless it is a line comment that nothing follows. -/
theorem trivia_passed (h : (step st c cs).kind.isTrivia = true) :
    leadMask st (c :: cs) = List.replicate (cs.length + 1) false ∨
      ∃ ℓ r a bs, c :: cs = ℓ ++ r ∧ Passed st ℓ r a bs := by
  rcases trivia_iff.1 h with hc | hc | hc | hc
  · exact Or.inr ⟨[c], cs, _, [true], rfl, passed_one (fun r => (first_newline hc r).1)
      (first_newline hc cs).2⟩
  · exact Or.inr ⟨[c], cs, _, [true], rfl, passed_one (fun r => (first_space hc r).1)
      (first_space hc cs).2⟩
  · have hm : ∀ x ∈ cs.takeWhile fun d => !isNewline d, isNewline x = false := fun x hx => by
      simpa using List.all_eq_true.1 List.all_takeWhile x hx
    have hcut := List.takeWhile_append_dropWhile (p := fun d => !isNewline d) (l := cs)
    have hstep := line_step hc
    rw [lineComment] at hstep
    cases hrest : cs.dropWhile fun d => !isNewline d with
    | nil =>
      rw [hrest, List.append_nil] at hcut
      left
      rw [lead_behind_trivia h, hstep, hcut]
      simp [leadMask, lexemesFrom, maskOf, Kind.isLiteral]
    | cons d r =>
      have hd : isNewline d = true := by
        have := List.head?_dropWhile_not (fun d => !isNewline d) cs
        simpa [hrest] using this
      rw [hrest] at hcut
      generalize cs.takeWhile (fun d => !isNewline d) = m at hcut hm
      rw [← hcut] at hc ⊢
      exact Or.inr ⟨_, r, _, _, by simp, passed_line hm hd hc⟩
  · obtain ⟨n, hn⟩ := Option.isSome_iff_exists.1 hc.2
    exact Or.inr ⟨_, _, _, _, by simp, passed_block hc.1 hn⟩

/-- Every character that ends no line and is in no comment in front of the first token is reached. -/
theorem lead_reached {j : Nat} {x : Char} (hx : v[j]? = some x) (hline : isNewline x = false)
    (hmask : (leadMask st v).getD j true = true) : Reached st v j := by
  induction hlength : v.length using Nat.strong_induction_on generalizing st v j with
  | _ n ih =>
    cases v with
    | nil => simp at hx
    | cons c cs =>
      cases htrivia : (step st c cs).kind.isTrivia with
      | false =>
        cases j with
        | zero => exact Or.inl ⟨st, leads_nil⟩
        | succ j => exact Or.inr ⟨[], c, cs, st, rfl, Nat.succ_pos j, leads_nil, htrivia⟩
      | true =>
        rcases trivia_passed htrivia with hall | ⟨ℓ, r, a, bs, hcut, hpass⟩
        · have hj := (List.getElem?_eq_some_iff.1 hx).1
          rw [hall, List.getD_replicate _ (by simpa using hj)] at hmask
          exact Bool.noConfusion hmask
        · rw [hcut] at hx hmask hlength ⊢
          by_cases hj : ℓ.length ≤ j
          · rw [List.getElem?_append_right hj] at hx
            rw [hpass.mask, List.getD_append_right _ _ _ _ (hpass.length ▸ hj), hpass.length] at hmask
            have hshort : r.length < n := by
              have := List.length_pos_iff.2 hpass.some
              rw [← hlength, List.length_append]
              omega
            have hall := reached_behind hpass.first (ih r.length hshort hx hmask rfl)
            rwa [Nat.add_sub_cancel' hj] at hall
          · rw [List.getElem?_append_left (by omega)] at hx
            rw [hpass.mask, List.getD_append _ _ _ _ (by rw [hpass.length]; omega)] at hmask
            rcases Nat.eq_zero_or_pos j with rfl | hpos
            · exact Or.inl ⟨st, leads_nil⟩
            · rcases hpass.inside j hpos x hx with h | h
              · rw [hline] at h
                exact Bool.noConfusion h
              · rw [hmask] at h
                exact Bool.noConfusion h

end

end Restage.Script
