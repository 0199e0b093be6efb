import Restage.Proofs.ImportLine

/-!
Texts whose literals are closed. A text is sealed when every string, comment, template part and
regular expression that begins in it ends in it; a name behind a sealed text is code, whatever
follows (`sealed_code`).
-/

set_option autoImplicit false

namespace Restage.Script

/-- A lexeme that is a literal only if its end is found here, and then ends before the last
character. -/
def seals (st : State) (c : Char) (cs : Text) : Bool :=
  if c == '\x22' || c == '\x27' then (stringLength? c cs).isSome
  else if c == '\x60' || (c == '}' && st.inSubstitution) then (templateLength? cs).isSome
  else if c == '/' then
    if cs.head? == some '/' then cs.any isNewline
    else if cs.head? == some '*' then (blockCommentLength? (cs.drop 1)).isSome
    else !st.place.allowsRegex || (regexLength? false cs).any (· < cs.length)
  else if c == '-' && st.fresh && Text.startsWith cs "->".toList then cs.any isNewline
  else true

/-- Every literal that begins in a text ends in it. -/
def isSealed (st : State) : Text → Bool
  | [] => true
  | c :: cs => seals st c cs && isSealed (step st c cs).state (cs.drop (step st c cs).more)
termination_by t => t.length
decreasing_by simp only [List.length_drop, List.length_cons]; omega

/-! Literals that have ended are the same whatever follows. -/

theorem string_kept {q : Char} (hq : q ≠ '\\') {cs : Text} (h : (stringLength? q cs).isSome)
    (v : Text) : stringLength? q (cs ++ v) = stringLength? q cs := by
  fun_induction stringLength? q cs with
  | case1 => simp at h
  | case2 cs ih =>
    rw [Option.isSome_map] at h
    simp only [List.cons_append, stringLength?, ih h]
  | case3 c cs hcr ih =>
    rw [Option.isSome_map] at h
    rw [List.cons_append, List.cons_append, stringLength?.eq_3, ih h]
    rintro ds rfl hds
    cases cs with
    | nil => simp [stringLength?] at h
    | cons d cs => exact hcr cs rfl (by rw [(List.cons.inj hds).1])
  | case4 cs _ hnone =>
    rw [List.cons_append, stringLength?.eq_4 _ _ _ (fun _ h => absurd h hq) fun _ _ h => absurd h hq,
      if_pos rfl]
  | case5 c cs _ hnone hcq hline => simp at h
  | case6 c cs _ hnone hcq hline ih =>
    rw [Option.isSome_map] at h
    have hc : c ≠ '\\' := by
      rintro rfl
      cases cs with
      | nil => simp [stringLength?] at h
      | cons d cs => exact hnone d cs rfl rfl
    rw [List.cons_append, stringLength?.eq_4 _ _ _ (fun _ h => absurd h hc) fun _ _ h => absurd h hc,
      if_neg hcq, if_neg hline, ih h]

theorem template_kept {cs : Text} (h : (templateLength? cs).isSome) (v : Text) :
    templateLength? (cs ++ v) = templateLength? cs := by
  fun_induction templateLength? cs with
  | case1 => simp at h
  | case2 t => rfl
  | case3 t => rfl
  | case4 d cs ih =>
    rw [Option.isSome_map] at h
    rw [List.cons_append, List.cons_append, templateLength?.eq_4, ih h]
  | case5 c cs hquote hdollar hnone ih =>
    rw [Option.isSome_map] at h
    have hsome : ∃ d ds, cs = d :: ds := by
      cases cs with
      | nil => simp [templateLength?] at h
      | cons d ds => exact ⟨d, ds, rfl⟩
    obtain ⟨d, ds, rfl⟩ := hsome
    rw [List.cons_append, templateLength?.eq_5 _ _ hquote, ih h]
    · rintro t rfl ht
      exact hdollar ds rfl (by rw [(List.cons.inj ht).1])
    · rintro e es rfl _
      exact hnone d ds rfl rfl

theorem comment_kept {cs : Text} (h : (blockCommentLength? cs).isSome) (v : Text) :
    blockCommentLength? (cs ++ v) = blockCommentLength? cs := by
  fun_induction blockCommentLength? cs with
  | case1 => simp at h
  | case2 t => rfl
  | case3 c cs hclose ih =>
    rw [Option.isSome_map] at h
    rw [List.cons_append, blockCommentLength?.eq_3, ih h]
    rintro t rfl ht
    cases cs with
    | nil => simp [blockCommentLength?] at h
    | cons d cs => exact hclose cs rfl (by rw [(List.cons.inj ht).1])

/-- The flags of a regular expression end with it only if something else follows. -/
theorem regex_kept {inClass : Bool} {cs : Text} {n : Nat} (h : regexLength? inClass cs = some n)
    (hn : n < cs.length) (v : Text) : regexLength? inClass (cs ++ v) = some n := by
  fun_induction regexLength? inClass cs generalizing n with
  | case1 => simp at h
  | case2 inClass t => simp at h
  | case3 inClass cs => simp at h
  | case4 inClass c cs hc ih =>
    obtain ⟨k, hk, rfl⟩ := Option.map_eq_some_iff.1 h
    rw [List.cons_append, List.cons_append, regexLength?.eq_3, if_neg hc,
      ih hk (by simp only [List.length_cons] at hn; omega)]
    rfl
  | case5 inClass c cs hline hnone hslash =>
    obtain rfl := Option.some.inj h
    have hc : c ≠ '\\' := by
      rintro rfl
      exact absurd hslash.1 (by decide)
    rw [List.cons_append, regexLength?.eq_4 _ _ _ hline fun _ _ h => absurd h hc, if_pos hslash,
      List.takeWhile_append, if_neg]
    intro hall
    simp only [List.length_cons, hall] at hn
    omega
  | case6 inClass c cs hline hnone hslash ih =>
    obtain ⟨k, hk, rfl⟩ := Option.map_eq_some_iff.1 h
    have hc : c ≠ '\\' := by
      rintro rfl
      cases cs with
      | nil => simp [regexLength?] at hk
      | cons d cs => exact hnone d cs rfl rfl
    rw [List.cons_append, regexLength?.eq_4 _ _ _ hline fun _ _ h => absurd h hc, if_neg hslash,
      ih hk (by simp only [List.length_cons] at hn; omega)]
    rfl

/-! Lexemes in a sealed text in front of a name. -/

theorem run_over {p : Char → Bool} (cs v : Text) :
    (cs ++ v).takeWhile p = cs.takeWhile p ∨ cs.length ≤ ((cs ++ v).takeWhile p).length := by
  rw [List.takeWhile_append]
  split
  · exact Or.inr (by simp)
  · exact Or.inl rfl

theorem run_before {p : Char → Bool} {cs : Text} (h : cs.any fun c => !p c) (v : Text) :
    (cs ++ v).takeWhile p = cs.takeWhile p := by
  rw [List.takeWhile_append, if_neg]
  intro hall
  obtain ⟨c, hc, hp⟩ := List.any_eq_true.1 h
  rw [← (List.takeWhile_prefix p).eq_of_length hall] at hc
  have hc := List.mem_takeWhile_imp hc
  simp [hc] at hp

/-- A lexeme is the same in front of a name, or is code that reaches up to the name. -/
def Holds (s : Step) (cs : Text) (t : Step) : Prop :=
  s = t ∨ s.kind.isLiteral = false ∧ cs.length ≤ s.more

theorem ite_holds {p : Prop} [Decidable p] {cs : Text} {a b a' b' : Step}
    (ha : p → Holds a cs a') (hb : ¬ p → Holds b cs b') :
    Holds (if p then a else b) cs (if p then a' else b') := by
  by_cases hp : p
  · simpa only [if_pos hp] using ha hp
  · simpa only [if_neg hp] using hb hp

/-- A run of characters of one class. -/
theorem run_holds {p : Char → Bool} {k : Kind} (hk : k.isLiteral = false) (f : Text → State)
    (cs v : Text) :
    Holds ⟨k, ((cs ++ v).takeWhile p).length, f ((cs ++ v).takeWhile p)⟩ cs
      ⟨k, (cs.takeWhile p).length, f (cs.takeWhile p)⟩ := by
  rcases run_over (p := p) cs v with hrun | hrun
  · exact Or.inl (by rw [hrun])
  · exact Or.inr ⟨hk, hrun⟩

section

variable (st : State) (cs w : Text)

theorem mark_step_holds (c : Char) :
    Holds (markStep st c (cs ++ 'd' :: w)) cs (markStep st c cs) := by
  match cs with
  | [] =>
    refine Or.inl ?_
    unfold markStep
    split <;> simp_all
  | [e] =>
    by_cases hmark : c = '?' ∧ e = '.'
    · obtain ⟨rfl, rfl⟩ := hmark
      have hd : Text.isDigit 'd' = false := by decide
      exact Or.inr ⟨by rw [mark_step_kind]; rfl, by simp [markStep, hd]⟩
    · refine Or.inl ?_
      unfold markStep
      split <;> simp_all
  | d :: e :: cs => exact Or.inl (mark_step_pair st c d e _ _)

theorem slash_step_holds
    (h : (!st.place.allowsRegex || (regexLength? false cs).any (· < cs.length)) = true) :
    slashStep st (cs ++ 'd' :: w) = slashStep st cs := by
  rw [slashStep, slashStep]
  split
  · next hregex =>
    simp only [hregex, Bool.not_true, Bool.false_or] at h
    cases hr : regexLength? false cs with
    | none => simp [hr] at h
    | some n =>
      simp only [hr, Option.any_some, decide_eq_true_eq] at h
      rw [regex_kept hr h]
  · rfl

theorem line_comment_holds (h : cs.any isNewline = true) :
    lineComment st (cs ++ 'd' :: w) = lineComment st cs := by
  rw [lineComment, lineComment, run_before (by simpa using h)]

theorem block_comment_holds (hstar : (cs.head? == some '*') = true)
    (h : (blockCommentLength? (cs.drop 1)).isSome = true) :
    blockComment st (cs ++ 'd' :: w) = blockComment st cs := by
  obtain ⟨t, rfl⟩ : ∃ t, cs = '*' :: t := by
    cases cs with
    | nil => simp at hstar
    | cons d t => exact ⟨t, by simpa using hstar⟩
  rw [List.drop_one, List.tail_cons] at h
  rw [blockComment, blockComment, List.cons_append, List.drop_one, List.drop_one, List.tail_cons,
    List.tail_cons, comment_kept h]
  obtain ⟨n, hn⟩ := Option.isSome_iff_exists.1 h
  rw [hn]
  simp only
  rw [← List.cons_append, List.take_append_of_le_length (Nat.le_succ_of_le (comment_within hn))]

/-! What a step asks of the characters behind its own is the same in front of a name. -/

theorem head_before {x : Char} (hx : x ≠ 'd') :
    ((cs ++ 'd' :: w).head? == some x) = (cs.head? == some x) := by
  cases cs with
  | nil => simpa using hx.symm
  | cons d cs => rfl

theorem digit_before : (cs ++ 'd' :: w).head?.any Text.isDigit = cs.head?.any Text.isDigit := by
  cases cs with
  | nil =>
    have hd : Text.isDigit 'd' = false := by decide
    simpa using hd
  | cons d cs => rfl

theorem arrow_before :
    Text.startsWith (cs ++ 'd' :: w) "->".toList = Text.startsWith cs "->".toList := by
  match cs with
  | [] => simp [Text.startsWith, Text.after?]
  | [e] => by_cases he : '-' = e <;> simp [Text.startsWith, Text.after?, he]
  | d :: e :: cs =>
    have hpair : "->".toList = ['-', '>'] := rfl
    simp only [hpair, List.cons_append, Text.startsWith, Text.after?]
    split_ifs <;> rfl

variable {st cs}

theorem step_holds {c : Char} (h : seals st c cs = true) :
    Holds (step st c (cs ++ 'd' :: w)) cs (step st c cs) := by
  rw [step, step, digit_before, head_before cs w (x := '/') (by decide),
    head_before cs w (x := '*') (by decide), arrow_before]
  rw [seals] at h
  refine ite_holds (fun _ => Or.inl rfl) fun _ => ite_holds (fun _ => run_holds rfl (fun _ => st) _ _)
    fun _ => ite_holds (fun _ => run_holds rfl (fun _ => st.value) _ _) fun _ =>
    ite_holds (fun _ => run_holds rfl (fun u => st.name (c :: u)) _ _) fun _ =>
    ite_holds (fun hquote => ?_) fun hquote => ite_holds (fun htick => ?_) fun htick =>
    ite_holds (fun hbrace => ?_) fun hbrace => ?_
  · rw [if_pos hquote] at h
    have hc : c ≠ '\\' := by
      rintro rfl
      exact absurd hquote (by decide)
    exact Or.inl (by rw [string_kept hc h])
  · rw [if_neg hquote, if_pos (by simp [htick])] at h
    exact Or.inl (by rw [templateStep, templateStep, template_kept h])
  · rw [if_neg hquote, if_pos (by simp [hbrace])] at h
    exact Or.inl (by rw [resumeStep, resumeStep, template_kept h])
  rw [if_neg hquote, if_neg (by simp [htick, hbrace])] at h
  by_cases hslash : c = '/'
  · have hyes : (c == '/') = true := by simp [hslash]
    simp only [hyes, Bool.true_and, if_true] at h ⊢
    refine ite_holds (fun hline => ?_) fun hline => ite_holds (fun hstar => ?_) fun hstar => ?_
    · rw [if_pos hline] at h
      exact Or.inl (line_comment_holds st cs w h)
    · rw [if_neg hline, if_pos hstar] at h
      exact Or.inl (block_comment_holds st cs w hstar h)
    · rw [if_neg hline, if_neg hstar] at h
      exact Or.inl (slash_step_holds st cs w h)
  · have hno : (c == '/') = false := by simp [hslash]
    simp only [hno, Bool.false_and, Bool.false_eq_true, if_false] at h ⊢
    refine ite_holds (fun harrow => ?_) fun _ => mark_step_holds st cs w c
    rw [if_pos harrow] at h
    exact Or.inl (line_comment_holds st cs w h)

end

/-! The code behind a sealed text. -/

theorem mask_cons (x : Lexeme) (xs : List Lexeme) :
    maskOf (x :: xs) = List.replicate x.text.length (!x.kind.isLiteral) ++ maskOf xs := by
  simp [maskOf]

/-- A lexeme stays as it is or, as a part of a template that never closes, becomes code. -/
theorem settle_cons (x : Lexeme) (xs : List Lexeme) : ∃ y, (settle (x :: xs)).1 = y :: (settle xs).1 ∧
    y.text = x.text ∧ (y.kind = x.kind ∨ y.kind = .mark) := by
  simp only [settle]
  split
  · exact ⟨x, rfl, rfl, Or.inl rfl⟩
  · split
    · exact ⟨_, rfl, rfl, Or.inr rfl⟩
    · exact ⟨x, rfl, rfl, Or.inl rfl⟩
  · split
    · exact ⟨_, rfl, rfl, Or.inr rfl⟩
    · exact ⟨x, rfl, rfl, Or.inl rfl⟩
  · exact ⟨x, rfl, rfl, Or.inl rfl⟩

/-- No code becomes a literal. -/
theorem settle_mask (xs : List Lexeme) {i : Nat} (h : (maskOf xs)[i]? = some true) :
    (maskOf (settle xs).1)[i]? = some true := by
  induction xs generalizing i with
  | nil => exact h
  | cons x xs ih =>
    obtain ⟨y, hy, htext, hkind⟩ := settle_cons x xs
    rw [hy, mask_cons, htext]
    rw [mask_cons] at h
    by_cases hi : i < x.text.length
    · rw [List.getElem?_append_left (by simpa using hi), List.getElem?_replicate_of_lt hi] at h ⊢
      rcases hkind with hkind | hkind
      · rwa [hkind]
      · rw [hkind]
        rfl
    · rw [List.getElem?_append_right (by simpa using hi), List.length_replicate] at h ⊢
      exact ih h

theorem name_mask (st : State) (w : Text) : (maskOf (lexemesFrom st ('d' :: w)))[0]? = some true := by
  have hkind : (step st 'd' w).kind = .name := by
    have h1 : isNewline 'd' = false := by decide
    have h2 : isSpace 'd' = false := by decide
    have h3 : Text.isDigit 'd' = false := by decide
    have h4 : isNameChar 'd' = true := by decide
    simp [step, h1, h2, h3, h4]
  rw [lexemes_cons, mask_cons, hkind]
  rfl

theorem sealed_mask {st : State} {u : Text} (h : isSealed st u = true) (w : Text) :
    (maskOf (lexemesFrom st (u ++ 'd' :: w)))[u.length]? = some true := by
  fun_induction isSealed st u with
  | case1 st => exact name_mask st w
  | case2 st c cs ih =>
    rw [Bool.and_eq_true] at h
    have hwithin := step_within st c (cs ++ 'd' :: w)
    rw [List.cons_append, lexemes_cons, mask_cons, List.length_cons, List.length_cons,
      List.length_take, Nat.min_eq_left hwithin]
    rcases step_holds w h.1 with hstep | ⟨hcode, hover⟩
    · have hmore := step_within st c cs
      have ih := ih h.2
      rw [hstep, List.drop_append_of_le_length hmore, List.getElem?_append_right (by simpa using hmore),
        List.length_replicate]
      rw [List.length_drop] at ih
      have hindex : cs.length + 1 - ((step st c cs).more + 1) = cs.length - (step st c cs).more := by
        omega
      rw [hindex]
      exact ih
    · rw [hcode]
      rcases Nat.lt_or_eq_of_le hover with hover | hover
      · rw [List.getElem?_append_left (by simp; omega), List.getElem?_replicate_of_lt (by omega)]
        rfl
      · rw [← hover, List.drop_left, List.getElem?_append_right (by simp), List.length_replicate,
          Nat.sub_self]
        exact name_mask _ w

/-- A name behind a sealed text is code. -/
theorem sealed_code {u : Text} (hfirst : u.head? ≠ some '#') (h : isSealed .start u = true)
    (w : Text) : isCode (u ++ 'd' :: w) u.length = true := by
  have hhead : (u ++ 'd' :: w).head? ≠ some '#' := by
    cases u with
    | nil => simp
    | cons c u => exact hfirst
  rw [isCode, codeMask, lexemes_plain hhead, List.getD_eq_getElem?_getD,
    settle_mask _ (sealed_mask h w)]
  rfl

end Restage.Script
