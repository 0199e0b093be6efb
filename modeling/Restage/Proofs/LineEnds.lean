import Restage.Proofs.Occurrence
import Restage.Proofs.QuotedScript

/-!
The lexer at the end of a line. A text that ends with a semicolon and a line end is read alike
whatever tame text follows, and all of the tame text is code (`code_mask_ended`): only a comment or
a template could reach over the line end, and a tame text ends neither.
-/

set_option autoImplicit false

namespace Restage.Script

/-! Texts that end a line. -/

/-- A text that ends with a line end, right behind a semicolon if it is longer. -/
def Ended (u : Text) : Prop := u = ['\n'] ∨ [';', '\n'] <:+ u

theorem ended_tail {c : Char} {cs : Text} (h : Ended (c :: cs)) : cs = [] ∧ c = '\n' ∨ Ended cs := by
  rcases h with h | h
  · exact Or.inl ⟨(List.cons.inj h).2, (List.cons.inj h).1⟩
  · rcases List.suffix_cons_iff.1 h with h | h
    · exact Or.inr (Or.inl (List.cons.inj h).2.symm)
    · exact Or.inr (Or.inr h)

theorem ended_behind {c : Char} {cs : Text} (hc : c ≠ '\n') (h : Ended (c :: cs)) : Ended cs :=
  (ended_tail h).resolve_left fun hnil => hc hnil.2

theorem ended_some {u : Text} (h : Ended u) : u ≠ [] := by
  rintro rfl
  rcases h with h | h <;> simp at h

theorem end_behind {c : Char} {cs : Text} (hc : c ≠ ';') (h : [';', '\n'] <:+ c :: cs) :
    [';', '\n'] <:+ cs :=
  (List.suffix_cons_iff.1 h).resolve_left fun hall => hc (List.cons.inj hall).1.symm

/-- A backslash does not stand last. -/
theorem ended_backslash {c : Char} {cs : Text} (h : Ended (c :: cs))
    (hnone : ∀ d ds, c = '\\' → cs = d :: ds → False) : c ≠ '\\' := by
  rintro rfl
  obtain ⟨d, ds, rfl⟩ := List.exists_cons_of_ne_nil (ended_some (ended_behind (by decide) h))
  exact hnone d ds rfl rfl

/-- More than one character follows a backslash. -/
theorem ended_escape {d : Char} {cs : Text} (h : Ended ('\\' :: d :: cs)) : Ended cs := by
  rcases h with h | h
  · simp at h
  · rcases List.suffix_cons_iff.1 h with h | h
    · simp at h
    · rcases List.suffix_cons_iff.1 h with h | h
      · exact Or.inl (List.cons.inj h).2.symm
      · exact Or.inr h

theorem ended_line {u : Text} (h : Ended u) : '\n' ∈ u := by
  rcases h with rfl | h
  · simp
  · exact h.subset (by simp)

theorem ended_drop {u : Text} (h : Ended u) (n : Nat) : u.drop n = [] ∨ Ended (u.drop n) := by
  induction n generalizing u with
  | zero => exact Or.inr h
  | succ n ih =>
    cases u with
    | nil => exact absurd rfl (ended_some h)
    | cons c u =>
      rcases ended_tail h with ⟨rfl, _⟩ | h
      · simp
      · simpa using ih h

/-- A text that ends no literal which has begun before it, and begins none. -/
structure Tame (v : Text) : Prop where
  bare : Bare v
  no_substitution : ¬ ['$', '{'] <:+: v

theorem tame_suffix {u v : Text} (h : u <:+ v) (hv : Tame v) : Tame u where
  bare := ⟨fun c hc => hv.bare.1 c (h.subset hc), fun hin => hv.bare.2 (hin.trans h.isInfix)⟩
  no_substitution hin := hv.no_substitution (hin.trans h.isInfix)

theorem tame_template {v : Text} (hv : Tame v) : templateLength? v = none := by
  fun_induction templateLength? v with
  | case1 => rfl
  | case2 t => exact absurd (hv.bare.1 '\x60' (by simp)) (by decide)
  | case3 t => exact absurd ⟨[], t, rfl⟩ hv.no_substitution
  | case4 d cs ih =>
    rw [ih (tame_suffix ((List.suffix_cons _ _).trans (List.suffix_cons _ _)) hv)]
    rfl
  | case5 c cs _ _ _ ih =>
    rw [ih (tame_suffix (List.suffix_cons _ _) hv)]
    rfl

theorem tame_comment {v : Text} (hv : ∀ c ∈ v, opensLiteral c = false) :
    blockCommentLength? v = none := by
  fun_induction blockCommentLength? v with
  | case1 => rfl
  | case2 t => exact absurd (hv '/' (by simp)) (by decide)
  | case3 c cs _ ih =>
    rw [ih fun d hd => hv d (by simp [hd])]
    rfl

/-! What begins in a text that ends a line. -/

section

variable {u : Text} (hu : Ended u) (v : Text)
include hu

theorem run_ended {p : Char → Bool} (hp : p '\n' = false) :
    (u ++ v).takeWhile p = u.takeWhile p := by
  rw [List.takeWhile_append, if_neg]
  intro hlength
  have hall := List.all_eq_true.1 (List.all_takeWhile (p := p) (l := u)) '\n' (by
    rw [(List.takeWhile_prefix p).eq_of_length hlength]
    exact ended_line hu)
  rw [hp] at hall
  exact Bool.noConfusion hall

theorem starts_ended {w : Text} (hw : '\n' ∉ w) :
    Text.startsWith (u ++ v) w = Text.startsWith u w := by
  rw [Bool.eq_iff_iff, Text.startsWith, Text.startsWith, Option.isSome_iff_exists,
    Option.isSome_iff_exists]
  simp only [Text.after?_eq_some]
  constructor
  · rintro ⟨r, hr⟩
    obtain ⟨x, y, rfl⟩ := List.append_of_mem (ended_line hu)
    rw [List.append_assoc, List.cons_append] at hr
    obtain ⟨z, hz⟩ := Text.prefix_of_not_mem hw ⟨r, hr.symm⟩
    exact ⟨z ++ '\n' :: y, by rw [← hz, List.append_assoc]⟩
  · rintro ⟨r, rfl⟩
    exact ⟨r ++ v, by rw [List.append_assoc]⟩

theorem head_ended : (u ++ v).head? = u.head? := by
  cases u with
  | nil => exact absurd rfl (ended_some hu)
  | cons c u => rfl

theorem string_ended {q : Char} : stringLength? q (u ++ v) = stringLength? q u := by
  fun_induction stringLength? q u with
  | case1 => exact absurd rfl (ended_some hu)
  | case2 cs ih =>
    have hcs : Ended cs := by
      rcases hu with hu | hu
      · simp at hu
      · exact Or.inr (end_behind (by decide) (end_behind (by decide) (end_behind (by decide) hu)))
    simp only [List.cons_append, stringLength?, ih hcs]
  | case3 c cs hcr ih =>
    have hcs := ended_escape hu
    rw [List.cons_append, List.cons_append, stringLength?.eq_3, ih hcs]
    rintro ds rfl hds
    obtain ⟨d, es, rfl⟩ := List.exists_cons_of_ne_nil (ended_some hcs)
    exact hcr es rfl (by rw [(List.cons.inj hds).1])
  | case4 cs _ hnone =>
    have hq := ended_backslash hu hnone
    rw [List.cons_append, stringLength?.eq_4 _ _ _ (fun _ h => absurd h hq) fun _ _ h => absurd h hq,
      if_pos rfl]
  | case5 c cs _ hnone hcq hline =>
    have hc := ended_backslash hu hnone
    rw [List.cons_append, stringLength?.eq_4 _ _ _ (fun _ h => absurd h hc) fun _ _ h => absurd h hc,
      if_neg hcq, if_pos hline]
  | case6 c cs _ hnone hcq hline ih =>
    have hc := ended_backslash hu hnone
    rw [List.cons_append, stringLength?.eq_4 _ _ _ (fun _ h => absurd h hc) fun _ _ h => absurd h hc,
      if_neg hcq, if_neg hline, ih (ended_behind (fun h => hline (Or.inl h)) hu)]

theorem regex_ended {inClass : Bool} : regexLength? inClass (u ++ v) = regexLength? inClass u := by
  fun_induction regexLength? inClass u with
  | case1 => exact absurd rfl (ended_some hu)
  | case2 inClass t => rfl
  | case3 inClass cs => rfl
  | case4 inClass c cs hc ih =>
    rw [List.cons_append, List.cons_append, regexLength?.eq_3, if_neg hc, ih (ended_escape hu)]
  | case5 inClass c cs hline hnone hslash =>
    have hc := ended_backslash hu hnone
    rw [List.cons_append, regexLength?.eq_4 _ _ _ hline fun _ _ h => absurd h hc, if_pos hslash,
      run_ended (ended_behind hline hu) v (by decide)]
  | case6 inClass c cs hline hnone hslash ih =>
    have hc := ended_backslash hu hnone
    rw [List.cons_append, regexLength?.eq_4 _ _ _ hline fun _ _ h => absurd h hc, if_neg hslash,
      ih (ended_behind hline hu)]

variable {v} (hv : Tame v)
include hv

theorem template_ended : templateLength? (u ++ v) = templateLength? u := by
  fun_induction templateLength? u with
  | case1 => exact absurd rfl (ended_some hu)
  | case2 t => rfl
  | case3 t => rfl
  | case4 d cs ih =>
    rw [List.cons_append, List.cons_append, templateLength?.eq_4, ih (ended_escape hu)]
  | case5 c cs hquote hdollar hnone ih =>
    have hc := ended_backslash hu hnone
    rcases ended_tail hu with ⟨rfl, rfl⟩ | hcs
    · rw [List.singleton_append, templateLength?.eq_5 _ _ (by decide) (by simp) (by simp),
        tame_template hv, templateLength?]
    · rw [List.cons_append, templateLength?.eq_5 _ _ hquote _ fun _ _ h => absurd h hc, ih hcs]
      rintro t rfl ht
      obtain ⟨d, ds, rfl⟩ := List.exists_cons_of_ne_nil (ended_some hcs)
      exact hdollar ds rfl (by rw [(List.cons.inj ht).1])

theorem comment_ended : blockCommentLength? (u ++ v) = blockCommentLength? u := by
  fun_induction blockCommentLength? u with
  | case1 => exact absurd rfl (ended_some hu)
  | case2 t => rfl
  | case3 c cs hclose ih =>
    rcases ended_tail hu with ⟨rfl, rfl⟩ | hcs
    · rw [List.singleton_append, blockCommentLength?.eq_3 _ _ (by simp),
        tame_comment hv.bare.1, blockCommentLength?]
    · rw [List.cons_append, blockCommentLength?.eq_3, ih hcs]
      rintro t rfl ht
      obtain ⟨d, ds, rfl⟩ := List.exists_cons_of_ne_nil (ended_some hcs)
      exact hclose ds rfl (by rw [(List.cons.inj ht).1])

end

/-! How far the lexemes reach. -/

theorem string_within {q : Char} {u : Text} {n : Nat} (h : stringLength? q u = some n) :
    n ≤ u.length := by
  fun_induction stringLength? q u generalizing n with
  | case1 => simp at h
  | case2 cs ih =>
    obtain ⟨k, hk, rfl⟩ := Option.map_eq_some_iff.1 h
    have := ih hk
    simp only [List.length_cons]
    omega
  | case3 c cs _ ih =>
    obtain ⟨k, hk, rfl⟩ := Option.map_eq_some_iff.1 h
    have := ih hk
    simp only [List.length_cons]
    omega
  | case4 cs =>
    simp only [Option.some.injEq] at h
    simp [← h]
  | case5 => simp at h
  | case6 c cs _ _ _ _ ih =>
    obtain ⟨k, hk, rfl⟩ := Option.map_eq_some_iff.1 h
    have := ih hk
    simp only [List.length_cons]
    omega

theorem regex_within {inClass : Bool} {u : Text} {n : Nat} (h : regexLength? inClass u = some n) :
    n ≤ u.length := by
  fun_induction regexLength? inClass u generalizing n with
  | case1 => simp at h
  | case2 => simp at h
  | case3 => simp at h
  | case4 inClass c cs _ ih =>
    obtain ⟨k, hk, rfl⟩ := Option.map_eq_some_iff.1 h
    have := ih hk
    simp only [List.length_cons]
    omega
  | case5 inClass c cs =>
    have hflags := (List.takeWhile_prefix isFlag (l := cs)).length_le
    simp only [Option.some.injEq] at h
    simp only [List.length_cons]
    omega
  | case6 inClass c cs _ _ _ ih =>
    obtain ⟨k, hk, rfl⟩ := Option.map_eq_some_iff.1 h
    have := ih hk
    simp only [List.length_cons]
    omega

theorem template_within {u : Text} {n : Nat × Bool} (h : templateLength? u = some n) :
    n.1 ≤ u.length := by
  fun_induction templateLength? u generalizing n with
  | case1 => simp at h
  | case2 t =>
    simp only [Option.some.injEq] at h
    simp [← h]
  | case3 t =>
    simp only [Option.some.injEq] at h
    simp [← h]
  | case4 d cs ih =>
    obtain ⟨k, hk, rfl⟩ := Option.map_eq_some_iff.1 h
    have := ih hk
    simp only [List.length_cons]
    omega
  | case5 c cs _ _ _ ih =>
    obtain ⟨k, hk, rfl⟩ := Option.map_eq_some_iff.1 h
    have := ih hk
    simp only [List.length_cons]
    omega

theorem comment_within {u : Text} {n : Nat} (h : blockCommentLength? u = some n) :
    n ≤ u.length := by
  fun_induction blockCommentLength? u generalizing n with
  | case1 => simp at h
  | case2 t =>
    simp only [Option.some.injEq] at h
    simp [← h]
  | case3 c cs _ ih =>
    obtain ⟨k, hk, rfl⟩ := Option.map_eq_some_iff.1 h
    have := ih hk
    simp only [List.length_cons]
    omega

theorem ite_within {p : Prop} [Decidable p] {a b : Step} {n : Nat} (ha : a.more ≤ n)
    (hb : b.more ≤ n) : (if p then a else b).more ≤ n := by
  split
  · exact ha
  · exact hb

theorem step_within (st : State) (c : Char) (cs : Text) : (step st c cs).more ≤ cs.length := by
  have hrun : ∀ p : Char → Bool, (cs.takeWhile p).length ≤ cs.length :=
    fun p => (List.takeWhile_prefix p).length_le
  have htemplate : ∀ {n b}, templateLength? cs = some (n, b) → n ≤ cs.length :=
    fun h => template_within h
  have hslash : (slashStep st cs).more ≤ cs.length := by
    rw [slashStep]
    split
    · cases h : regexLength? false cs with
      | none => exact Nat.zero_le _
      | some n => exact regex_within h
    · exact Nat.zero_le _
  have hmark : (markStep st c cs).more ≤ cs.length := by
    unfold markStep
    repeat' split
    all_goals simp
  unfold step
  refine ite_within (Nat.zero_le _) (ite_within (hrun _) (ite_within (hrun _) (ite_within (hrun _)
    (ite_within ?_ (ite_within ?_ (ite_within ?_ (ite_within (hrun _) ?_)))))))
  · split
    · next h => exact string_within h
    · exact Nat.zero_le _
  · rw [templateStep]
    split
    · next h => exact htemplate h
    · next h => exact htemplate h
    · exact Nat.zero_le _
  · rw [resumeStep]
    split
    · next h => exact htemplate h
    · next h => exact htemplate h
    · exact Nat.zero_le _
  · split
    · next hstar =>
      rw [blockComment]
      cases h : blockCommentLength? (cs.drop 1) with
      | none => exact hslash
      | some n =>
        obtain ⟨t, rfl⟩ : ∃ t, cs = '*' :: t := by
          simp only [Bool.and_eq_true, beq_iff_eq] at hstar
          cases cs with
          | nil => simp at hstar
          | cons d t => exact ⟨t, by simpa using hstar.2⟩
        simpa using comment_within h
    · exact ite_within hslash (ite_within (hrun _) hmark)

/-! Steps in a text that ends a line. -/

theorem mark_step_pair (st : State) (c d e : Char) (es fs : Text) :
    markStep st c (d :: e :: es) = markStep st c (d :: e :: fs) := by
  unfold markStep
  split <;> simp_all

theorem mark_step_line (st : State) (c : Char) (v : Text) :
    markStep st c ('\n' :: v) = markStep st c ['\n'] := by
  unfold markStep
  split <;> simp_all

section

variable {cs v : Text} (hcs : Ended cs) (hv : Tame v) (st : State)
include hcs

theorem mark_step_ended (c : Char) : markStep st c (cs ++ v) = markStep st c cs := by
  obtain ⟨d, ds, rfl⟩ := List.exists_cons_of_ne_nil (ended_some hcs)
  rcases ended_tail hcs with ⟨rfl, rfl⟩ | hds
  · exact mark_step_line st c v
  · obtain ⟨e, es, rfl⟩ := List.exists_cons_of_ne_nil (ended_some hds)
    exact mark_step_pair st c d e (es ++ v) es

theorem slash_step_ended : slashStep st (cs ++ v) = slashStep st cs := by
  rw [slashStep, slashStep, regex_ended hcs]

theorem line_comment_ended : lineComment st (cs ++ v) = lineComment st cs := by
  rw [lineComment, lineComment, run_ended hcs v (by decide)]

include hv

theorem template_step_ended : templateStep st (cs ++ v) = templateStep st cs := by
  rw [templateStep, templateStep, template_ended hcs hv]

theorem resume_step_ended : resumeStep st (cs ++ v) = resumeStep st cs := by
  rw [resumeStep, resumeStep, template_ended hcs hv]

theorem block_comment_ended (hstar : cs.head? = some '*') :
    blockComment st (cs ++ v) = blockComment st cs := by
  obtain ⟨t, rfl⟩ : ∃ t, cs = '*' :: t := by
    cases cs with
    | nil => simp at hstar
    | cons d t => exact ⟨t, by simpa using hstar⟩
  have ht := ended_behind (by decide) hcs
  rw [blockComment, blockComment, List.cons_append, List.drop_one, List.drop_one, List.tail_cons,
    List.tail_cons, comment_ended ht hv]
  cases h : blockCommentLength? t with
  | none => exact slash_step_ended hcs st
  | some n =>
    have hn : n ≤ ('*' :: t).length := Nat.le_succ_of_le (comment_within h)
    simp only
    rw [← List.cons_append, List.take_append_of_le_length hn]

/-- The lexeme at a character is the same whatever tame text follows. -/
theorem step_ended {c : Char} : step st c (cs ++ v) = step st c cs := by
  have hhead := head_ended hcs v
  have hspace := run_ended hcs v (p := isSpace) (by decide)
  have hnumber := run_ended hcs v (p := fun d => isNameChar d || d == '.') (by decide)
  have hname := run_ended hcs v (p := isNameChar) (by decide)
  have hstarts := starts_ended hcs v (w := "->".toList) (by decide)
  unfold step
  simp only [hhead, hspace, hnumber, hname, hstarts, string_ended hcs v,
    template_step_ended hcs hv st, resume_step_ended hcs hv st, line_comment_ended hcs st,
    slash_step_ended hcs st, mark_step_ended hcs st c]
  by_cases hstar : cs.head? = some '*'
  · rw [block_comment_ended hcs hv st hstar]
  · have hnone : (c == '/' && cs.head? == some '*') = false := by simp [hstar]
    simp only [hnone, Bool.false_eq_true, if_false]

end

/-! All lexemes. -/

theorem tame_step {st : State} {c : Char} {cs : Text} (h : Tame (c :: cs)) :
    (step st c cs).kind.isLiteral = false := by
  have hc : opensLiteral c = false := h.bare.1 c (by simp)
  have hcs := tame_suffix (List.suffix_cons c cs) h
  simp only [opensLiteral, Bool.or_eq_false_iff] at hc
  obtain ⟨⟨⟨hdouble, hsingle⟩, htick⟩, hslash⟩ := hc
  have harrow : (c == '-' && st.fresh && Text.startsWith cs "->".toList) = false := by
    by_contra hcon
    rw [Bool.not_eq_false] at hcon
    simp only [Bool.and_eq_true, beq_iff_eq] at hcon
    obtain ⟨⟨rfl, _⟩, hstarts⟩ := hcon
    obtain ⟨r, hr⟩ := Option.isSome_iff_exists.1 hstarts
    exact h.bare.2 ⟨[], r, by rw [Text.after?_eq_some.1 hr]; rfl⟩
  unfold step
  simp only [hdouble, hsingle, htick, hslash, harrow, Bool.or_self, Bool.false_and,
    Bool.false_eq_true, if_false]
  split_ifs
  · rfl
  · rfl
  · rfl
  · rfl
  · rw [resumeStep, tame_template hcs]
    rfl
  · rw [mark_step_kind]
    rfl

/-- All of a tame text is code, wherever the lexer stands. -/
theorem tame_lexemes {st : State} {v : Text} (hv : Tame v) :
    ∀ x ∈ lexemesFrom st v, x.kind.isLiteral = false := by
  fun_induction lexemesFrom st v with
  | case1 st => simp
  | case2 st c cs s ih =>
    intro x hx
    rcases List.mem_cons.1 hx with rfl | hx
    · exact tame_step hv
    · exact ih (tame_suffix ((List.drop_suffix _ _).trans (List.suffix_cons c cs)) hv) x hx

theorem lexemes_ended {u v : Text} (hu : u = [] ∨ Ended u) (hv : Tame v) (st : State) :
    ∃ st', lexemesFrom st (u ++ v) = lexemesFrom st u ++ lexemesFrom st' v := by
  fun_induction lexemesFrom st u with
  | case1 st => exact ⟨st, rfl⟩
  | case2 st c cs s ih =>
    have hu := hu.resolve_left (by simp)
    have hstep : step st c (cs ++ v) = step st c cs := by
      rcases ended_tail hu with ⟨rfl, rfl⟩ | hcs
      · rfl
      · exact step_ended hcs hv st
    have hwithin := step_within st c cs
    obtain ⟨st', hst'⟩ := ih (by
      have := ended_drop hu (s.more + 1)
      simpa using this)
    refine ⟨st', ?_⟩
    rw [List.cons_append, lexemesFrom]
    simp only [hstep]
    rw [List.take_append_of_le_length hwithin, List.drop_append_of_le_length hwithin, hst']
    rfl

theorem settle_code {xs ys : List Lexeme} (hy : ∀ y ∈ ys, y.kind.isLiteral = false) :
    settle (xs ++ ys) = ((settle xs).1 ++ ys, (settle xs).2) := by
  have hys : settle ys = (ys, 0) := by
    induction ys with
    | nil => rfl
    | cons y ys ih =>
      have hkind := hy y (by simp)
      rw [settle, ih fun z hz => hy z (by simp [hz])]
      cases hk : y.kind <;> simp_all [Kind.isLiteral]
  induction xs with
  | nil => exact hys
  | cons x xs ih =>
    rw [List.cons_append, settle, settle, ih]
    simp only
    split <;> (try split) <;> rfl

theorem mask_code {ys : List Lexeme} (hy : ∀ y ∈ ys, y.kind.isLiteral = false) :
    maskOf ys = List.replicate (ys.flatMap (·.text)).length true := by
  induction ys with
  | nil => rfl
  | cons y ys ih =>
    have := ih fun z hz => hy z (by simp [hz])
    simp only [maskOf] at this
    simp [maskOf, this, hy y (by simp), ← List.replicate_append_replicate]

theorem lexemes_plain {t : Text} (h : t.head? ≠ some '#') :
    lexemes t = (settle (lexemesFrom .start t)).1 := by
  rw [lexemes.eq_def]
  split
  · simp at h
  · rfl

theorem mask_of_append (xs ys : List Lexeme) : maskOf (xs ++ ys) = maskOf xs ++ maskOf ys := by
  simp [maskOf]

/-- A tame text behind a text that ends a line is code, and leaves the code of that text as it
is. -/
theorem code_mask_ended {u v : Text} (hu : Ended u) (hfirst : u.head? ≠ some '#') (hv : Tame v) :
    codeMask (u ++ v) = codeMask u ++ List.replicate v.length true := by
  obtain ⟨st, hst⟩ := lexemes_ended (Or.inr hu) hv .start
  have htame : ∀ x ∈ lexemesFrom st v, x.kind.isLiteral = false := tame_lexemes hv
  rw [codeMask, codeMask, lexemes_plain hfirst, lexemes_plain (by rwa [head_ended hu]), hst,
    settle_code htame, mask_of_append, mask_code htame, flatMap_lexemesFrom]

end Restage.Script
