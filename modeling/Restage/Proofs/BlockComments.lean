import Restage.Proofs.LiteralScanners

/-!
A block comment between two lines of a script. Behind lines that no literal reaches beyond the lexer
stands as at the beginning of a line, whatever follows (`lexemes_behind`), and a comment that ends its
line leaves it so. So the comment is a literal, and all other characters are code or not as they were
without it (`comment_mask`).
-/

set_option autoImplicit false

namespace Restage.Script

/-- A text of whole lines that does not end a comment. -/
structure CommentLines (m : Text) : Prop where
  lines : m = [] ∨ ['\n'] <:+ m
  inside : ¬ ['*', '/'] <:+: m

/-- The lines between two lines that open and close a block comment. -/
def commentBlock (m : Text) : Text := '/' :: '*' :: '\n' :: (m ++ ['*', '/', '\n'])

/-! Texts that end a line. -/

/-- What ends with a character of a text that ends a line, and not with the line's end, is shorter. -/
theorem line_shorter {cs w r : Text} {c : Char} (h : ['\n'] <:+ cs) (hcs : cs = w ++ c :: r)
    (hc : c ≠ '\n') : w.length + 1 < cs.length := by
  cases r with
  | nil =>
    obtain ⟨u, hu⟩ := h
    have hlast := List.append_inj' (hu.trans hcs) rfl
    exact absurd (List.cons.inj hlast.2).1.symm hc
  | cons d r =>
    rw [hcs, List.length_append, List.length_cons, List.length_cons]
    omega

theorem line_tail {c : Char} {cs : Text} (h : ['\n'] <:+ c :: cs) :
    cs = [] ∧ c = '\n' ∨ ['\n'] <:+ cs := by
  rcases List.suffix_cons_iff.1 h with h | h
  · exact Or.inl ⟨(List.cons.inj h).2.symm, (List.cons.inj h).1.symm⟩
  · exact Or.inr h

theorem line_mem {cs : Text} (h : ['\n'] <:+ cs) : '\n' ∈ cs := h.subset (by simp)

theorem line_drop {cs : Text} (h : ['\n'] <:+ cs) {n : Nat} (hn : n < cs.length) :
    ['\n'] <:+ cs.drop n := by
  obtain ⟨w, rfl⟩ := h
  rw [List.length_append, List.length_singleton] at hn
  rw [List.drop_append_of_le_length (by omega)]
  exact List.suffix_append _ _

theorem line_run {cs : Text} (h : ['\n'] <:+ cs) (v : Text) {p : Char → Bool} (hp : p '\n' = false) :
    (cs ++ v).takeWhile p = cs.takeWhile p ∧ (cs.takeWhile p).length < cs.length := by
  have hany : cs.any (fun c => !p c) := List.any_eq_true.2 ⟨'\n', line_mem h, by simp [hp]⟩
  refine ⟨run_before hany v, Nat.lt_of_le_of_ne (List.takeWhile_prefix p).length_le fun hlength => ?_⟩
  have hall := (List.takeWhile_prefix p).eq_of_length hlength
  have hin := line_mem h
  rw [← hall] at hin
  exact absurd (List.mem_takeWhile_imp hin) (by simp [hp])

/-! Searches for the end of a literal that are over in a text. -/

namespace Scanner

variable {σ ρ : Type} {m : Scanner σ ρ} {q : σ} {w : Text}

/-- A search that does not get across a text has the same result whatever follows. -/
theorem run_decided (h : m.across q w = none) (v : Text) : m.run q (w ++ v) = m.run q w := by
  induction w generalizing q with
  | nil => simp [across] at h
  | cons c w ih =>
    rw [across] at h
    rw [List.cons_append, run, run]
    cases hc : m q c with
    | go p =>
      rw [hc] at h
      simp only
      rw [ih h]
    | stop x => rfl
    | fail => rfl

theorem run_last {n : Nat} {x : ρ} (h : m.run q w = some (n, x)) :
    ∃ u c r p, w = u ++ c :: r ∧ n = u.length + 1 ∧ m p c = .stop x := by
  induction w generalizing q n with
  | nil => simp [run] at h
  | cons c w ih =>
    rw [run] at h
    cases hc : m q c with
    | go p =>
      rw [hc] at h
      obtain ⟨⟨k, y⟩, hk, he⟩ := Option.map_eq_some_iff.1 h
      obtain ⟨rfl, rfl⟩ := Prod.mk.inj he
      obtain ⟨u, d, r, p', rfl, rfl, hstop⟩ := ih hk
      exact ⟨c :: u, d, r, p', rfl, rfl, hstop⟩
    | stop y =>
      rw [hc] at h
      obtain ⟨rfl, rfl⟩ := Prod.mk.inj (Option.some.inj h)
      exact ⟨[], c, w, q, rfl, rfl, hc⟩
    | fail => simp [hc] at h

/-- A search that does not end at the end of a line ends in front of it. -/
theorem run_inside (hm : ∀ p x, m p '\n' ≠ .stop x) (hw : ['\n'] <:+ w) {n : Nat} {x : ρ}
    (h : m.run q w = some (n, x)) : n < w.length := by
  obtain ⟨u, c, r, p, hcut, rfl, hstop⟩ := run_last h
  refine line_shorter hw hcut ?_
  rintro rfl
  exact hm p x hstop

theorem run_settled (hm : ∀ p x, m p '\n' ≠ .stop x) (hw : ['\n'] <:+ w)
    (h : (m.across q w).isSome = false) (v : Text) :
    m.run q (w ++ v) = m.run q w ∧ ∀ x, m.run q w = some x → x.1 < w.length :=
  ⟨run_decided (by simpa using h) v, fun _ hx => run_inside hm hw hx⟩

end Scanner

theorem string_no_line {quote : Char} (hq : quote ≠ '\n') (p : Quoted) (x : Unit) :
    stringScan quote p '\n' ≠ .stop x := by
  cases p <;> simp [stringScan, insideTurn, hq.symm]

theorem template_no_line (p : Templated) (x : Bool) : templateScan p '\n' ≠ .stop x := by
  cases p <;> simp [templateScan, plainTurn]

theorem comment_no_line (p : Bool) (x : Unit) : commentScan p '\n' ≠ .stop x := by
  simp [commentScan]

theorem regex_no_line (p : Expressed) (x : Unit) : regexScan p '\n' ≠ .stop x := by
  simp [regexScan]

/-- No regular expression goes on behind its line. -/
theorem regex_across {q : Expressed} {w : Text} (h : '\n' ∈ w) : regexScan.across q w = none := by
  induction w generalizing q with
  | nil => simp at h
  | cons c w ih =>
    rw [Scanner.across]
    by_cases hc : c = '\n'
    · subst hc
      simp [regexScan]
    · cases regexScan q c with
      | go p => exact ih ((List.mem_cons.1 h).resolve_left fun h => hc h.symm)
      | stop x => rfl
      | fail => rfl

/-- In front of the end of its line a regular expression is the same whatever follows. -/
theorem regex_decided {cs : Text} (h : ['\n'] <:+ cs) (v : Text) :
    regexLength? false (cs ++ v) = regexLength? false cs ∧
      ∀ n, regexLength? false cs = some n → n < cs.length := by
  have hrun := Scanner.run_decided (regex_across (q := ⟨false, false⟩) (line_mem h)) v
  have hflags : ∀ x, regexScan.run ⟨false, false⟩ cs = some x →
      ((cs ++ v).drop x.1).takeWhile isFlag = (cs.drop x.1).takeWhile isFlag ∧
        x.1 + ((cs.drop x.1).takeWhile isFlag).length < cs.length := by
    rintro ⟨n, x⟩ hx
    have hn := Scanner.run_inside regex_no_line h hx
    obtain ⟨hsame, hless⟩ := line_run (line_drop h hn) v (p := isFlag) (by decide)
    rw [List.drop_append_of_le_length (Nat.le_of_lt hn)]
    rw [List.length_drop] at hless
    exact ⟨hsame, by simp only; omega⟩
  rw [regex_scan, regex_scan, hrun]
  cases hx : regexScan.run ⟨false, false⟩ cs with
  | none => exact ⟨rfl, by simp⟩
  | some x =>
    obtain ⟨hsame, hless⟩ := hflags x hx
    rw [Option.map_some, Option.map_some, hsame]
    exact ⟨rfl, fun n hn => Option.some.inj hn ▸ hless⟩

/-! Lexemes of a text that ends a line. -/

/-- A literal that begins here, or that would if its end were found, reaches the end of the text. -/
def reaches (st : State) (c : Char) (cs : Text) : Bool :=
  if c == '\x22' || c == '\x27' then ((stringScan c).across .inside cs).isSome
  else if c == '\x60' || (c == '}' && st.inSubstitution) then (templateScan.across .plain cs).isSome
  else if c == '/' && cs.head? == some '*' then (commentScan.across false (cs.drop 1)).isSome
  else false

/-- No literal that begins in a text goes on behind it. -/
def isClear (st : State) : Text → Bool
  | [] => true
  | c :: cs => !reaches st c cs && isClear (step st c cs).state (cs.drop (step st c cs).more)
termination_by t => t.length
decreasing_by simp only [List.length_drop, List.length_cons]; omega

/-- A step that is the same whatever follows a text, and ends in front of the text's end. -/
def Settled (s : Step) (cs : Text) (t : Step) : Prop := s = t ∧ t.more < cs.length

theorem ite_settled {p : Prop} [Decidable p] {cs : Text} {a b a' b' : Step}
    (ha : p → Settled a cs a') (hb : ¬ p → Settled b cs b') :
    Settled (if p then a else b) cs (if p then a' else b') := by
  by_cases hp : p
  · simpa only [if_pos hp] using ha hp
  · simpa only [if_neg hp] using hb hp

theorem mark_step_short (st : State) (c : Char) (cs : Text) : (markStep st c cs).more ≤ 2 := by
  unfold markStep
  repeat' split
  all_goals simp

section

variable (st : State) {cs : Text} (hcs : ['\n'] <:+ cs) (v : Text)
include hcs

theorem mark_step_settled (c : Char) : Settled (markStep st c (cs ++ v)) cs (markStep st c cs) := by
  rcases cs with _ | ⟨d, _ | ⟨e, _ | ⟨f, cs⟩⟩⟩
  · simp at hcs
  · obtain rfl : '\n' = d := by simpa using line_mem hcs
    refine ⟨mark_step_line st c v, ?_⟩
    unfold markStep
    split <;> simp_all
  · obtain rfl : '\n' = e := by simpa using line_mem ((line_tail hcs).resolve_left (by simp))
    refine ⟨mark_step_pair st c d '\n' _ _, ?_⟩
    unfold markStep
    split <;> grind
  · refine ⟨mark_step_pair st c d e _ _, ?_⟩
    have hmore := mark_step_short st c (d :: e :: f :: cs)
    simp only [List.length_cons]
    omega

theorem slash_step_settled : Settled (slashStep st (cs ++ v)) cs (slashStep st cs) := by
  have hpos : 0 < cs.length := List.length_pos_of_mem (line_mem hcs)
  obtain ⟨hsame, hless⟩ := regex_decided hcs v
  rw [slashStep, slashStep, hsame]
  refine ite_settled (fun _ => ⟨rfl, ?_⟩) fun _ => ⟨rfl, hpos⟩
  cases hr : regexLength? false cs with
  | none => exact hpos
  | some n => exact hless n hr

theorem template_step_settled (h : (templateScan.across .plain cs).isSome = false) :
    Settled (templateStep st (cs ++ v)) cs (templateStep st cs) := by
  have hpos : 0 < cs.length := List.length_pos_of_mem (line_mem hcs)
  obtain ⟨hsame, hless⟩ := Scanner.run_settled template_no_line hcs h v
  rw [templateStep, templateStep, template_scan, template_scan, hsame]
  refine ⟨rfl, ?_⟩
  cases hr : templateScan.run .plain cs with
  | none => exact hpos
  | some x =>
    have hx := hless x hr
    obtain ⟨n, b⟩ := x
    cases b <;> exact hx

theorem resume_step_settled (h : (templateScan.across .plain cs).isSome = false) :
    Settled (resumeStep st (cs ++ v)) cs (resumeStep st cs) := by
  have hpos : 0 < cs.length := List.length_pos_of_mem (line_mem hcs)
  obtain ⟨hsame, hless⟩ := Scanner.run_settled template_no_line hcs h v
  rw [resumeStep, resumeStep, template_scan, template_scan, hsame]
  refine ⟨rfl, ?_⟩
  cases hr : templateScan.run .plain cs with
  | none => exact hpos
  | some x =>
    have hx := hless x hr
    obtain ⟨n, b⟩ := x
    cases b <;> exact hx

theorem comment_step_settled (hstar : cs.head? = some '*')
    (h : (commentScan.across false (cs.drop 1)).isSome = false) :
    Settled (blockComment st (cs ++ v)) cs (blockComment st cs) := by
  have hslash := slash_step_settled st hcs v
  obtain ⟨t, rfl⟩ : ∃ t, cs = '*' :: t := by
    cases cs with
    | nil => simp at hstar
    | cons d t => exact ⟨t, by simpa using hstar⟩
  have ht : ['\n'] <:+ t := (line_tail hcs).resolve_left fun hnil => absurd hnil.2 (by decide)
  obtain ⟨hsame, hless⟩ := Scanner.run_settled comment_no_line ht h v
  rw [List.cons_append] at hslash ⊢
  rw [blockComment, blockComment, List.drop_one, List.drop_one, List.tail_cons, List.tail_cons,
    comment_scan, comment_scan, hsame]
  cases hr : commentScan.run false t with
  | none => exact hslash
  | some x =>
    have hx := hless x hr
    simp only [Option.map_some]
    rw [← List.cons_append, List.take_append_of_le_length (by simp only [List.length_cons]; omega)]
    exact ⟨rfl, by simp only [List.length_cons]; omega⟩

/-- In a text that ends a line a lexeme is the same whatever follows, and does not take the line's end,
unless a literal reaches it. -/
theorem step_settled {c : Char} (h : reaches st c cs = false) :
    Settled (step st c (cs ++ v)) cs (step st c cs) := by
  have hpos : 0 < cs.length := List.length_pos_of_mem (line_mem hcs)
  have hhead : (cs ++ v).head? = cs.head? :=
    List.head?_append_of_ne_nil _ (List.ne_nil_of_length_pos hpos)
  have hrun : ∀ {p : Char → Bool} {k : Kind} (f : Text → State), p '\n' = false →
      Settled ⟨k, ((cs ++ v).takeWhile p).length, f ((cs ++ v).takeWhile p)⟩ cs
        ⟨k, (cs.takeWhile p).length, f (cs.takeWhile p)⟩ := by
    intro p k f hp
    obtain ⟨hsame, hless⟩ := line_run hcs v hp
    rw [hsame]
    exact ⟨rfl, hless⟩
  have hline : Settled (lineComment st (cs ++ v)) cs (lineComment st cs) := hrun (fun _ => st) (by decide)
  have harrow : Text.startsWith (cs ++ v) "->".toList = Text.startsWith cs "->".toList := by
    rcases cs with _ | ⟨d, _ | ⟨e, cs⟩⟩
    · simp at hcs
    · obtain rfl : '\n' = d := by simpa using line_mem hcs
      rfl
    · have hpair : "->".toList = ['-', '>'] := rfl
      simp only [hpair, List.cons_append, Text.startsWith, Text.after?]
      split_ifs <;> rfl
  rw [step, step, hhead, harrow]
  rw [reaches] at h
  refine ite_settled (fun _ => ⟨rfl, hpos⟩) fun _ => ite_settled (fun _ => hrun (fun _ => st) (by decide))
    fun _ => ite_settled (fun _ => hrun (fun _ => st.value) (by decide)) fun _ =>
    ite_settled (fun _ => hrun (fun u => st.name (c :: u)) (by decide)) fun _ =>
    ite_settled (fun hquote => ?_) fun hquote => ite_settled (fun htick => ?_) fun htick =>
    ite_settled (fun hbrace => ?_) fun hbrace => ite_settled (fun _ => hline) fun _ =>
    ite_settled (fun hstar => ?_) fun _ => ite_settled (fun _ => slash_step_settled st hcs v)
    fun _ => ite_settled (fun _ => hline) fun _ => mark_step_settled st hcs v c
  · rw [if_pos hquote] at h
    have hc : c ≠ '\\' ∧ c ≠ '\n' := by
      constructor <;> rintro rfl <;> exact absurd hquote (by decide)
    obtain ⟨hsame, hless⟩ := Scanner.run_settled (string_no_line hc.2) hcs h v
    rw [string_scan hc.1, string_scan hc.1, hsame]
    refine ⟨rfl, ?_⟩
    cases hr : (stringScan c).run .inside cs with
    | none => exact hpos
    | some x => exact hless x hr
  · rw [if_neg hquote, if_pos (by simp [htick])] at h
    exact template_step_settled st hcs v h
  · rw [if_neg hquote, if_pos (by simp [hbrace])] at h
    exact resume_step_settled st hcs v h
  · rw [if_neg hquote, if_neg (by simp [htick, hbrace]), if_pos hstar] at h
    exact comment_step_settled st hcs v (eq_of_beq (Bool.and_eq_true _ _ ▸ hstar).2) h

end

/-- Behind lines that no literal reaches beyond the lexer stands at the beginning of a line, whatever
follows. -/
theorem clear_lexemes {st : State} {u : Text} (hu : ['\n'] <:+ u) (h : isClear st u = true) :
    ∃ st', st'.fresh = true ∧ ∀ v, lexemesFrom st (u ++ v) = lexemesFrom st u ++ lexemesFrom st' v := by
  fun_induction isClear st u with
  | case1 st => simp at hu
  | case2 st c cs ih =>
    rw [Bool.and_eq_true, Bool.not_eq_true'] at h
    rcases line_tail hu with ⟨rfl, rfl⟩ | hcs
    · refine ⟨st.blank true, Bool.or_true _, fun v => ?_⟩
      have hstep : ∀ w, step st '\n' w = ⟨.blank, 0, st.blank true⟩ := fun _ => rfl
      rw [List.singleton_append, lexemes_cons, lexemes_cons, hstep, hstep]
      simp [lexemesFrom]
    · have hless := (step_settled st hcs [] h.1).2
      obtain ⟨st', hfresh, hrest⟩ := ih (line_drop hcs hless) h.2
      refine ⟨st', hfresh, fun v => ?_⟩
      rw [List.cons_append, lexemes_cons, (step_settled st hcs v h.1).1,
        List.take_append_of_le_length (Nat.le_of_lt hless),
        List.drop_append_of_le_length (Nat.le_of_lt hless), hrest, lexemes_cons st c cs]
      rfl

/-- No literal that begins in a script goes on behind it; its first line may name an interpreter. -/
def isClearScript : Text → Bool
  | '#' :: '!' :: cs => isClear .start (cs.dropWhile (· != '\n'))
  | u => isClear .start u

/-- The lexemes of a script behind lines of it. -/
theorem lexemes_behind {u : Text} (hu : ['\n'] <:+ u) (h : isClearScript u = true) :
    ∃ pre xs st, st.fresh = true ∧ (pre ++ xs).flatMap (·.text) = u ∧
      ∀ v, lexemes (u ++ v) = pre ++ (settle (xs ++ lexemesFrom st v)).1 := by
  unfold isClearScript at h
  split at h
  · next cs =>
    have hcs : ['\n'] <:+ cs := by
      rcases line_tail hu with ⟨hnil, _⟩ | hu
      · simp at hnil
      · exact (line_tail hu).resolve_left fun hnil => absurd hnil.2 (by decide)
    obtain ⟨hrun, hless⟩ := line_run hcs [] (p := (· != '\n')) (by decide)
    have hcut : cs.takeWhile (· != '\n') ++ cs.dropWhile (· != '\n') = cs :=
      List.takeWhile_append_dropWhile
    have hrest : cs.dropWhile (· != '\n') = cs.drop (cs.takeWhile (· != '\n')).length :=
      (List.drop_left' rfl).symm.trans (congrArg (List.drop _) hcut)
    have hline : ['\n'] <:+ cs.dropWhile (· != '\n') := by
      rw [hrest]
      exact line_drop hcs hless
    obtain ⟨st, hfresh, hlexemes⟩ := clear_lexemes hline h
    refine ⟨[⟨.mark, '#' :: '!' :: cs.takeWhile (· != '\n')⟩],
      lexemesFrom .start (cs.dropWhile (· != '\n')), st, hfresh, ?_, fun v => ?_⟩
    · simp [flatMap_lexemesFrom, List.takeWhile_append_dropWhile]
    · have hsame := (line_run hcs v (p := (· != '\n')) (by decide)).1
      have hdrop : (cs ++ v).dropWhile (· != '\n') = cs.dropWhile (· != '\n') ++ v := by
        have hlong := List.takeWhile_append_dropWhile (p := (· != '\n')) (l := cs ++ v)
        rw [hsame] at hlong
        refine List.append_cancel_left (hlong.trans ?_)
        rw [← List.append_assoc, hcut]
      rw [List.cons_append, List.cons_append, lexemes, hsame, hdrop, hlexemes]
      rfl
  · next hnone =>
    obtain ⟨st, hfresh, hlexemes⟩ := clear_lexemes hu h
    refine ⟨[], lexemesFrom .start u, st, hfresh, by simp [flatMap_lexemesFrom], fun v => ?_⟩
    rw [List.nil_append, ← hlexemes, lexemes.eq_def]
    split
    · next ds hds =>
      obtain ⟨c, cs, rfl⟩ := List.exists_cons_of_ne_nil (List.ne_nil_of_mem (line_mem hu))
      rw [List.cons_append] at hds
      obtain rfl := (List.cons.inj hds).1
      have hcs : ['\n'] <:+ cs := (line_tail hu).resolve_left fun hnil => absurd hnil.2 (by decide)
      obtain ⟨d, cs, rfl⟩ := List.exists_cons_of_ne_nil (List.ne_nil_of_mem (line_mem hcs))
      obtain ⟨_, hds⟩ := List.cons.inj hds
      obtain ⟨rfl, _⟩ := List.cons.inj hds
      exact absurd rfl (hnone cs)
    · rfl

/-! The comment. -/

theorem comment_closes {w : Text} (hin : ¬ ['*', '/'] <:+: w) (hlast : w.getLast? ≠ some '*')
    (r : Text) : blockCommentLength? (w ++ '*' :: '/' :: r) = some (w.length + 2) := by
  induction w with
  | nil => rfl
  | cons c w ih =>
    have htail : ¬ ['*', '/'] <:+: w := fun h => hin (h.trans (List.suffix_cons c w).isInfix)
    have hlast' : w.getLast? ≠ some '*' := by
      cases w with
      | nil => simp
      | cons d w => simpa using hlast
    rw [List.cons_append, blockCommentLength?.eq_3, ih htail hlast']
    · rfl
    · rintro t rfl ht
      cases w with
      | nil => simp at hlast
      | cons d w =>
        obtain ⟨rfl, _⟩ := List.cons.inj ht
        exact hin ⟨[], w, rfl⟩

theorem comment_lexemes {m : Text} (hm : CommentLines m) {st : State} (hst : st.fresh = true)
    (v : Text) : lexemesFrom st (commentBlock m ++ v) =
      ⟨.comment, '/' :: '*' :: '\n' :: (m ++ ['*', '/'])⟩ :: ⟨.blank, ['\n']⟩ :: lexemesFrom st v := by
  have hblank : st.blank true = st := by
    cases st
    simp only at hst
    subst hst
    rfl
  have hline : ['\n'] <:+ '\n' :: m := by
    rcases hm.lines with rfl | hm
    · exact List.suffix_refl _
    · exact hm.trans (List.suffix_cons _ _)
  have hinside : ¬ ['*', '/'] <:+: '\n' :: m := by
    intro hin
    rcases List.infix_cons_iff.1 hin with hin | hin
    · exact absurd (List.cons_prefix_cons.1 hin).1 (by decide)
    · exact hm.inside hin
  have hlast : ('\n' :: m).getLast? ≠ some '*' := by
    obtain ⟨w, hw⟩ := hline
    rw [← hw, List.getLast?_concat]
    decide
  have hlength := comment_closes hinside hlast ('\n' :: v)
  have hcut : commentBlock m ++ v = '/' :: '*' :: (('\n' :: m) ++ '*' :: '/' :: '\n' :: v) := by
    simp [commentBlock]
  have hstep : step st '/' ('*' :: (('\n' :: m) ++ '*' :: '/' :: '\n' :: v)) =
      ⟨.comment, ('\n' :: m).length + 3, st⟩ := by
    have hcomment : step st '/' ('*' :: (('\n' :: m) ++ '*' :: '/' :: '\n' :: v)) =
        blockComment st ('*' :: (('\n' :: m) ++ '*' :: '/' :: '\n' :: v)) := by
      have h1 : isNewline '/' = false := by decide
      have h2 : isSpace '/' = false := by decide
      have h3 : Text.isDigit '/' = false := by decide
      have h4 : isNameChar '/' = false := by decide
      simp [step, h1, h2, h3, h4]
    have hnewline : ('*' :: (('\n' :: m) ++ '*' :: '/' :: '\n' :: v)).take (('\n' :: m).length + 2)
        |>.any isNewline := by
      simp [isNewline]
    rw [hcomment, blockComment, List.drop_one, List.tail_cons, hlength]
    simp only [hnewline, hblank]
  have hnext : lexemesFrom st ('\n' :: v) = ⟨.blank, ['\n']⟩ :: lexemesFrom st v := by
    rw [lexemes_cons]
    have hstep : step st '\n' v = ⟨.blank, 0, st.blank true⟩ := rfl
    rw [hstep, hblank]
    rfl
  have htake : ('*' :: (('\n' :: m) ++ '*' :: '/' :: '\n' :: v)).take (('\n' :: m).length + 3) =
      '*' :: '\n' :: (m ++ ['*', '/']) := by
    have hregroup : '*' :: (('\n' :: m) ++ '*' :: '/' :: '\n' :: v) =
        ('*' :: '\n' :: (m ++ ['*', '/'])) ++ '\n' :: v := by simp
    rw [hregroup, List.take_left' (by simp)]
  have hdrop : ('*' :: (('\n' :: m) ++ '*' :: '/' :: '\n' :: v)).drop (('\n' :: m).length + 3) =
      '\n' :: v := by
    have hregroup : '*' :: (('\n' :: m) ++ '*' :: '/' :: '\n' :: v) =
        ('*' :: '\n' :: (m ++ ['*', '/'])) ++ '\n' :: v := by simp
    rw [hregroup, List.drop_left' (by simp)]
  rw [hcut, lexemes_cons, hstep]
  simp only
  rw [htake, hdrop, hnext]

/-- Lexemes in the middle that are no parts of templates leave the others as they are. -/
theorem settle_between {zs : List Lexeme} (hz : ∀ z ∈ zs, Whole z.kind) (xs ys : List Lexeme) :
    ∃ as, (as.flatMap (·.text)).length = (xs.flatMap (·.text)).length ∧
      (settle (xs ++ ys)).1 = as ++ (settle ys).1 ∧
      (settle (xs ++ (zs ++ ys))).1 = as ++ (zs ++ (settle ys).1) ∧
      (settle (xs ++ (zs ++ ys))).2 = (settle (xs ++ ys)).2 := by
  induction xs with
  | nil =>
    refine ⟨[], rfl, rfl, settle_front hz ys, ?_⟩
    rw [List.nil_append, List.nil_append]
    induction zs with
    | nil => rfl
    | cons z zs ih =>
      have hkind := hz z (by simp)
      rw [List.cons_append, settle]
      simp only
      split
      · next hk => exact absurd hk (hkind _)
      · next hk => exact absurd hk (hkind _)
      · next hk => exact absurd hk (hkind _)
      · exact ih fun y hy => hz y (by simp [hy])
  | cons x xs ih =>
    obtain ⟨as, hlength, hshort, hlong, hcount⟩ := ih
    simp only [List.cons_append, settle, hcount]
    split
    · exact ⟨x :: as, by simp [hlength], by rw [hshort]; rfl, by rw [hlong]; rfl, rfl⟩
    · split
      · exact ⟨{ x with kind := .mark } :: as, by simp [hlength], by rw [hshort]; rfl,
          by rw [hlong]; rfl, rfl⟩
      · exact ⟨x :: as, by simp [hlength], by rw [hshort]; rfl, by rw [hlong]; rfl, rfl⟩
    · split
      · exact ⟨{ x with kind := .mark } :: as, by simp [hlength], by rw [hshort]; rfl,
          by rw [hlong]; rfl, rfl⟩
      · exact ⟨x :: as, by simp [hlength], by rw [hshort]; rfl, by rw [hlong]; rfl, rfl⟩
    · exact ⟨x :: as, by simp [hlength], by rw [hshort]; rfl, by rw [hlong]; rfl, rfl⟩

/-- A block comment between lines is a literal up to its line's end, and what is code elsewhere is as
without it. -/
theorem comment_mask {u m : Text} (hu : ['\n'] <:+ u) (h : isClearScript u = true)
    (hm : CommentLines m) (v : Text) : ∃ bs cs, bs.length = u.length ∧ codeMask (u ++ v) = bs ++ cs ∧
      codeMask (u ++ (commentBlock m ++ v)) =
        bs ++ (List.replicate (m.length + 5) false ++ true :: cs) := by
  obtain ⟨pre, xs, st, hfresh, htext, hlexemes⟩ := lexemes_behind hu h
  have hwhole : ∀ z ∈ [(⟨.comment, '/' :: '*' :: '\n' :: (m ++ ['*', '/'])⟩ : Lexeme), ⟨.blank, ['\n']⟩],
      Whole z.kind := by
    intro z hz part
    simp only [List.mem_cons, List.not_mem_nil, or_false] at hz
    rcases hz with rfl | rfl <;> simp
  obtain ⟨as, hlength, hshort, hlong, _⟩ := settle_between hwhole xs (lexemesFrom st v)
  refine ⟨maskOf (pre ++ as), maskOf (settle (lexemesFrom st v)).1, ?_, ?_, ?_⟩
  · rw [length_maskOf, ← htext, List.flatMap_append, List.flatMap_append, List.length_append,
      List.length_append, hlength]
  · rw [codeMask, hlexemes, hshort, ← List.append_assoc, mask_of_append]
  · have hblock : lexemesFrom st (commentBlock m ++ v) =
        [⟨.comment, '/' :: '*' :: '\n' :: (m ++ ['*', '/'])⟩, ⟨.blank, ['\n']⟩] ++
          lexemesFrom st v := comment_lexemes hm hfresh v
    rw [codeMask, hlexemes, hblock, hlong, ← List.append_assoc, mask_of_append, mask_of_append]
    congr 2
    have hcount : ('/' :: '*' :: '\n' :: (m ++ ['*', '/'])).length = m.length + 5 := by simp
    rw [List.cons_append, List.singleton_append, mask_cons, mask_cons, hcount]
    rfl

end Restage.Script
