import Restage.Proofs.LiteralScanners

/-!
The places where lexemes begin. `Lexes` says that the lexer takes the head of a text apart and where
it stands behind it; a qualified name is read as names and dots (`qualified_lexes`), and a mark
depends on a glance at what follows it (`mark_step_glance`).
-/

set_option autoImplicit false

namespace Restage.Script

/-- A place where a lexeme begins: the text in front of it, the state there, and what follows. -/
structure Entry where
  front : Text
  state : State
  char : Char
  rest : Text

namespace Entry

variable (e : Entry)

def step : Step := Script.step e.state e.char e.rest

def lexeme : Lexeme := ⟨e.step.kind, e.char :: e.rest.take e.step.more⟩

def behind : Text := e.rest.drop e.step.more

end Entry

def entriesFrom (u : Text) (st : State) : Text → List Entry
  | [] => []
  | c :: cs =>
    let s := step st c cs
    ⟨u, st, c, cs⟩ :: entriesFrom (u ++ c :: cs.take s.more) s.state (cs.drop s.more)
termination_by t => t.length
decreasing_by simp only [List.length_drop, List.length_cons]; omega

/-- The places of a script where lexemes begin, behind a first line that names an interpreter. -/
def entries (t : Text) : List Entry :=
  match t with
  | '#' :: '!' :: cs =>
    entriesFrom ('#' :: '!' :: cs.takeWhile (· != '\n')) .start (cs.dropWhile (· != '\n'))
  | _ => entriesFrom [] .start t

theorem entries_cons (u : Text) (st : State) (c : Char) (cs : Text) :
    entriesFrom u st (c :: cs) = ⟨u, st, c, cs⟩ ::
      entriesFrom (u ++ c :: cs.take (step st c cs).more) (step st c cs).state
        (cs.drop (step st c cs).more) := by
  rw [entriesFrom]

/-! What a step reads. -/

/-- The characters that literals begin with. -/
def literalOpeners : List Char := ['\x22', '\x27', '\x60', '}', '/', '-']

/-- Code, or a literal that its first character opens. -/
inductive Opened (c : Char) (cs : Text) (s : Step) : Prop
  | code : s.kind.isLiteral = false → Opened c cs s
  | regex : c = '/' → s.kind = .regex → regexLength? false cs = some s.more → Opened c cs s
  | other : c ∈ literalOpeners → s.kind ≠ .regex → Opened c cs s

/-- A regular expression stays in its line. -/
theorem regex_line {inClass : Bool} {t : Text} {n : Nat} (h : regexLength? inClass t = some n) :
    '\n' ∉ t.take n := by
  fun_induction regexLength? inClass t generalizing n with
  | case1 => simp at h
  | case2 => simp at h
  | case3 => simp at h
  | case4 inClass c cs hc ih =>
    obtain ⟨k, hk, rfl⟩ := Option.map_eq_some_iff.1 h
    simpa [Ne.symm hc] using ih hk
  | case5 inClass c cs hline =>
    obtain rfl := Option.some.inj h
    have hflags : cs.take (cs.takeWhile isFlag).length = cs.takeWhile isFlag :=
      List.prefix_iff_eq_take.1 (List.takeWhile_prefix isFlag) |>.symm
    rw [Nat.add_comm, List.take_succ_cons, hflags, List.mem_cons, not_or]
    refine ⟨fun h => hline h.symm, fun hmem => ?_⟩
    exact absurd (List.all_eq_true.1 List.all_takeWhile _ hmem) (by decide)
  | case6 inClass c cs hline _ _ ih =>
    obtain ⟨k, hk, rfl⟩ := Option.map_eq_some_iff.1 h
    rw [List.take_succ_cons, List.mem_cons, not_or]
    exact ⟨fun h => hline h.symm, ih hk⟩

section

variable {c : Char} {cs : Text}

theorem opened_ite {p : Prop} [Decidable p] {a b : Step} (ha : p → Opened c cs a)
    (hb : Opened c cs b) : Opened c cs (if p then a else b) := by
  by_cases hp : p
  · rw [if_pos hp]
    exact ha hp
  · rwa [if_neg hp]

theorem opened_slash (hc : c = '/') (st : State) : Opened c cs (slashStep st cs) := by
  refine opened_ite (fun _ => ?_) (.code rfl)
  cases hn : regexLength? false cs with
  | none => exact .code rfl
  | some n => exact .regex hc rfl hn

theorem opened_block (hc : c = '/') (st : State) : Opened c cs (blockComment st cs) := by
  rw [blockComment]
  split
  · exact .other (by simp [hc, literalOpeners]) (by simp)
  · exact opened_slash hc st

theorem opened_string (hc : (c == '\x22' || c == '\x27') = true) (st : State) :
    Opened c cs (match stringLength? c cs with
      | some n => ⟨.string, n, st.value⟩
      | none => ⟨.mark, 0, st.value⟩) := by
  split
  · simp only [Bool.or_eq_true, beq_iff_eq] at hc
    exact .other (by rcases hc with rfl | rfl <;> decide) (by simp)
  · exact .code rfl

theorem opened_template (hc : c ∈ literalOpeners) (st : State) :
    Opened c cs (templateStep st cs) ∧ Opened c cs (resumeStep st cs) := by
  rw [templateStep, resumeStep]
  constructor <;> split
  all_goals exact .other hc (by simp)

theorem opened_step (st : State) (c : Char) (cs : Text) : Opened c cs (step st c cs) := by
  have hline : c ∈ literalOpeners → Opened c cs (lineComment st cs) :=
    fun hc => .other hc (by simp [lineComment])
  have hmark : Opened c cs (markStep st c cs) := .code (by rw [mark_step_kind]; rfl)
  refine opened_ite (fun _ => .code rfl) (opened_ite (fun _ => .code rfl) (opened_ite
    (fun _ => .code rfl) (opened_ite (fun _ => .code rfl) (opened_ite (fun h => opened_string h st)
    (opened_ite (fun h => ?template) (opened_ite (fun h => ?resume) (opened_ite (fun h => ?comment)
    (opened_ite (fun h => ?block) (opened_ite (fun h => opened_slash (by simpa using h) st)
    (opened_ite (fun h => ?arrow) hmark))))))))))
  case template =>
    exact (opened_template (by simp [show c = '\x60' by simpa using h, literalOpeners]) st).1
  case resume =>
    simp only [Bool.and_eq_true, beq_iff_eq] at h
    exact (opened_template (by simp [h.1, literalOpeners]) st).2
  case comment =>
    simp only [Bool.and_eq_true, beq_iff_eq] at h
    exact hline (by simp [h.1, literalOpeners])
  case block =>
    simp only [Bool.and_eq_true, beq_iff_eq] at h
    exact opened_block h.1 st
  case arrow =>
    simp only [Bool.and_eq_true, beq_iff_eq] at h
    exact hline (by simp [h.1.1, literalOpeners])

end

theorem regex_entry {e : Entry} (h : e.step.kind = .regex) : '\n' ∉ e.lexeme.text := by
  have hopened := opened_step e.state e.char e.rest
  change Opened e.char e.rest e.step at hopened
  cases hopened with
  | code hcode =>
    rw [h] at hcode
    exact Bool.noConfusion hcode
  | other _ hne => exact absurd h hne
  | regex hc _ hlength =>
    rw [Entry.lexeme, List.mem_cons, not_or, hc]
    exact ⟨by decide, regex_line hlength⟩

/-! The head of a text. -/

/-- The lexemes at the head of a text, and where the lexer stands behind them. -/
inductive Lexes : State → Text → List Lexeme → State → Text → Prop
  | stop (st : State) (t : Text) : Lexes st t [] st t
  | step {st st' : State} {c : Char} {cs r : Text} {us : List Lexeme} :
    Lexes (step st c cs).state (cs.drop (step st c cs).more) us st' r →
    Lexes st (c :: cs) (⟨(step st c cs).kind, c :: cs.take (step st c cs).more⟩ :: us) st' r

section

variable {st st' : State} {t r : Text} {us : List Lexeme}

theorem lexes_lexemes (h : Lexes st t us st' r) : lexemesFrom st t = us ++ lexemesFrom st' r := by
  induction h with
  | stop => rfl
  | step _ ih => rw [lexemes_cons, ih, List.cons_append]

theorem lexes_text (h : Lexes st t us st' r) : t = us.flatMap (·.text) ++ r := by
  induction h with
  | stop => rfl
  | step _ ih => rw [List.flatMap_cons, List.append_assoc, ← ih, List.cons_append,
      List.take_append_drop]

theorem lexes_entries (h : Lexes st t us st' r) {u : Text} {e : Entry}
    (he : e ∈ entriesFrom (u ++ us.flatMap (·.text)) st' r) : e ∈ entriesFrom u st t := by
  induction h generalizing u with
  | stop => simpa using he
  | step _ ih =>
    rw [entries_cons]
    refine List.mem_cons_of_mem _ (ih ?_)
    rwa [List.flatMap_cons, ← List.append_assoc] at he

theorem lexes_trans {st'' : State} {r' : Text} {vs : List Lexeme} (h : Lexes st t us st' r)
    (h' : Lexes st' r vs st'' r') : Lexes st t (us ++ vs) st'' r' := by
  induction h with
  | stop => exact h'
  | step _ ih => exact .step (ih h')

theorem lexes_one {k : Kind} {n : Nat} {c : Char} {cs : Text} (h : step st c cs = ⟨k, n, st'⟩) :
    Lexes st (c :: cs) [⟨k, c :: cs.take n⟩] st' (cs.drop n) := by
  have hstop := Lexes.step (Lexes.stop (step st c cs).state (cs.drop (step st c cs).more))
  rw [h] at hstop
  exact hstop

end

/-! Names and dots. -/

/-- What stands behind a name. -/
def EndsName (v : Text) : Prop := v.head?.all (fun d => !isNameChar d) = true

theorem name_step {c : Char} {u v : Text} (hw : NameWord (c :: u)) (hv : EndsName v)
    (st : State) : step st c (u ++ v) = ⟨.name, u.length, st.name (c :: u)⟩ := by
  obtain ⟨hchars, d, w, heq, hline, hspace, hdigit, hdot⟩ := hw
  obtain ⟨rfl, rfl⟩ := List.cons.inj heq
  have hrun := Text.run_taken (fun d hd => hchars d (List.mem_cons_of_mem c hd)) hv
  simp [step, hline, hspace, hdigit, hdot, hchars c List.mem_cons_self, hrun]

theorem name_lexes {w v : Text} (hw : NameWord w) (hv : EndsName v) (st : State) :
    Lexes st (w ++ v) [⟨.name, w⟩] (st.name w) v := by
  obtain ⟨c, u, rfl⟩ : ∃ c u, w = c :: u := by
    obtain ⟨c, u, h, _⟩ := hw.head
    exact ⟨c, u, h⟩
  have hone := lexes_one (name_step hw hv st)
  rwa [List.take_left, List.drop_left] at hone

/-- A word that opens no class. -/
structure PlainName (w : Text) : Prop where
  word : NameWord w
  other : w ≠ "extends".toList

theorem name_at {w : Text} (hw : w ≠ "extends".toList) (st : State) :
    ∃ p, st.name w = st.at_ p := by
  have hframes := name_frames st (Or.inl hw)
  refine ⟨(st.name w).place, ?_⟩
  have hfresh : (st.name w).fresh = false := by
    unfold State.name
    split
    · rfl
    · rfl
    · rfl
    · rw [if_neg hw]
      rfl
    · rfl
    · unfold State.keyword
      split_ifs <;> rfl
  cases hst : st.name w with
  | mk place frames fresh =>
    rw [hst] at hframes hfresh
    simp only at hframes hfresh
    simp [State.at_, hframes, hfresh]

theorem dot_step {c : Char} (hdigit : Text.isDigit c = false) (hdot : c ≠ '.') (st : State)
    (v : Text) : step st '.' (c :: v) = ⟨.mark, 0, st.at_ .property⟩ := by
  have h1 : isNewline '.' = false := by decide
  have h2 : isSpace '.' = false := by decide
  have h3 : Text.isDigit '.' = false := by decide
  have h4 : isNameChar '.' = false := by decide
  have hmark : markStep st '.' (c :: v) = ⟨.mark, 0, st.at_ .property⟩ := by
    unfold markStep
    split <;> simp_all
  simp [step, h1, h2, h3, h4, hdigit, hmark]

/-- A name, or the name of a member behind such names. -/
inductive Qualified : Text → Prop
  | name {w : Text} : PlainName w → Qualified w
  | member {w x : Text} : PlainName w → Qualified x → Qualified (w ++ '.' :: x)

theorem qualified_head {x : Text} (hx : Qualified x) :
    ∃ c u, x = c :: u ∧ isNameChar c = true ∧ Text.isDigit c = false ∧ c ≠ '.' := by
  have hword : ∀ {w : Text}, NameWord w →
      ∃ c u, w = c :: u ∧ isNameChar c = true ∧ Text.isDigit c = false ∧ c ≠ '.' := by
    rintro w ⟨hchars, c, u, rfl, _, _, hdigit, hdot⟩
    exact ⟨c, u, rfl, hchars c (by simp), hdigit, hdot⟩
  cases hx with
  | name hw => exact hword hw.word
  | @member w x hw _ =>
    obtain ⟨c, u, rfl, h⟩ := hword hw.word
    exact ⟨c, u ++ '.' :: x, rfl, h⟩

/-- Lexemes that are no literals. -/
def AllCode (us : List Lexeme) : Prop := ∀ x ∈ us, x.kind.isLiteral = false

/-- A qualified name is read as names and dots, and is a value if it ends with the name of a
member. -/
theorem qualified_lexes {x : Text} (hx : Qualified x) (st : State) {v : Text} (hv : EndsName v) :
    ∃ us p, Lexes st (x ++ v) us (st.at_ p) v ∧ AllCode us ∧
      (st.place = .property ∨ '.' ∈ x → p = .operator) := by
  have hdot : isNameChar '.' = false := by decide
  induction hx generalizing st with
  | @name w hw =>
    obtain ⟨p, hp⟩ := name_at hw.other st
    have hread := name_lexes hw.word hv st
    rw [hp] at hread
    refine ⟨_, p, hread, by simp [AllCode, Kind.isLiteral], ?_⟩
    rintro (hplace | hmem)
    · have hname : st.name w = st.at_ .operator := by
        unfold State.name
        rw [hplace]
      rw [hname] at hp
      exact (congrArg State.place hp).symm
    · rw [hw.word.chars '.' hmem] at hdot
      exact Bool.noConfusion hdot
  | @member w x hw hx ih =>
    obtain ⟨c, u, rfl, _, hdigit, hne⟩ := qualified_head hx
    obtain ⟨p, hp⟩ := name_at hw.other st
    have hread := name_lexes (v := '.' :: ((c :: u) ++ v)) hw.word (by simp [EndsName, hdot]) st
    have hmark := lexes_one (dot_step hdigit hne (st.name w) (u ++ v))
    obtain ⟨us, q, hrest, hcode, hend⟩ := ih ((st.name w).at_ .property)
    have hstate : ((st.name w).at_ .property).at_ q = st.at_ q := by
      rw [hp]
      rfl
    rw [hstate] at hrest
    have hall := lexes_trans hread (lexes_trans hmark hrest)
    refine ⟨_, q, by rw [List.append_assoc]; exact hall, ?_, fun _ => hend (Or.inl rfl)⟩
    · intro y hy
      simp only [List.cons_append, List.nil_append, List.mem_cons] at hy
      rcases hy with rfl | rfl | hy
      · rfl
      · rfl
      · exact hcode y hy

/-! What a mark depends on. -/

/-- A character that can begin a name. -/
def isWordHead (c : Char) : Bool := isNameChar c && !Text.isDigit c

def shown (c : Char) : Char := if isWordHead c then 'a' else c

/-- The characters behind a mark that it can depend on. -/
def glance : Text → Text
  | [] => []
  | d :: v => if isWordHead d then ['a'] else if d = '\n' then ['\n'] else d :: (v.take 1).map shown

theorem head_other {c x : Char} (hc : isWordHead c = true) (hx : isWordHead x = false) : c ≠ x := by
  rintro rfl
  rw [hx] at hc
  exact Bool.noConfusion hc

theorem shown_mark {c x : Char} (hx : isWordHead x = false) (ha : x ≠ 'a') :
    shown c = x ↔ c = x := by
  unfold shown
  split
  · next hc => exact ⟨fun h => absurd h.symm ha, fun h => absurd h (head_other hc hx)⟩
  · rfl

theorem mark_step_glance (st : State) (c : Char) (cs : Text) :
    markStep st c cs = markStep st c (glance cs) := by
  cases cs with
  | nil => rfl
  | cons d v =>
    rw [glance]
    split
    · next hd =>
      have h := fun x => head_other (x := x) hd
      have h1 := h '>' (by decide)
      have h2 := h '+' (by decide)
      have h3 := h '-' (by decide)
      have h4 := h '.' (by decide)
      have h5 := h '?' (by decide)
      unfold markStep
      split <;> simp_all
    · split
      · next hline =>
        subst hline
        exact mark_step_line st c v
      · cases v with
        | nil => rfl
        | cons e es =>
          rw [mark_step_pair st c d e es [], List.take_succ_cons, List.take_zero, List.map_cons,
            List.map_nil]
          unfold shown
          split
          · next he =>
            have hdot := head_other he (x := '.') (by decide)
            have hdigit : Text.isDigit e = false := by
              simp only [isWordHead, Bool.and_eq_true, Bool.not_eq_true'] at he
              exact he.2
            have ha : Text.isDigit 'a' = false := by decide
            unfold markStep
            split <;> simp_all
          · rfl

theorem glance_head (cs : Text) : (glance cs).head? = cs.head?.map shown := by
  cases cs with
  | nil => rfl
  | cons d v =>
    rw [glance, List.head?_cons, Option.map_some, shown]
    split
    · rfl
    · split
      · next hline => rw [hline]; rfl
      · rfl

theorem glance_starts (cs : Text) :
    Text.startsWith (glance cs) "->".toList = Text.startsWith cs "->".toList := by
  have hpair : "->".toList = ['-', '>'] := rfl
  cases cs with
  | nil => rfl
  | cons d v =>
    rw [glance]
    split
    · next hd =>
      have hne := (head_other hd (x := '-') (by decide)).symm
      simp [hpair, Text.startsWith, Text.after?, hne]
    · split
      · next hline =>
        subst hline
        simp [hpair, Text.startsWith, Text.after?]
      · cases v with
        | nil => rfl
        | cons e es =>
          have hshown : ('>' = shown e) ↔ '>' = e := by
            rw [eq_comm, shown_mark (by decide) (by decide), eq_comm]
          simp only [hpair, Text.startsWith, Text.after?, List.take_succ_cons, List.take_zero,
            List.map_cons, List.map_nil, hshown]
          split_ifs <;> rfl

end Restage.Script
