import Restage.Proofs.Weave

/-!
The searches for the end of a literal, as automata. A pass that replaces words without the marks of
literals, or drops lines without them, leaves every such search where it was: it ends at the same
character before and behind the pass, or at none (`run_meets`).
-/

set_option autoImplicit false

namespace Restage.Script

/-- What an automaton makes of a character. -/
inductive Turn (σ ρ : Type) where
  | go (q : σ)
  | stop (x : ρ)
  | fail

abbrev Scanner (σ ρ : Type) := σ → Char → Turn σ ρ

namespace Scanner

variable {σ ρ : Type} (m : Scanner σ ρ)

/-- How many characters are read up to the one that ends the search, and its result. -/
def run : σ → Text → Option (Nat × ρ)
  | _, [] => none
  | q, c :: cs =>
    match m q c with
    | .go q' => (run q' cs).map fun x => (x.1 + 1, x.2)
    | .stop x => some (1, x)
    | .fail => none

/-- The state behind a text in which the search does not end. -/
def across : σ → Text → Option σ
  | q, [] => some q
  | q, c :: cs =>
    match m q c with
    | .go q' => across q' cs
    | _ => none

variable {m}

theorem run_across {q q' : σ} {w : Text} (h : m.across q w = some q') (t : Text) :
    m.run q (w ++ t) = (m.run q' t).map fun x => (x.1 + w.length, x.2) := by
  induction w generalizing q with
  | nil =>
    rw [across, Option.some.injEq] at h
    subst h
    simp
  | cons c w ih =>
    rw [across] at h
    rw [List.cons_append, run]
    cases hc : m q c with
    | go p =>
      rw [hc] at h
      simp only
      rw [ih h, Option.map_map]
      rfl
    | stop x => simp [hc] at h
    | fail => simp [hc] at h

/-- A search ends at the same kept character of two texts made of cells, or in neither. -/
inductive Meets (m : Scanner σ ρ) (cells : List Cell) : Option (Nat × ρ) → Option (Nat × ρ) → Prop
  | never : Meets m cells none none
  | ends (ks rest : List Cell) (c : Char) (x : ρ) : cells = ks ++ .keep c :: rest →
    (∃ q, m q c = .stop x) →
    Meets m cells (some ((oldText ks).length + 1, x)) (some ((newText ks).length + 1, x))

theorem meets_keep {cells : List Cell} {o o' : Option (Nat × ρ)} (h : Meets m cells o o')
    (c : Char) : Meets m (.keep c :: cells) (o.map fun x => (x.1 + 1, x.2))
      (o'.map fun x => (x.1 + 1, x.2)) := by
  cases h with
  | never => exact .never
  | ends ks rest d x hcells hstop =>
    exact .ends (.keep c :: ks) rest d x (by rw [hcells]; rfl) hstop

theorem meets_swap {cells : List Cell} {o o' : Option (Nat × ρ)} (h : Meets m cells o o')
    (old new : Text) : Meets m (.swap old new :: cells) (o.map fun x => (x.1 + old.length, x.2))
      (o'.map fun x => (x.1 + new.length, x.2)) := by
  cases h with
  | never => exact .never
  | ends ks rest d x hcells hstop =>
    have hends : Meets m (.swap old new :: cells) _ _ :=
      .ends (.swap old new :: ks) rest d x (by rw [hcells]; rfl) hstop
    have hlen : ∀ a b : Nat, a + b + 1 = b + 1 + a := by omega
    simpa [hlen] using hends

/-- What a change has to respect. A state is live behind a text if a search that has read this text
may be in it. -/
structure Respects (m : Scanner σ ρ) (live : σ → Text → Prop) (r : Change) : Prop where
  step : ∀ {q q' u c}, live q u → m q c = .go q' → live q' (u ++ [c])
  change : ∀ {q u old new v}, live q u → r u old new v →
    ∃ q', m.across q old = some q' ∧ m.across q new = some q' ∧ live q' (u ++ old)

theorem run_meets {live : σ → Text → Prop} {r : Change} (hm : m.Respects live r) {u : Text}
    {cells : List Cell} (h : Woven r u cells) {q : σ} (hq : live q u) :
    Meets m cells (m.run q (oldText cells)) (m.run q (newText cells)) := by
  induction h generalizing q with
  | done u => exact .never
  | @keep u c cells h ih =>
    rw [old_text_keep, new_text_keep, run, run]
    cases hc : m q c with
    | go p => exact meets_keep (ih (hm.step hq hc)) c
    | stop x => exact .ends [] cells c x rfl ⟨q, hc⟩
    | fail => exact .never
  | @swap u old new cells hrel h ih =>
    obtain ⟨p, hold, hnew, hp⟩ := hm.change hq hrel
    rw [old_text_swap, new_text_swap, run_across hold, run_across hnew]
    exact meets_swap (ih hp) old new

end Scanner

/-! The automata. -/

/-- Inside a string, behind a backslash, or behind a backslash and a carriage return. -/
inductive Quoted where
  | inside | escaped | returned
deriving DecidableEq

def insideTurn (quote c : Char) : Turn Quoted Unit :=
  if c = '\\' then .go .escaped
  else if c = quote then .stop ()
  else if c = '\n' ∨ c = '\r' then .fail
  else .go .inside

def stringScan (quote : Char) : Scanner Quoted Unit
  | .inside, c => insideTurn quote c
  | .escaped, c => if c = '\r' then .go .returned else .go .inside
  | .returned, c => if c = '\n' then .go .inside else insideTurn quote c

/-- In the text of a template, behind a dollar sign or behind a backslash. -/
inductive Templated where
  | plain | dollar | escaped
deriving DecidableEq

def plainTurn (c : Char) : Turn Templated Bool :=
  if c = '\x60' then .stop false
  else if c = '$' then .go .dollar
  else if c = '\\' then .go .escaped
  else .go .plain

def templateScan : Scanner Templated Bool
  | .plain, c => plainTurn c
  | .dollar, c => if c = '{' then .stop true else plainTurn c
  | .escaped, _ => .go .plain

/-- Whether a star stands right before. -/
def commentScan : Scanner Bool Unit
  | star, c => if star ∧ c = '/' then .stop () else .go (c = '*')

/-- Inside a regular expression: whether in a class, and whether behind a backslash. -/
structure Expressed where
  inClass : Bool
  escaped : Bool
deriving DecidableEq

def regexScan : Scanner Expressed Unit
  | ⟨inClass, escaped⟩, c =>
    if c = '\n' then .fail
    else if escaped then .go ⟨inClass, false⟩
    else if c = '\\' then .go ⟨inClass, true⟩
    else if c = '/' ∧ inClass = false then .stop ()
    else .go ⟨c = '[' ∨ (inClass ∧ c ≠ ']'), false⟩

theorem string_scan {quote : Char} (hq : quote ≠ '\\') (t : Text) :
    stringLength? quote t = ((stringScan quote).run .inside t).map (·.1) := by
  fun_induction stringLength? quote t with
  | case1 => rfl
  | case2 cs ih =>
    rw [ih]
    simp [Scanner.run, stringScan, insideTurn, Function.comp_def]
  | case3 c cs hcr ih =>
    rw [ih]
    by_cases hc : c = '\r'
    · subst hc
      have hreturned : (stringScan quote).run .returned cs = (stringScan quote).run .inside cs := by
        cases cs with
        | nil => rfl
        | cons d cs =>
          have hd : d ≠ '\n' := fun h => hcr cs rfl (by rw [h])
          simp [Scanner.run, stringScan, hd]
      simp [Scanner.run, stringScan, insideTurn, hreturned, Function.comp_def]
    · simp [Scanner.run, stringScan, insideTurn, hc, Function.comp_def]
  | case4 cs _ hnone => simp [Scanner.run, stringScan, insideTurn, hq]
  | case5 c cs _ hnone hcq hline =>
    have hc : c ≠ '\\' := by
      rintro rfl
      exact absurd hline (by decide)
    simp [Scanner.run, stringScan, insideTurn, hc, hcq, hline]
  | case6 c cs _ hnone hcq hline ih =>
    rw [ih]
    by_cases hc : c = '\\'
    · subst hc
      cases cs with
      | nil => simp [Scanner.run, stringScan, insideTurn]
      | cons d cs => exact absurd rfl (hnone d cs rfl)
    · simp [Scanner.run, stringScan, insideTurn, hc, hcq, hline, Function.comp_def]

theorem template_scan (t : Text) : templateLength? t = templateScan.run .plain t := by
  fun_induction templateLength? t with
  | case1 => rfl
  | case2 t => simp [Scanner.run, templateScan, plainTurn]
  | case3 t => simp [Scanner.run, templateScan, plainTurn]
  | case4 d cs ih =>
    rw [ih]
    simp [Scanner.run, templateScan, plainTurn, Function.comp_def]
  | case5 c cs hquote hdollar hnone ih =>
    rw [ih]
    by_cases hc : c = '$'
    · subst hc
      have hbehind : templateScan.run .dollar cs = templateScan.run .plain cs := by
        cases cs with
        | nil => rfl
        | cons d cs =>
          have hd : d ≠ '{' := fun h => hdollar cs rfl (by rw [h])
          simp [Scanner.run, templateScan, hd]
      simp [Scanner.run, templateScan, plainTurn, hbehind]
    · by_cases hslash : c = '\\'
      · subst hslash
        cases cs with
        | nil => simp [Scanner.run, templateScan, plainTurn]
        | cons d cs => exact absurd rfl (hnone d cs rfl)
      · have hq : c ≠ '\x60' := hquote
        simp [Scanner.run, templateScan, plainTurn, hc, hslash, hq]

theorem comment_scan (t : Text) :
    blockCommentLength? t = (commentScan.run false t).map (·.1) := by
  fun_induction blockCommentLength? t with
  | case1 => rfl
  | case2 t => simp [Scanner.run, commentScan]
  | case3 c cs hclose ih =>
    rw [ih]
    by_cases hc : c = '*'
    · subst hc
      have hbehind : commentScan.run true cs = commentScan.run false cs := by
        cases cs with
        | nil => rfl
        | cons d cs =>
          have hd : d ≠ '/' := fun h => hclose cs rfl (by rw [h])
          simp [Scanner.run, commentScan, hd]
      simp [Scanner.run, commentScan, hbehind, Function.comp_def]
    · simp [Scanner.run, commentScan, hc, Function.comp_def]

theorem regex_scan (inClass : Bool) (t : Text) : regexLength? inClass t =
    (regexScan.run ⟨inClass, false⟩ t).map fun x =>
      x.1 + ((t.drop x.1).takeWhile isFlag).length := by
  fun_induction regexLength? inClass t with
  | case1 => rfl
  | case2 => simp [Scanner.run, regexScan]
  | case3 => simp [Scanner.run, regexScan]
  | case4 inClass c cs hc ih =>
    rw [ih]
    have hlen : ∀ a b : Nat, a + b + 2 = a + 2 + b := by omega
    simp [Scanner.run, regexScan, hc, Function.comp_def, hlen]
  | case5 inClass c cs hline hnone hslash =>
    obtain ⟨rfl, rfl⟩ := hslash
    simp [Scanner.run, regexScan]
  | case6 inClass c cs hline hnone hslash ih =>
    rw [ih]
    have hlen : ∀ a b : Nat, a + b + 1 = a + 1 + b := by omega
    by_cases hc : c = '\\'
    · subst hc
      cases cs with
      | nil => simp [Scanner.run, regexScan]
      | cons d cs => exact absurd rfl (hnone d cs rfl)
    · have hn : c ≠ '\n' := hline
      simp [Scanner.run, regexScan, hn, hc, hslash, Function.comp_def, hlen]

/-! Changes that no literal sees. -/

/-- The marks that open, end or escape something in a literal. -/
def literalMarks : List Char :=
  ['\x22', '\x27', '\x60', '\\', '/', '*', '[', ']', '{', '}', '\n', '\r']

def isMild (c : Char) : Bool := !literalMarks.contains c

def isLineEnd (c : Char) : Bool := c == '\n' || c == '\r'

/-- A text without such marks, line ends apart, that does not end with a dollar sign. -/
structure Mild (w : Text) : Prop where
  some : w ≠ []
  chars : ∀ c ∈ w, isMild c = true ∨ isLineEnd c = true
  last : w.getLast? ≠ Option.some '$'

/-- Whether the last line of a text is continued by a backslash. -/
def Continued (u : Text) : Prop := ['\\', '\n'] <:+ u ∨ ['\\', '\r', '\n'] <:+ u

/-- A text in front of a line that is not continued from the one before. -/
def LineFront (u : Text) : Prop := u = [] ∨ u.getLast? = some '\n' ∧ ¬ Continued u

/-- One word in the place of another, or a line that is dropped. -/
inductive MildChange : Change
  | word {u old new v : Text} : Mild old → Mild new → (∀ c ∈ old, isMild c = true) →
    (∀ c ∈ new, isMild c = true) → MildChange u old new v
  | line {u old v : Text} : LineFront u → Mild old → MildChange u old [] v

theorem mild_ne {c x : Char} (hc : isMild c = true) (hx : isMild x = false) : c ≠ x := by
  rintro rfl
  rw [hx] at hc
  exact Bool.noConfusion hc

theorem mild_last {u w : Text} (hw : w ≠ []) (h : ∀ c ∈ w, isMild c = true) :
    (u ++ w).getLast? ≠ some '\n' := by
  rcases List.eq_nil_or_concat w with rfl | ⟨v, c, rfl⟩
  · exact absurd rfl hw
  · rw [List.concat_eq_append, ← List.append_assoc, List.getLast?_concat]
    intro hc
    rw [Option.some.injEq] at hc
    exact mild_ne (h c (by simp)) (by decide) hc

namespace Scanner

/-- Characters that all lead to the same state. -/
theorem across_settles {σ ρ : Type} {m : Scanner σ ρ} {p : σ} {w : Text} (hw : w ≠ [])
    (hp : ∀ c ∈ w, m p c = .go p) {q : σ} (hq : ∀ c ∈ w, m q c = .go p) :
    m.across q w = some p := by
  have hrest : ∀ v : Text, (∀ c ∈ v, m p c = .go p) → m.across p v = some p := by
    intro v hv
    induction v with
    | nil => rfl
    | cons c v ih =>
      rw [across, hv c (by simp)]
      exact ih fun d hd => hv d (by simp [hd])
  cases w with
  | nil => exact absurd rfl hw
  | cons c w =>
    rw [across, hq c (by simp)]
    exact hrest w fun d hd => hp d (by simp [hd])

end Scanner

/-- What may have been read when a string goes on. -/
structure QuotedLive (q : Quoted) (u : Text) : Prop where
  some : u ≠ []
  line : u.getLast? = Option.some '\n' → Continued u
  escaped : q = .escaped → u.getLast? = Option.some '\\'
  returned : q = .returned → ['\\', '\r'] <:+ u

theorem quoted_line {u : Text} {q : Quoted} (hq : QuotedLive q u) : ¬ LineFront u := by
  rintro (hnil | ⟨hlast, hfresh⟩)
  · exact hq.some hnil
  · exact hfresh (hq.line hlast)

theorem inside_live {quote c : Char} {q : Quoted} (u : Text) (hturn : insideTurn quote c = .go q) :
    QuotedLive q (u ++ [c]) := by
  unfold insideTurn at hturn
  split at hturn
  · next hc =>
    cases hturn
    subst hc
    exact ⟨by simp, by simp, by simp, by simp⟩
  · split at hturn
    · simp at hturn
    · split at hturn
      · simp at hturn
      · next hline =>
        cases hturn
        exact ⟨by simp, fun h => absurd (Or.inl (by simpa using h)) hline, by simp, by simp⟩

/-- Behind a word the scanner of a string is inside of it. -/
theorem string_across {quote : Char} (hquote : isMild quote = false) (q : Quoted) {w : Text}
    (hne : w ≠ []) (hw : ∀ c ∈ w, isMild c = true) :
    (stringScan quote).across q w = some .inside := by
  have hgo : ∀ p : Quoted, ∀ c ∈ w, stringScan quote p c = .go .inside := by
    intro p c hc
    have h := fun x => mild_ne (x := x) (hw c hc)
    cases p <;> simp [stringScan, insideTurn, h '\\' (by decide), h quote hquote,
      h '\n' (by decide), h '\r' (by decide)]
  exact Scanner.across_settles hne (hgo .inside) (hgo q)

theorem string_respects {quote : Char} (hquote : isMild quote = false) :
    (stringScan quote).Respects QuotedLive MildChange := by
  constructor
  · intro q q' u c hq hturn
    cases q with
    | inside => exact inside_live u hturn
    | escaped =>
      obtain ⟨v, rfl⟩ : ∃ v, u = v ++ ['\\'] := by
        have hlast := hq.escaped rfl
        exact List.getLast?_eq_some_iff.1 hlast
      rw [stringScan] at hturn
      split at hturn
      · next hc =>
        cases hturn
        subst hc
        exact ⟨by simp, by simp, by simp, fun _ => ⟨v, by simp⟩⟩
      · cases hturn
        refine ⟨by simp, fun h => Or.inl ⟨v, ?_⟩, by simp, by simp⟩
        have hc : c = '\n' := by simpa using h
        simp [hc]
    | returned =>
      obtain ⟨v, rfl⟩ := hq.returned rfl
      rw [stringScan] at hturn
      split at hturn
      · next hc =>
        cases hturn
        subst hc
        exact ⟨by simp, fun _ => Or.inr ⟨v, by simp⟩, by simp, by simp⟩
      · exact inside_live _ hturn
  · intro q u old new v hq hchange
    cases hchange with
    | word hold hnew holds hnews =>
      exact ⟨.inside, string_across hquote q hold.some holds,
        string_across hquote q hnew.some hnews,
        by simp [hold.some], fun h => absurd h (mild_last hold.some holds), by simp, by simp⟩
    | line hfront _ => exact absurd hfront (quoted_line hq)

/-- What may have been read when a regular expression goes on. -/
def ExpressedLive (_ : Expressed) (u : Text) : Prop := u ≠ [] ∧ u.getLast? ≠ some '\n'

theorem regex_respects : regexScan.Respects ExpressedLive MildChange := by
  constructor
  · intro q q' u c _ hturn
    refine ⟨by simp, ?_⟩
    rw [List.getLast?_concat]
    intro hc
    rw [Option.some.injEq] at hc
    simp [regexScan, hc] at hturn
  · intro q u old new v hq hchange
    have hword : ∀ {w : Text}, w ≠ [] → (∀ c ∈ w, isMild c = true) →
        regexScan.across q w = some ⟨q.inClass, false⟩ := by
      intro w hne hw
      have hgo : ∀ e, ∀ c ∈ w, regexScan ⟨q.inClass, e⟩ c = .go ⟨q.inClass, false⟩ := by
        intro e c hc
        have h := fun x => mild_ne (x := x) (hw c hc)
        cases e <;> simp [regexScan, h '\\' (by decide), h '/' (by decide), h '[' (by decide),
          h ']' (by decide), h '\n' (by decide)]
      exact Scanner.across_settles hne (hgo false) (hgo q.escaped)
    cases hchange with
    | word hold hnew holds hnews =>
      exact ⟨_, hword hold.some holds, hword hnew.some hnews, by simp [hold.some],
        mild_last hold.some holds⟩
    | line hfront _ =>
      rcases hfront with hnil | ⟨hlast, _⟩
      · exact absurd hnil hq.1
      · exact absurd hlast hq.2

/-- A search that is in its plain state at the beginning of a line. -/
def PlainLive {σ : Type} (plain : σ) (q : σ) (u : Text) : Prop :=
  u ≠ [] ∧ (u.getLast? = some '\n' → q = plain)

section

variable {σ ρ : Type} {m : Scanner σ ρ} {plain : σ}

/-- A search that mild texts leave in its plain state. -/
theorem plain_respects (hline : ∀ {q q'}, m q '\n' = .go q' → q' = plain)
    (hmild : ∀ {w : Text}, Mild w → ∀ q, m.across q w = some plain) :
    m.Respects (PlainLive plain) MildChange := by
  constructor
  · intro q q' u c _ hturn
    refine ⟨by simp, fun h => ?_⟩
    have hc : c = '\n' := by simpa using h
    subst hc
    exact hline hturn
  · intro q u old new v hq hchange
    cases hchange with
    | word hold hnew _ _ =>
      exact ⟨plain, hmild hold q, hmild hnew q, by simp [hold.some], fun _ => rfl⟩
    | line hfront hold =>
      rcases hfront with hnil | ⟨hlast, _⟩
      · exact absurd hnil hq.1
      · obtain rfl := hq.2 hlast
        exact ⟨q, hmild hold q, rfl, by simp [hold.some], fun _ => rfl⟩

end

theorem comment_respects : commentScan.Respects (PlainLive false) MildChange := by
  refine plain_respects ?_ ?_
  · intro q q' h
    simpa [commentScan, eq_comm] using h
  · intro w hw q
    have hgo : ∀ p, ∀ c ∈ w, commentScan p c = .go false := by
      intro p c hc
      have h : c ≠ '*' ∧ c ≠ '/' := by
        rcases hw.chars c hc with h | h
        · exact ⟨mild_ne h (by decide), mild_ne h (by decide)⟩
        · constructor <;> rintro rfl <;> exact absurd h (by decide)
      simp [commentScan, h.1, h.2]
    exact Scanner.across_settles hw.some (hgo false) (hgo q)

theorem template_respects : templateScan.Respects (PlainLive .plain) MildChange := by
  refine plain_respects ?_ ?_
  · intro q q' h
    cases q <;> simpa [templateScan, plainTurn, eq_comm] using h
  · intro w hw q
    have hgo : ∀ {c}, (isMild c = true ∨ isLineEnd c = true) → ∀ q,
        templateScan q c = .go .plain ∨ c = '$' ∧ ∃ p, templateScan q c = .go p := by
      intro c hc q
      have h : c ≠ '\x60' ∧ c ≠ '\\' ∧ c ≠ '{' := by
        rcases hc with h | h
        · exact ⟨mild_ne h (by decide), mild_ne h (by decide), mild_ne h (by decide)⟩
        · refine ⟨?_, ?_, ?_⟩ <;> rintro rfl <;> exact absurd h (by decide)
      by_cases hdollar : c = '$'
      · subst hdollar
        exact Or.inr ⟨rfl, by cases q <;> simp [templateScan, plainTurn]⟩
      · refine Or.inl ?_
        cases q <;> simp [templateScan, plainTurn, h, hdollar]
    -- only the last character decides, since behind a dollar sign no brace stands
    have hwalk : ∀ v : Text, v ≠ [] → (∀ c ∈ v, isMild c = true ∨ isLineEnd c = true) →
        v.getLast? ≠ some '$' → ∀ q, templateScan.across q v = some .plain := by
      intro v
      induction v with
      | nil => intro h; exact absurd rfl h
      | cons c v ih =>
        intro _ hv hlast q
        rw [Scanner.across]
        cases v with
        | nil =>
          have hc : c ≠ '$' := by simpa using hlast
          rcases hgo (hv c (by simp)) q with h | ⟨h, _⟩
          · rw [h]
            rfl
          · exact absurd h hc
        | cons d v =>
          have hrest := ih (by simp) (fun e he => hv e (by simp [he])) (by simpa using hlast)
          rcases hgo (hv c (by simp)) q with h | ⟨_, p, h⟩
          · rw [h]
            exact hrest .plain
          · rw [h]
            exact hrest p
    exact hwalk w hw.some hw.chars hw.last q

end Restage.Script
