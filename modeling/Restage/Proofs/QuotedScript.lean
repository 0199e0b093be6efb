import Mathlib
import Restage.Script.Code

/-!
Scripts whose only literals are quoted strings. A small automaton tells whether a text is one
(`scan`) and marks its code (`quoteMask`); on such a text the lexer's marks are those of the
automaton (`code_mask_scan`). In particular all of a text without quotes, backticks, slashes and
`-->` is code (`code_mask_plain`).
-/

set_option autoImplicit false

namespace Restage.Script

/-- Where the automaton stands: at the beginning of a line, behind one or two dashes there, behind
a token of the line, or in a string with the given quote. -/
inductive Post where
  | fresh | dash | dashes | behind
  | quoted (quote : Char)
deriving DecidableEq, Repr

def isQuote (c : Char) : Bool := c == '\x22' || c == '\x27'

namespace Post

def inString : Post → Bool
  | quoted _ => true
  | _ => false

/-- The place after a character outside strings; none where another literal may open. -/
def plainNext (m : Post) (c : Char) : Option Post :=
  if isQuote c then some (quoted c)
  else if c = '\x60' ∨ c = '/' then none
  else if isNewline c then some fresh
  else if isSpace c then some (if m = fresh then fresh else behind)
  else if c = '-' then some (if m = fresh then dash else if m = dash then dashes else behind)
  else if c = '>' ∧ m = dashes then none
  else some behind

def next : Post → Char → Option Post
  | quoted q, c =>
    if c = q then some behind
    else if c = '\\' ∨ c = '\n' ∨ c = '\r' then none
    else some (quoted q)
  | m, c => m.plainNext c

theorem next_plain {m : Post} (hm : m.inString = false) (c : Char) : m.next c = m.plainNext c := by
  cases m <;> first | rfl | simp [inString] at hm

end Post

def scan : Post → Text → Option Post
  | m, [] => some m
  | m, c :: cs => (m.next c).bind fun n => scan n cs

/-- One mark per character: whether it is outside every string. -/
def quoteMask : Post → Text → List Bool
  | _, [] => []
  | m, c :: cs => (!m.inString && !isQuote c) :: quoteMask ((m.next c).getD .behind) cs

theorem scan_append (m : Post) (u v : Text) :
    scan m (u ++ v) = (scan m u).bind fun n => scan n v := by
  induction u generalizing m with
  | nil => rfl
  | cons c u ih =>
    rw [List.cons_append, scan, scan]
    cases m.next c with
    | none => rfl
    | some n => exact ih n

theorem mask_append {m n : Post} {u : Text} (h : scan m u = some n) (v : Text) :
    quoteMask m (u ++ v) = quoteMask m u ++ quoteMask n v := by
  induction u generalizing m with
  | nil =>
    simp only [scan, Option.some.injEq] at h
    rw [h]; rfl
  | cons c u ih =>
    rw [scan] at h
    cases hn : m.next c with
    | none => simp [hn] at h
    | some k =>
      simp only [hn, Option.bind_some] at h
      simp [quoteMask, hn, ih h]

theorem length_mask (m : Post) (t : Text) : (quoteMask m t).length = t.length := by
  induction t generalizing m with
  | nil => rfl
  | cons c t ih => simp [quoteMask, ih]

theorem next_unquoted {m n : Post} {c : Char} (hm : m.inString = false) (hc : isQuote c = false)
    (h : m.next c = some n) : n.inString = false := by
  simp only [Post.next_plain hm, Post.plainNext, hc] at h
  cases n with
  | quoted q =>
    simp only [Bool.false_eq_true, if_false] at h
    split_ifs at h <;> simp at h
  | _ => rfl

/-- Outside strings, and without a quote, everything is code. -/
theorem scan_unquoted {m n : Post} {u : Text} (hm : m.inString = false)
    (hu : ∀ c ∈ u, isQuote c = false) (h : scan m u = some n) :
    n.inString = false ∧ quoteMask m u = List.replicate u.length true := by
  induction u generalizing m with
  | nil =>
    simp only [scan, Option.some.injEq] at h
    exact ⟨h ▸ hm, rfl⟩
  | cons c u ih =>
    have hc : isQuote c = false := hu c (by simp)
    rw [scan] at h
    cases hn : m.next c with
    | none => simp [hn] at h
    | some k =>
      simp only [hn, Option.bind_some] at h
      obtain ⟨h1, h2⟩ := ih (next_unquoted hm hc hn) (fun d hd => hu d (by simp [hd])) h
      refine ⟨h1, ?_⟩
      simp [quoteMask, hn, h2, hm, hc, List.replicate_succ]

/-- A string ends where its quote first stands again. -/
theorem scan_string {q : Char} {n : Post} {t : Text} (hn : n.inString = false)
    (h : scan (.quoted q) t = some n) :
    ∃ u v, t = u ++ q :: v ∧ scan (.quoted q) (u ++ [q]) = some .behind ∧
      quoteMask (.quoted q) (u ++ [q]) = List.replicate (u.length + 1) false ∧
      (q ≠ '\\' → stringLength? q t = some (u.length + 1)) := by
  induction t with
  | nil =>
    simp only [scan, Option.some.injEq] at h
    subst h
    simp [Post.inString] at hn
  | cons c t ih =>
    by_cases hc : c = q
    · subst hc
      refine ⟨[], t, rfl, by simp [scan, Post.next], by simp [quoteMask, Post.inString], ?_⟩
      intro hq
      rw [stringLength?.eq_def]
      split
      · simp_all
      · simp_all
      · simp_all
      · next d ds _ _ heq =>
        obtain ⟨rfl, rfl⟩ := List.cons.inj heq
        simp
    · have hstep : Post.next (.quoted q) c = some (.quoted q) ∧ c ≠ '\\' ∧ c ≠ '\n' ∧ c ≠ '\r' := by
        by_cases hbad : c = '\\' ∨ c = '\n' ∨ c = '\r'
        · simp [scan, Post.next, hc, hbad] at h
        · simp only [not_or] at hbad
          simp [Post.next, hc, hbad]
      obtain ⟨hnext, hbs, hnl, hcr⟩ := hstep
      rw [scan, hnext] at h
      obtain ⟨u, v, rfl, hs, hmask, hlen⟩ := ih h
      refine ⟨c :: u, v, rfl, by simp [scan, hnext, hs], ?_, fun hq => ?_⟩
      · simp [quoteMask, hnext, hmask, Post.inString, List.replicate_succ]
      · rw [stringLength?.eq_def]
        split
        · simp_all
        · simp_all
        · simp_all
        · next d ds _ _ heq =>
          obtain ⟨rfl, rfl⟩ := List.cons.inj heq
          simp [hc, hnl, hcr, hlen hq]

/-! The lexer's state along the automaton. -/

/-- No open template. -/
def NoTemplate (st : State) : Prop := ∀ f ∈ st.frames, f.enclosure ≠ .substitution

/-- What the lexer's state and the place of the automaton have in common between two lexemes. -/
structure Agree (st : State) (m : Post) : Prop where
  outside : m.inString = false
  fresh : st.fresh = true → m = .fresh
  closed : NoTemplate st

theorem top_enclosure {st : State} (h : NoTemplate st) : st.top.enclosure ≠ .substitution := by
  unfold State.top
  cases hf : st.frames with
  | nil => simp [Frame.opened]
  | cons f fs => exact h f (by simp [hf])

theorem set_top_closed {st : State} (h : NoTemplate st) {f : Frame}
    (hf : f.enclosure ≠ .substitution) : NoTemplate (st.setTop f) := by
  intro g hg
  rcases List.mem_cons.1 hg with rfl | hg
  · exact hf
  · exact h g (List.mem_of_mem_tail hg)

theorem push_closed {st : State} (h : NoTemplate st) {f : Frame} (p : Place)
    (hf : f.enclosure ≠ .substitution) : NoTemplate (st.push f p) := by
  intro g hg
  rcases List.mem_cons.1 hg with rfl | hg
  · exact hf
  · exact h g hg

theorem to_brace_closed {st : State} (h : NoTemplate st) : NoTemplate st.toBrace :=
  fun f hf => h f ((List.dropWhile_suffix _).subset hf)

theorem not_in_substitution {st : State} (h : NoTemplate st) : st.inSubstitution = false := by
  have := top_enclosure (to_brace_closed h)
  simpa [State.inSubstitution] using this

/-- A state right after a token that opened no template. -/
structure AfterToken (st : State) : Prop where
  fresh : st.fresh = false
  closed : NoTemplate st

section

variable {st : State} (h : NoTemplate st)
include h

theorem at_after (p : Place) : AfterToken (st.at_ p) := ⟨rfl, h⟩

theorem value_after : AfterToken st.value := at_after h _

theorem top_after {f : Frame} (hf : f.enclosure ≠ .substitution) (p : Place) :
    AfterToken ((st.setTop f).at_ p) := ⟨rfl, set_top_closed h hf⟩

theorem push_after {f : Frame} (hf : f.enclosure ≠ .substitution) (p : Place) :
    AfterToken (st.push f p) := ⟨rfl, push_closed h p hf⟩

theorem name_after (w : Text) : AfterToken (st.name w) := by
  have htop := top_enclosure h
  unfold State.name State.keyword
  repeat' split
  all_goals first
    | exact at_after h _
    | exact top_after h (by exact htop) _

theorem open_brace_after : AfterToken st.openBrace := by
  have htop := top_enclosure h
  unfold State.openBrace
  repeat' split
  all_goals first
    | exact push_after h (by simp [Frame.opened]) _
    | exact push_after (set_top_closed h (by exact htop)) (by simp [Frame.opened]) _

theorem open_round_after : AfterToken st.openRound := by
  unfold State.openRound
  split <;> exact push_after h (by simp [Frame.opened]) _

theorem open_square_after : AfterToken st.openSquare :=
  push_after h (by simp [Frame.opened]) _

theorem close_after (es : List Enclosure) : AfterToken (st.close es) := by
  unfold State.close
  split
  · next f g fs hf =>
    split
    · exact ⟨rfl, fun x hx => h x (by rw [hf]; exact List.mem_cons_of_mem f hx)⟩
    · exact at_after h _
  · exact at_after h _

theorem close_brace_after : AfterToken st.closeBrace := by
  have hb := to_brace_closed h
  unfold State.closeBrace
  split
  · next f g fs hf =>
    split
    · exact at_after h _
    · exact ⟨rfl, fun x hx => hb x (by rw [hf]; exact List.mem_cons_of_mem f hx)⟩
  · exact ⟨rfl, hb⟩

theorem colon_after : AfterToken st.colon := by
  have htop := top_enclosure h
  unfold State.colon
  simp only
  split
  · exact top_after h (by exact htop) _
  · exact at_after h _

theorem star_after : AfterToken st.star := by
  unfold State.star
  split <;> exact at_after h _

theorem mark_step_after (c : Char) (cs : Text) : AfterToken (markStep st c cs).state := by
  have htop := top_enclosure h
  unfold markStep
  repeat' split
  all_goals first
    | exact at_after h _
    | exact open_brace_after h
    | exact open_round_after h
    | exact open_square_after h
    | exact close_after h _
    | exact close_brace_after h
    | exact colon_after h
    | exact star_after h
    | exact top_after h (by exact htop) _

end

theorem mark_step_kind (st : State) (c : Char) (cs : Text) : (markStep st c cs).kind = .mark := by
  unfold markStep
  repeat' split
  all_goals rfl

theorem mark_step_unquoted (st : State) (c : Char) (cs : Text) :
    ∀ d ∈ cs.take (markStep st c cs).more, isQuote d = false := by
  unfold markStep
  repeat' split
  all_goals simp [isQuote]

/-! One lexeme, and all of them. -/

/-- A lexeme that is no part of a template. -/
def Whole (k : Kind) : Prop := ∀ part, k ≠ .template part

theorem scan_prefix {m n : Post} {u v : Text} (h : scan m (u ++ v) = some n) :
    ∃ k, scan m u = some k := by
  rw [scan_append] at h
  cases hk : scan m u with
  | none => simp [hk] at h
  | some k => exact ⟨k, rfl⟩

/-- What the automaton makes of a lexeme. -/
structure Reads (s : Step) (m : Post) (c : Char) (cs : Text) : Prop where
  whole : Whole s.kind
  goes : ∃ k, scan m (c :: cs.take s.more) = some k ∧ Agree s.state k
  marks : quoteMask m (c :: cs.take s.more) =
    List.replicate (c :: cs.take s.more).length (!s.kind.isLiteral)

/-- A lexeme of code without a quote. -/
theorem code_reads {s : Step} {m n : Post} {c : Char} {cs : Text} (hm : m.inString = false)
    (h : scan m (c :: cs) = some n) (hc : isQuote c = false)
    (hcs : ∀ d ∈ cs.take s.more, isQuote d = false)
    (hkind : s.kind = .name ∨ s.kind = .number ∨ s.kind = .mark) (hst : AfterToken s.state) :
    Reads s m c cs := by
  have hcut : c :: cs = (c :: cs.take s.more) ++ cs.drop s.more := by simp
  rw [hcut] at h
  obtain ⟨k, hk⟩ := scan_prefix h
  obtain ⟨hout, hmask⟩ := scan_unquoted hm (by simpa [hc] using hcs) hk
  refine ⟨?_, ⟨k, hk, hout, fun hf => ?_, hst.closed⟩, ?_⟩
  · intro part hp
    rw [hp] at hkind
    simp at hkind
  · rw [hst.fresh] at hf
    exact absurd hf (by simp)
  · rw [hmask]
    rcases hkind with hk | hk | hk <;> rw [hk] <;> rfl

theorem take_run (p : Char → Bool) (cs : Text) :
    cs.take (cs.takeWhile p).length = cs.takeWhile p :=
  (List.prefix_iff_eq_take.1 (List.takeWhile_prefix p)).symm

theorem not_quote_of {p : Char → Bool} (hp : p '\x22' = false ∧ p '\x27' = false) {c : Char}
    (hc : p c = true) : isQuote c = false := by
  simp only [isQuote, Bool.or_eq_false_iff, beq_eq_false_iff_ne]
  constructor <;> rintro rfl <;> simp [hp] at hc

theorem run_unquoted {p : Char → Bool} (hp : p '\x22' = false ∧ p '\x27' = false) (cs : Text) :
    ∀ d ∈ cs.take (cs.takeWhile p).length, isQuote d = false := by
  rw [take_run]
  intro d hd
  exact not_quote_of hp (List.all_eq_true.1 List.all_takeWhile _ hd)

theorem scan_spaces {m : Post} {u : Text} (hm : m = .fresh ∨ m = .behind)
    (hu : ∀ c ∈ u, isSpace c = true) : scan m u = some m := by
  induction u with
  | nil => rfl
  | cons c u ih =>
    have hc := hu c (by simp)
    have hnl : isNewline c = false := by
      simp only [isSpace, Bool.and_eq_true, Bool.not_eq_true'] at hc
      exact hc.1
    have hquote : isQuote c = false := not_quote_of (p := isSpace) (by decide) hc
    have hnot : c ≠ '\x60' ∧ c ≠ '/' := by
      refine ⟨?_, ?_⟩ <;> rintro rfl <;> revert hc <;> decide
    have hnext : m.next c = some m := by
      rcases hm with rfl | rfl <;> simp [Post.next, Post.plainNext, hnl, hc, hquote, hnot]
    rw [scan, hnext]
    exact ih fun d hd => hu d (by simp [hd])

theorem newline_reads {st : State} {m : Post} {c : Char} (ha : Agree st m) (cs : Text)
    (hc : isNewline c = true) : Reads ⟨.blank, 0, st.blank true⟩ m c cs := by
  have hquote : isQuote c = false := not_quote_of (p := isNewline) (by decide) hc
  have hnot : c ≠ '\x60' ∧ c ≠ '/' := by
    refine ⟨?_, ?_⟩ <;> rintro rfl <;> revert hc <;> decide
  have hnext : m.next c = some .fresh := by
    simp [Post.next_plain ha.outside, Post.plainNext, hc, hquote, hnot]
  refine ⟨fun _ h => by simp at h, ⟨.fresh, by simp [scan, hnext], rfl, fun _ => rfl, ha.closed⟩, ?_⟩
  simp [quoteMask, ha.outside, hquote, Kind.isLiteral]

theorem space_reads {st : State} {m n : Post} {c : Char} {cs : Text} (ha : Agree st m)
    (h : scan m (c :: cs) = some n) (hc : isSpace c = true) :
    Reads ⟨.blank, (cs.takeWhile isSpace).length, st⟩ m c cs := by
  have hcut : c :: cs = (c :: cs.takeWhile isSpace) ++ cs.dropWhile isSpace := by simp
  have hall : ∀ d ∈ c :: cs.takeWhile isSpace, isSpace d = true := by
    intro d hd
    rcases List.mem_cons.1 hd with rfl | hd
    · exact hc
    · exact List.all_eq_true.1 List.all_takeWhile d hd
  have hno : ∀ d ∈ c :: cs.takeWhile isSpace, isQuote d = false :=
    fun d hd => not_quote_of (p := isSpace) (by decide) (hall d hd)
  rw [hcut] at h
  obtain ⟨k, hk⟩ := scan_prefix h
  obtain ⟨hout, hmask⟩ := scan_unquoted ha.outside hno hk
  refine ⟨fun _ h => by simp at h, ⟨k, by rw [take_run]; exact hk, hout, fun hf => ?_, ha.closed⟩, ?_⟩
  · have hm := ha.fresh hf
    rw [scan_spaces (Or.inl hm) hall] at hk
    simpa [hm] using hk.symm
  · rw [take_run, hmask]
    rfl

theorem string_reads {st : State} {m n : Post} {q : Char} {cs : Text} (ha : Agree st m)
    (hq : isQuote q = true) (hn : n.inString = false) (h : scan m (q :: cs) = some n) :
    Reads (match stringLength? q cs with
      | some k => ⟨.string, k, st.value⟩
      | none => ⟨.mark, 0, st.value⟩) m q cs := by
  have hnext : m.next q = some (.quoted q) := by
    simp [Post.next_plain ha.outside, Post.plainNext, hq]
  rw [scan, hnext] at h
  obtain ⟨u, v, rfl, hs, hmask, hlen⟩ := scan_string hn h
  have htake : (u ++ q :: v).take (u.length + 1) = u ++ [q] := by
    rw [List.append_cons, List.take_left' (by simp)]
  rw [hlen (by rintro rfl; simp [isQuote] at hq)]
  refine ⟨fun _ h => by simp at h, ⟨.behind, ?_, rfl, fun hf => ?_, ha.closed⟩, ?_⟩
  · simp only [htake]
    rw [scan, hnext]
    exact hs
  · simp [State.value, State.at_] at hf
  · simp only [htake]
    rw [quoteMask, hnext, Option.getD_some, hmask]
    simp [hq, Kind.isLiteral, List.replicate_succ]

/-- The lexer's step on a text that the automaton reads to its end. -/
theorem step_reads {st : State} {m n : Post} {c : Char} {cs : Text} (ha : Agree st m)
    (hn : n.inString = false) (h : scan m (c :: cs) = some n) : Reads (step st c cs) m c cs := by
  have hm := ha.outside
  have hcode : isQuote c = false → c ≠ '\x60' ∧ c ≠ '/' := by
    intro hq
    by_cases hbad : c = '\x60' ∨ c = '/'
    · simp [scan, Post.next_plain hm, Post.plainNext, hq, hbad] at h
    · simpa [not_or] using hbad
  unfold step
  refine iteInduction (motive := fun s => Reads s m c cs) (newline_reads ha cs) fun _ => ?_
  refine iteInduction (motive := fun s => Reads s m c cs) (space_reads ha h) fun _ => ?_
  refine iteInduction (motive := fun s => Reads s m c cs) (fun hc => ?_) fun _ => ?_
  · refine code_reads hm h ?_ (run_unquoted (by decide) cs) (by simp) (value_after ha.closed)
    simp only [isQuote, Bool.or_eq_false_iff, beq_eq_false_iff_ne]
    constructor <;> rintro rfl <;> simp [Text.isDigit] at hc
  refine iteInduction (motive := fun s => Reads s m c cs) (fun hc => ?_) fun _ => ?_
  · exact code_reads hm h (not_quote_of (p := isNameChar) (by decide) hc)
      (run_unquoted (by decide) cs) (by simp) (name_after ha.closed _)
  cases hq : isQuote c with
  | true =>
    have hq' : (c == '\x22' || c == '\x27') = true := hq
    rw [if_pos hq']
    exact string_reads ha hq hn h
  | false =>
    obtain ⟨h1, h2⟩ := hcode hq
    have hq' : (c == '\x22' || c == '\x27') = false := hq
    have hdash : c = '-' → st.fresh = true → Text.startsWith cs ['-', '>'] = false := by
      rintro rfl hf
      by_contra hs
      rw [Bool.not_eq_false] at hs
      obtain ⟨r, hr⟩ := Option.isSome_iff_exists.1 hs
      rw [Text.after?_eq_some.1 hr, ha.fresh hf] at h
      simp [scan, Post.next, Post.plainNext, isQuote, isNewline, isSpace, Text.isBlank] at h
    have hmark : Reads (markStep st c cs) m c cs :=
      code_reads hm h hq (mark_step_unquoted st c cs) (by simp [mark_step_kind])
        (mark_step_after ha.closed c cs)
    have hcomment : ¬((c == '-' && st.fresh && Text.startsWith cs ['-', '>']) = true) := by
      simp only [Bool.and_eq_true, beq_iff_eq]
      rintro ⟨⟨hc, hf⟩, hs⟩
      simp [hdash hc hf] at hs
    simpa [hq', h1, h2, not_in_substitution ha.closed, hcomment] using hmark

/-- Lexemes that are no parts of templates stay as they are. -/
theorem settle_front {xs : List Lexeme} (h : ∀ x ∈ xs, Whole x.kind) (ys : List Lexeme) :
    (settle (xs ++ ys)).1 = xs ++ (settle ys).1 := by
  induction xs with
  | nil => rfl
  | cons x xs ih =>
    have hx := h x (by simp)
    have ih := ih fun y hy => h y (by simp [hy])
    rw [List.cons_append, settle]
    simp only
    split
    · next hk => exact absurd hk (hx _)
    · next hk => exact absurd hk (hx _)
    · next hk => exact absurd hk (hx _)
    · rw [ih]
      rfl

theorem settle_whole {xs : List Lexeme} (h : ∀ x ∈ xs, Whole x.kind) : (settle xs).1 = xs := by
  simpa [settle] using settle_front h []

theorem lexemes_scan {st : State} {m n : Post} {t : Text} (ha : Agree st m)
    (hn : n.inString = false)
    (h : scan m t = some n) :
    (∀ x ∈ lexemesFrom st t, Whole x.kind) ∧ maskOf (lexemesFrom st t) = quoteMask m t := by
  fun_induction lexemesFrom st t generalizing m with
  | case1 st => simp [maskOf, quoteMask]
  | case2 st c cs s =>
    rename_i ih
    obtain ⟨hwhole, ⟨k, hk, hagree⟩, hmarks⟩ : Reads s m c cs := step_reads ha hn h
    have hcut : c :: cs = (c :: cs.take s.more) ++ cs.drop s.more := by simp
    rw [hcut, scan_append, hk] at h
    obtain ⟨ih1, ih2⟩ := ih hagree h
    constructor
    · intro x hx
      rcases List.mem_cons.1 hx with rfl | hx
      · exact hwhole
      · exact ih1 x hx
    · conv_rhs => rw [hcut, mask_append hk, hmarks, ← ih2]
      simp [maskOf]

theorem start_agrees {m : Post} (hm : m = .fresh) : Agree .start m := by
  subst hm
  refine ⟨rfl, fun _ => rfl, ?_⟩
  intro f hf
  simp only [State.start, List.mem_singleton] at hf
  simp [hf, Frame.opened]

theorem newline_scan {m : Post} (hm : m.inString = false) (u : Text) :
    scan m ('\n' :: u) = scan .fresh ('\n' :: u) ∧
      quoteMask m ('\n' :: u) = quoteMask .fresh ('\n' :: u) := by
  have h : ∀ k : Post, k.inString = false → k.next '\n' = some .fresh :=
    fun k hk => by simp [Post.next_plain hk, Post.plainNext, isNewline, isQuote]
  constructor
  · rw [scan, scan, h m hm, h .fresh rfl]
  · simp [quoteMask, h m hm, h .fresh rfl, hm, show Post.fresh.inString = false from rfl]

/-- On a text that the automaton reads to its end, and whose first line holds no string if it
names an interpreter, the code is what is outside strings. -/
theorem code_mask_scan {n : Post} {t : Text} (h : scan .fresh t = some n) (hn : n.inString = false)
    (hfirst : ∀ u, t = '#' :: '!' :: u → ∀ c ∈ u.takeWhile (· != '\n'), isQuote c = false) :
    codeMask t = quoteMask .fresh t := by
  unfold codeMask lexemes
  split
  · next u =>
    have hu := hfirst u rfl
    have hcut : '#' :: '!' :: u = ('#' :: '!' :: u.takeWhile (· != '\n')) ++
        u.dropWhile (· != '\n') := by simp
    rw [hcut] at h
    obtain ⟨k, hk⟩ := scan_prefix h
    have hline : ∀ c ∈ '#' :: '!' :: u.takeWhile (· != '\n'), isQuote c = false := by
      intro c hc
      rcases List.mem_cons.1 hc with rfl | hc
      · rfl
      · rcases List.mem_cons.1 hc with rfl | hc
        · rfl
        · exact hu c hc
    obtain ⟨hout, hmask⟩ := scan_unquoted rfl hline hk
    rw [scan_append, hk, Option.bind_some] at h
    have hrest : maskOf (settle (lexemesFrom .start (u.dropWhile (· != '\n')))).1 =
        quoteMask k (u.dropWhile (· != '\n')) := by
      cases hd : u.dropWhile (· != '\n') with
      | nil => simp [lexemesFrom, settle, maskOf, quoteMask]
      | cons d r =>
        have hhead := List.head?_dropWhile_not (· != '\n') u
        rw [hd] at hhead h
        have hdn : d = '\n' := by simpa using hhead
        subst hdn
        rw [(newline_scan hout r).1] at h
        obtain ⟨h1, h2⟩ := lexemes_scan (start_agrees rfl) hn h
        rw [settle_whole h1, h2, (newline_scan hout r).2]
    rw [hcut, mask_append hk, hmask, ← hrest]
    simp [maskOf, Kind.isLiteral]
  · obtain ⟨h1, h2⟩ := lexemes_scan (start_agrees rfl) hn h
    rw [settle_whole h1, h2]

/-- The characters that open a literal. -/
def opensLiteral (c : Char) : Bool := c == '\x22' || c == '\x27' || c == '\x60' || c == '/'

/-- A text without such a character and without an arrow of dashes. -/
def Bare (t : Text) : Prop := (∀ c ∈ t, opensLiteral c = false) ∧ ¬ "-->".toList <:+: t

/-- How much of an arrow has been read before a place. -/
def Post.arrow : Post → Text
  | dash => ['-']
  | dashes => ['-', '-']
  | _ => []

theorem opens_not_quote {c : Char} (hc : opensLiteral c = false) : isQuote c = false := by
  simp only [opensLiteral, Bool.or_eq_false_iff] at hc
  simp [isQuote, hc]

theorem scan_bare {m : Post} {t : Text} (hm : m.inString = false)
    (ht : ∀ c ∈ t, opensLiteral c = false) (ha : ¬ "-->".toList <:+: m.arrow ++ t) :
    ∃ n, n.inString = false ∧ scan m t = some n := by
  induction t generalizing m with
  | nil => exact ⟨m, hm, rfl⟩
  | cons c t ih =>
    have hc := ht c (by simp)
    have hquote := opens_not_quote hc
    simp only [opensLiteral, Bool.or_eq_false_iff, beq_eq_false_iff_ne] at hc
    obtain ⟨⟨_, h3⟩, h4⟩ := hc
    have hnext : ∃ k, m.next c = some k ∧ k.arrow ++ t <:+ m.arrow ++ c :: t := by
      have hdrop : t <:+ m.arrow ++ c :: t :=
        (List.suffix_cons c t).trans (List.suffix_append m.arrow _)
      simp only [Post.next_plain hm, Post.plainNext, hquote, h3, h4, or_self, if_false,
        Bool.false_eq_true]
      by_cases hnl : isNewline c = true
      · exact ⟨.fresh, by simp [hnl], hdrop⟩
      by_cases hsp : isSpace c = true
      · refine ⟨if m = .fresh then .fresh else .behind, by simp [hnl, hsp], ?_⟩
        split <;> exact hdrop
      by_cases hd : c = '-'
      · subst hd
        refine ⟨if m = .fresh then .dash else if m = .dash then .dashes else .behind,
          by simp [isNewline, isSpace, Text.isBlank], ?_⟩
        cases m <;> simp [Post.arrow, List.suffix_cons_iff]
      · have harrow : ¬(c = '>' ∧ m = .dashes) := by
          rintro ⟨rfl, rfl⟩
          exact ha ⟨[], t, rfl⟩
        exact ⟨.behind, by simp [hnl, hsp, hd, harrow], hdrop⟩
    obtain ⟨k, hk, hsuffix⟩ := hnext
    have hak : ¬ "-->".toList <:+: k.arrow ++ t := fun hx => ha (hx.trans hsuffix.isInfix)
    obtain ⟨n, hn, hs⟩ := ih (next_unquoted hm hquote hk) (fun d hd => ht d (by simp [hd])) hak
    exact ⟨n, hn, by rw [scan, hk]; exact hs⟩

theorem code_mask_plain {t : Text} (ht : Bare t) : codeMask t = List.replicate t.length true := by
  obtain ⟨n, hn, h⟩ := scan_bare (m := .fresh) rfl ht.1 (by simpa [Post.arrow] using ht.2)
  have hno : ∀ c ∈ t, isQuote c = false := fun c hc => opens_not_quote (ht.1 c hc)
  rw [code_mask_scan h hn]
  · exact (scan_unquoted rfl hno h).2
  · rintro u rfl c hc
    exact hno c (by simp [(List.takeWhile_prefix _).subset hc])

theorem is_code_plain {t : Text} (ht : Bare t) (i : Nat) : isCode t i = true := by
  rw [isCode, code_mask_plain ht, List.getD_eq_getElem?_getD, List.getElem?_replicate]
  split <;> rfl

end Restage.Script
