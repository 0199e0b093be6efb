import Restage.Proofs.CarriedWords
import Restage.Proofs.DefinitionForest
import Restage.Proofs.LeadingTrivia
import Restage.Proofs.SetupForm

/-!
What follows a converted definition. The class that a definition becomes is a value, and its footer
takes the semicolon with it, so what follows goes on with the class if it begins as a call, an index, a
division or a template does. The edits behind the footer do not bring that about and do not prevent it
(`footer_joins_iff`): the source decides. A call behind the semicolon calls the class
(`class_called`).
-/

set_option autoImplicit false

namespace Restage

namespace Script

/-- Where the lexer stands behind a value. -/
def State.behindValue : State := State.start.at_ .operator

/-- A token that begins so goes on with the value in front of it. -/
def joins (c : Char) : Bool := c == '(' || c == '[' || c == '/' || c == '\x60'

/-- Whether a text goes on with a value in front of it. -/
def continuesValue (t : Text) : Bool :=
  (firstFrom .behindValue t).any fun x => x.text.head?.any joins

/-- The characters that replaced texts and replacements begin with. -/
def Opens (c : Char) : Prop := Text.isNameStart c = true ∨ c = '}'

/-- They are neither blank nor any character that a comment or a continued value begins with. -/
theorem opens_plain {c : Char} (h : Opens c) : isNewline c = false ∧ isSpace c = false ∧
    c ∉ ['/', '-', '*', '>'] ∧ joins c = false := by
  rcases h with h | rfl
  · have hnot : ∀ x ∈ ['/', '-', '*', '>', '(', '[', '\x60'], Text.isNameStart x = false := by decide
    have hne : ∀ x ∈ ['/', '-', '*', '>', '(', '[', '\x60'], c ≠ x := by
      rintro x hx rfl
      simp [hnot c hx] at h
    obtain ⟨h1, h2⟩ := Text.unspaced (p := Text.isNameStart) (by decide) (by decide) h
    refine ⟨h1, h2, fun hin => hne c ?_ rfl, ?_⟩
    · simp only [List.mem_cons, List.not_mem_nil, or_false] at hin ⊢
      tauto
    · simp only [joins, Bool.or_eq_false_iff, beq_eq_false_iff_ne]
      exact ⟨⟨⟨hne _ (by simp), hne _ (by simp)⟩, hne _ (by simp)⟩, hne _ (by simp)⟩
  · decide

section

variable {st : State} {c : Char} {cs : Text}

theorem first_head (h : (step st c cs).kind.isTrivia = false) :
    (firstFrom st (c :: cs)).any (fun x => x.text.head?.any joins) = joins c := by
  rw [first_token h]
  rfl

/-- Behind indentation a character of that kind begins the first token. -/
theorem opens_first {ind : Text} (hind : ∀ d ∈ ind, Piece.isIndent d = true) (hc : Opens c) :
    (firstFrom st (ind ++ c :: cs)).any (fun x => x.text.head?.any joins) = false := by
  obtain ⟨hline, hspace, hmarks, hjoins⟩ := opens_plain hc
  induction ind with
  | nil =>
    rw [List.nil_append, first_head, hjoins]
    rw [← Bool.not_eq_true, trivia_iff]
    rintro (h | h | (⟨rfl, _⟩ | ⟨rfl, _⟩) | ⟨⟨rfl, _⟩, _⟩)
    · exact Bool.noConfusion (hline.symm.trans h)
    · exact Bool.noConfusion (hspace.symm.trans h)
    · exact hmarks (by simp)
    · exact hmarks (by simp)
    · exact hmarks (by simp)
  | cons d ind ih =>
    have hd : isSpace d = true := by
      have := hind d (by simp)
      simp only [Piece.isIndent, Bool.or_eq_true, beq_iff_eq] at this
      rcases this with rfl | rfl <;> decide
    rw [List.cons_append, (first_space hd _).1]
    exact ih fun e he => hind e (by simp [he])

theorem block_closed_iff {t : Text} :
    (blockCommentLength? t).isSome = true ↔ "*/".toList <:+: t := by
  fun_induction blockCommentLength? t with
  | case1 => simp
  | case2 t => simpa using (List.prefix_append ['*', '/'] t).isInfix
  | case3 c cs hclose ih =>
    rw [Option.isSome_map, ih, List.infix_cons_iff]
    refine ⟨Or.inr, fun h => h.resolve_left ?_⟩
    rintro ⟨r, hr⟩
    obtain ⟨hc, hcs⟩ := List.cons.inj (show '*' :: '/' :: r = c :: cs from hr)
    exact hclose r hc.symm hcs.symm

/-- A blank or a comment is one already with another text behind its first character, if the marks of
comments at the front of that text are there too and it closes a comment too. -/
theorem trivia_stays {w w' : Text}
    (hmarks : c ≠ '\n' → ∀ q : Text, (∀ x ∈ q, x ∈ ['/', '-', '*', '>']) → q <+: w' → q <+: w)
    (hclose : ∀ m m', c ≠ '\n' → w = '*' :: m → w' = '*' :: m' →
      "*/".toList <:+: m' → "*/".toList <:+: m)
    (h : TriviaOpens st c w') : TriviaOpens st c w := by
  have hhead : ∀ {x : Char} {v : Text}, v.head? = some x ↔ [x] <+: v := by
    intro x v
    cases v <;> simp [eq_comm]
  rcases h with h | h | (⟨rfl, h⟩ | ⟨rfl, hfresh, h⟩) | ⟨⟨rfl, h⟩, hclosed⟩
  · exact Or.inl h
  · exact Or.inr (Or.inl h)
  · exact Or.inr (Or.inr (Or.inl (Or.inl
      ⟨rfl, hhead.2 (hmarks (by decide) ['/'] (by decide) (hhead.1 h))⟩)))
  · exact Or.inr (Or.inr (Or.inl (Or.inr ⟨rfl, hfresh, Legacy.Setup.starts_iff.2
      (hmarks (by decide) "->".toList (by decide) (Legacy.Setup.starts_iff.1 h))⟩)))
  · obtain ⟨m', rfl⟩ := hhead.1 h
    obtain ⟨m, rfl⟩ := hmarks (by decide) ['*'] (by decide) (hhead.1 h)
    exact Or.inr (Or.inr (Or.inr
      ⟨⟨rfl, rfl⟩, block_closed_iff.2 (hclose m m' (by decide) rfl rfl (block_closed_iff.1 hclosed))⟩))

end

end Script

open Script

/-- An edit puts a token in the place of a token, with the same indentation in front, if any, which is
that of a line. -/
def Edit.Opens (t : Text) (e : Edit) : Prop :=
  ∃ ind a r b r', t.drop e.span.start = ind ++ a :: r ∧ e.text = ind ++ b :: r' ∧
    (∀ c ∈ ind, Piece.isIndent c = true) ∧ Script.Opens a ∧ Script.Opens b ∧
    (ind = [] ∨ ∀ x, (t.take e.span.start).getLast? = some x → x = '\n')

namespace Edit

variable {t u w : Text} {k : Nat} {c : Char} {e : Edit}

/-- Marks at the front of an edited text were there before. -/
theorem marks_stay {q A R : Text} (he : Opens t e) (hc : c ≠ '\n')
    (hcut : t.take e.span.start = u ++ c :: A) (hq : ∀ x ∈ q, ¬ Script.Opens x ∧ x ≠ '\n')
    (h : q <+: A ++ (e.text ++ R)) : q <+: A := by
  obtain ⟨ind, a, r, b, r', _, htext, _, _, hb, hline⟩ := he
  obtain ⟨s, hs⟩ := h
  rcases List.append_eq_append_iff.1 hs with ⟨x, rfl, _⟩ | ⟨x, rfl, hx⟩
  · exact List.prefix_append q x
  · cases x with
    | nil => rw [List.append_nil]
    | cons y x =>
      exfalso
      rcases hline with rfl | hline
      · rw [htext] at hx
        obtain rfl : b = y := (List.cons.inj hx).1
        exact (hq b (by simp)).1 hb
      · have hsome : (c :: A).getLast? = some ((c :: A).getLast (List.cons_ne_nil c A)) :=
          List.getLast?_eq_some_getLast _
        have hlast := hline ((c :: A).getLast (List.cons_ne_nil c A)) (by
          rw [hcut, List.getLast?_append_of_ne_nil _ (List.cons_ne_nil c A), hsome])
        rcases List.mem_cons.1 (List.getLast_mem (List.cons_ne_nil c A)) with hmem | hmem
        · exact hc (hmem ▸ hlast)
        · exact (hq _ (List.mem_append_left _ hmem)).2 hlast

/-- A splice passes over the characters in front of its first edit. -/
theorem splice_passed {i : Nat} {v r : Text} {es : List Edit} (hv : t.drop i = v ++ r)
    (hb : Behind (i + v.length) es) :
    t.drop (i + v.length) = r ∧
      splice i (t.drop i) es = v ++ splice (i + v.length) (t.drop (i + v.length)) es := by
  have hdrop : t.drop (i + v.length) = r := by rw [← List.drop_drop, hv, List.drop_left]
  exact ⟨hdrop, by rw [hv, splice_keep i v r hb, hdrop]⟩

theorem take_passed {n : Nat} (hcut : t.drop k = u ++ c :: w) (hn : k + u.length < n) :
    t.take n = (t.take k ++ u) ++ c :: w.take (n - (k + (u.length + 1))) := by
  have hwithin : k < t.length := by
    have hlength := congrArg List.length hcut
    rw [List.length_drop, List.length_append, List.length_cons] at hlength
    omega
  have hall : t = (t.take k ++ (u ++ [c])) ++ w := by
    rw [List.append_assoc, List.append_assoc, List.singleton_append, ← hcut, List.take_append_drop]
  have hfront : (t.take k ++ (u ++ [c])).length = k + (u.length + 1) := by
    rw [List.length_append, List.length_append, List.length_singleton, List.length_take,
      Nat.min_eq_left (Nat.le_of_lt hwithin)]
  conv_lhs => rw [hall, List.take_append, List.take_of_length_le (by omega), hfront]
  simp

/-- A token that edits follow stays one, if no comment is closed by them. -/
theorem token_stays {st : State} {es : List Edit} (ha : Along k t.length (e :: es))
    (he : Opens t e)
    (hclose : ∀ i, k ≤ i → i ≤ e.span.start →
      "*/".toList <:+: splice i (t.drop i) (e :: es) → "*/".toList <:+: t.drop i)
    (hcut : t.drop k = u ++ c :: w) (hu : k + u.length < e.span.start)
    (htoken : (step st c w).kind.isTrivia = false) :
    ∃ w', splice k (t.drop k) (e :: es) = u ++ c :: w' ∧ (step st c w').kind.isTrivia = false := by
  have hbehind : ∀ i, i ≤ e.span.start → Behind i (e :: es) := fun i hi =>
    along_behind (j := t.length) ⟨hi, ha.2⟩
  have hfront : k + (u ++ [c]).length = k + (u.length + 1) := by simp
  obtain ⟨hdrop, hsplice⟩ := splice_passed (t := t) (i := k) (v := u ++ [c]) (r := w)
    (by simp [hcut]) (hbehind _ (by omega))
  rw [hfront] at hdrop hsplice
  rw [hdrop] at hsplice
  refine ⟨splice (k + (u.length + 1)) w (e :: es), by rw [hsplice]; simp, ?_⟩
  -- marks behind the token are those of the source
  have hmarks : c ≠ '\n' → ∀ q : Text, (∀ x ∈ q, x ∈ ['/', '-', '*', '>']) →
      q <+: splice (k + (u.length + 1)) w (e :: es) →
      q <+: w.take (e.span.start - (k + (u.length + 1))) := by
    intro hc q hq hpre
    rw [splice, List.append_assoc] at hpre
    refine marks_stay he hc (take_passed hcut hu)
      (fun x hx => ⟨fun ho => (opens_plain ho).2.2.1 (hq x hx), ?_⟩) hpre
    rintro rfl
    exact absurd (hq _ hx) (by decide)
  rw [← Bool.not_eq_true, trivia_iff] at htoken ⊢
  refine fun h => htoken (trivia_stays
    (fun hc q hq hpre => (hmarks hc q hq hpre).trans (List.take_prefix _ _)) ?_ h)
  rintro m m' hc rfl hm' hclosed
  -- an asterisk behind the token stands in front of the edit
  have hpre := hmarks hc ['*'] (by decide) ⟨m', hm'.symm⟩
  have hpos : k + (u.length + 1) + 1 ≤ e.span.start := by
    have := hpre.length_le
    rw [List.length_take, List.length_singleton] at this
    omega
  obtain ⟨hrest, hinner⟩ := splice_passed (v := ['*']) hdrop (hbehind _ hpos)
  rw [List.length_singleton] at hrest hinner
  rw [hdrop, hm', List.singleton_append] at hinner
  rw [(List.cons.inj hinner).2] at hclosed
  rw [← hrest]
  exact hclose _ (by omega) hpos hclosed

/-- Edits behind a value change nothing about whether a text goes on with it, if the first of them
stands in no comment at the front of the text. -/
theorem continues_splice {es : List Edit} (ha : Along k t.length es)
    (hopens : ∀ e ∈ es, Opens t e)
    (hclose : ∀ i, Behind i es → "*/".toList <:+: splice i (t.drop i) es →
      "*/".toList <:+: t.drop i)
    (hmask : ∀ e ∈ es,
      (leadMask .behindValue (t.drop k)).getD (e.span.start - k) true = true) :
    continuesValue (splice k (t.drop k) es) = continuesValue (t.drop k) := by
  cases es with
  | nil => rfl
  | cons e es =>
    have he := hopens e (by simp)
    obtain ⟨ind, a, r, b, r', hsource, htext, hind, hopen, hopen', _⟩ := id he
    have hk := ha.1
    have hdrop : (t.drop k).drop (e.span.start - k) = ind ++ a :: r := by
      rw [List.drop_drop, Nat.add_sub_cancel' hk, hsource]
    have hfirst : ∃ x, (t.drop k)[e.span.start - k]? = some x ∧ isNewline x = false := by
      rw [← List.head?_drop, hdrop]
      cases ind with
      | nil => exact ⟨a, rfl, (opens_plain hopen).1⟩
      | cons c ind =>
        refine ⟨c, rfl, ?_⟩
        have hc := hind c (by simp)
        simp only [Piece.isIndent, Bool.or_eq_true, beq_iff_eq] at hc
        rcases hc with rfl | rfl <;> decide
    obtain ⟨x, hx, hline⟩ := hfirst
    rcases lead_reached hx hline (hmask e (by simp)) with
      ⟨st, hlead⟩ | ⟨u, c, w, st, hcut, hu, hlead, htoken⟩
    · -- the edit stands where the first token begins
      have hbefore : continuesValue (t.drop k) = false := by
        rw [continuesValue, ← List.take_append_drop (e.span.start - k) (t.drop k), hlead, hdrop]
        exact opens_first hind hopen
      rw [hbefore, continuesValue, splice, List.append_assoc, hlead, htext, List.append_assoc]
      exact opens_first hind hopen'
    · -- the first token begins in front of it
      obtain ⟨w', hsplice, htoken'⟩ := token_stays ha he
        (fun i hi hle => hclose i (along_behind (j := t.length) ⟨hle, ha.2⟩)) hcut (by omega) htoken
      rw [hsplice, hcut, continuesValue, continuesValue, hlead, hlead, first_head htoken,
        first_head htoken']

end Edit

namespace Legacy

open Conversion Definition

/-- A header assigns to a member of the library or declares a variable. -/
theorem header_target {library : Text} {w : Window} {h : Hit} {exported : Bool}
    (hh : header? library w = some (h, exported)) :
    h.part 1 = library ++ ['.'] ∨ h.part 1 = "var".toList := by
  have hword : ∀ {a : Text} {q : Piece} {h : Hit}, (headerOf [.word a, q]).first? w = some h →
      h.part 1 = a := by
    intro a q h hfirst
    obtain ⟨_, _, _, _, _, hfit⟩ := Pattern.first_iff.1 hfirst
    obtain ⟨_, _, hread⟩ := Pattern.fits_some.1 hfit
    change Piece.readAll (_ :: _ :: _) _ = _ at hread
    obtain ⟨_, _, _, _, hread, hparts⟩ := Piece.readAll_cons_iff.1 hread
    obtain ⟨p, _, _, hsplit, _, rfl⟩ := Piece.readAll_cons_iff.1 hread
    obtain ⟨rfl, _⟩ := Piece.word_split_iff.1 hsplit
    rw [Hit.part, hparts]
    rfl
  rw [header?] at hh
  split at hh
  · next m v hm hv =>
    split at hh
    · simp only [Option.some.injEq, Prod.mk.injEq] at hh
      exact Or.inl (hword (hh.1 ▸ hm))
    · simp only [Option.some.injEq, Prod.mk.injEq] at hh
      exact Or.inr (hword (hh.1 ▸ hv))
  · next m hm _ =>
    simp only [Option.some.injEq, Prod.mk.injEq] at hh
    exact Or.inl (hword (hh.1 ▸ hm))
  · next v _ hv =>
    simp only [Option.some.injEq, Prod.mk.injEq] at hh
    exact Or.inr (hword (hh.1 ▸ hv))
  · simp at hh

/-- The target of a definition begins with a name. -/
theorem target_named {library t : Text} (hl : Text.isName library = true) {tree : List Definition}
    (h : findAll library t = .ok tree) : ∀ d ∈ walkAll tree, ∃ a r, d.target = a :: r ∧
      Text.isNameStart a = true := by
  intro d hd
  obtain ⟨start, stop, hplaced⟩ := find_all_placed h d hd
  obtain ⟨hit, hhead, hd⟩ := hplaced.begins
  obtain ⟨_, _, _, _, hd⟩ := of_header_ok hd
  have htarget : d.target = hit.part 1 ++ hit.part 2 ++ hit.part 4 := congrArg (·.target) hd
  obtain ⟨a, r, rfl, ha⟩ := Text.name_head hl
  rcases header_target hhead with hpart | hpart
  · exact ⟨a, _, by rw [htarget, hpart]; rfl, ha⟩
  · exact ⟨'v', _, by rw [htarget, hpart]; rfl, by decide⟩

section

variable {t : Text} {d : Definition} {x : Cut}

theorem header_opens (hx : CutIn t d x) {a : Char} {r : Text} (htarget : d.target = a :: r)
    (ha : Text.isNameStart a = true) (u : Text) : Edit.Opens t ⟨d.header, classHead d ++ u⟩ := by
  refine ⟨x.indent, a, r ++ (x.link ++ '(' :: (x.keyword ++ '(' :: (x.raw ++ ')' ::
    (x.gap ++ ['{'])))) ++ (x.inner ++ (x.foot ++ x.after)), a,
    r ++ " = class ".toList ++ d.name ++ " extends ".toList ++ d.base.text ++
      " \x7b\n".toList ++ x.indent ++ "    constructor(".toList ++ d.params ++
      ") \x7b".toList ++ u, ?_, ?_, hx.indented, Or.inl ha, Or.inl ha,
      Or.inr fun c hlast => header_line hx hlast⟩
  · rw [header_drop hx, Cut.head, ← hx.target, htarget]
    simp only [List.append_assoc, List.cons_append]
  · simp only [classHead, hx.indent, htarget, List.append_assoc, List.cons_append]

theorem footer_opens (hx : CutIn t d x) : Edit.Opens t ⟨d.footer, classFoot d⟩ :=
  ⟨[], '}', x.space ++ ')' :: x.tail ++ x.after, '}', '\n' :: d.indent ++ ['}'],
    by rw [footer_drop hx]; rfl, rfl, by simp, Or.inr rfl, Or.inr rfl, Or.inl rfl⟩

theorem call_opens {s : Span} (hs : CallIn t d s) : Edit.Opens t ⟨s, "super(".toList⟩ := by
  obtain ⟨_, u, arg, v, rfl, rfl, _, _⟩ := hs
  obtain ⟨c, w, hbase, hc⟩ : ∃ c w, d.base.text = c :: w ∧ Text.isNameStart c = true := by
    cases d.base <;> exact ⟨_, _, rfl, by decide⟩
  refine ⟨[], c, w ++ (".call(".toList ++ arg) ++ v, 's', "uper(".toList, ?_, rfl, by simp,
    Or.inl hc, Or.inl (by decide), Or.inl rfl⟩
  rw [List.drop_left, hbase]
  simp

/-- Every edit of a conversion puts a token in the place of a token. -/
theorem edits_open (h : Stands t d)
    (htarget : ∃ a r, d.target = a :: r ∧ Text.isNameStart a = true) :
    ∀ e ∈ edits d, Edit.Opens t e := by
  obtain ⟨⟨x, hx⟩, hcall⟩ := h
  obtain ⟨a, r, htarget, ha⟩ := htarget
  intro e he
  rw [edits] at he
  split at he
  · next s hs =>
    simp only [List.mem_cons, List.not_mem_nil, or_false] at he
    rcases he with rfl | rfl | rfl
    · exact call_opens (hcall s hs)
    · simpa using header_opens hx htarget ha []
    · exact footer_opens hx
  · simp only [List.mem_cons, List.not_mem_nil, or_false] at he
    rcases he with rfl | rfl
    · exact header_opens hx htarget ha _
    · exact footer_opens hx

end

/-- No edit of a conversion closes a comment. -/
theorem close_foreign : Foreign "*/".toList where
  nonempty := by decide
  head := fun a ha => by
    obtain rfl : '*' = a := by simpa using ha
    decide
  named := ⟨'*', by decide, by decide⟩
  gap := by decide
  round := by decide
  brace := by decide
  line := by decide
  call := Or.inr (by decide)

/-- What follows a converted definition goes on with its class exactly if what follows the definition
in the source begins so, unless an edit stands in a comment right behind the definition. -/
theorem footer_joins_iff {library t : Text} {c : Conversion} (hl : Text.isName library = true)
    (h : (convert library t).result = .ok c) {d : Definition} (hd : d ∈ c.definitions)
    (hclear : ∀ e ∈ c.definitions.flatMap edits, d.footer.stop ≤ e.span.start →
      (leadMask .behindValue (t.drop d.footer.stop)).getD (e.span.start - d.footer.stop) true =
        true) :
    ∃ front back, (front ++ ⟨d.footer, classFoot d⟩ :: back).Perm (c.definitions.flatMap edits) ∧
      Edit.Along 0 d.footer.start front ∧ Edit.Along d.footer.stop t.length back ∧
      c.text = Edit.splice 0 (t.take d.footer.start) front ++ (classFoot d ++
        Edit.splice d.footer.stop (t.drop d.footer.stop) back) ∧
      (continuesValue (Edit.splice d.footer.stop (t.drop d.footer.stop) back) = true ↔
        continuesValue (t.drop d.footer.stop) = true) := by
  obtain ⟨es, hperm, hascending, hwithin, htext⟩ := convert_splice h
  have hall : Edit.Along 0 t.length es := Edit.along_of_ascending hascending (Nat.zero_le _)
    fun e he => ⟨Nat.zero_le _, hwithin e he⟩
  obtain ⟨front, back, rfl⟩ := List.append_of_mem
    (hperm.mem_iff.2 (List.mem_flatMap.2 ⟨d, hd, foot_edit d⟩))
  obtain ⟨hfront, hback⟩ := Edit.along_parts hall
  refine ⟨front, back, hperm, hfront, hback, htext.trans (Edit.splice_parts hall), ?_⟩
  have hmem : ∀ e ∈ back, e ∈ c.definitions.flatMap edits := fun e he =>
    hperm.mem_iff.1 (by simp [he])
  obtain ⟨tree, htree, hdefs⟩ := convert_in_order h
  refine Bool.eq_iff_iff.1 (Edit.continues_splice hback (fun e he => ?_) (fun i hi hin => ?_)
    fun e he => hclear e (hmem e he) (Edit.along_mem hback he).1)
  · obtain ⟨b, hb, heb⟩ := List.mem_flatMap.1 (hmem e he)
    exact edits_open (convert_stands h b hb) (target_named hl htree b (hdefs ▸ hb)) e heb
  · exact stretch_word close_foreign h hmem hi (Edit.along_ascending hback) hin

/-- Two definitions with comments between them, and a call behind them. -/
def remarkedSource : Text :=
  ["lib.A = MovieClip.extend(function () \x7b\n", "    MovieClip.call(this);\n",
    "\x7d); // first\n", "/* second */\n", "    lib.B = Container.extend(function () \x7b\n",
    "        Container.call(this);\n", "    \x7d);\n", "(start)();\n"].flatMap (·.toList)

/-- The header behind the comments does not go on with the first class. -/
theorem remarked_footers : ∃ c, (convert "lib".toList remarkedSource).result = .ok c ∧
    ∃ d ∈ c.definitions, d.name = "A".toList ∧
      (∃ e ∈ c.definitions.flatMap edits, d.footer.stop ≤ e.span.start) ∧ ∃ front back,
      c.text = Edit.splice 0 (remarkedSource.take d.footer.start) front ++ (classFoot d ++
        Edit.splice d.footer.stop (remarkedSource.drop d.footer.stop) back) ∧
      continuesValue (Edit.splice d.footer.stop (remarkedSource.drop d.footer.stop) back) = false := by
  have hplace : (Definition.findAll "lib".toList remarkedSource).toOption.map (fun tree =>
      decide (∃ d ∈ Definition.walkAll tree, d.name = "A".toList ∧
        (∃ e ∈ (Definition.walkAll tree).flatMap edits, d.footer.stop ≤ e.span.start) ∧
        (∀ e ∈ (Definition.walkAll tree).flatMap edits, d.footer.stop ≤ e.span.start →
          (leadMask .behindValue (remarkedSource.drop d.footer.stop)).getD
            (e.span.start - d.footer.stop) true = true) ∧
        continuesValue (remarkedSource.drop d.footer.stop) = false)) = some true := by
    unfold remarkedSource
    simp only [List.flatMap_cons, List.flatMap_nil]
    repeat rw [String.toList_ofList]
    decide +kernel
  have hconverts : (splicedConversion "lib".toList remarkedSource).isSome = true := by decide +kernel
  obtain ⟨_, hspliced⟩ := Option.isSome_iff_exists.1 hconverts
  obtain ⟨c, hc, _, _⟩ := spliced_ok hspliced
  obtain ⟨tree, htree, hdefs⟩ := convert_in_order hc
  obtain ⟨tree', htree', hplace⟩ := Definition.find_all_ok hplace
  obtain rfl : tree = tree' := Except.ok.inj (htree.symm.trans htree')
  obtain ⟨d, hd, hname, hbehind, hclear, hstops⟩ := of_decide_eq_true hplace
  rw [← hdefs] at hd hclear hbehind
  obtain ⟨front, back, _, _, _, htext, hjoins⟩ := footer_joins_iff (by decide) hc hd hclear
  refine ⟨c, hc, d, hd, hname, hbehind, front, back, htext, ?_⟩
  rw [← Bool.not_eq_true, hjoins, hstops]
  exact Bool.false_ne_true

/-- A definition that ends with a semicolon, and a call behind it. -/
def calledSource : Text :=
  ["lib.A = MovieClip.extend(function () \x7b\n", "    MovieClip.call(this);\n", "\x7d);\n",
    "(function () \x7b\x7d)();\n"].flatMap (·.toList)

def classText : Text :=
  ["lib.A = class A extends MovieClip \x7b\n", "    constructor() \x7b\n",
    "    super();\n"].flatMap (·.toList)

/-- The class that it becomes is called. -/
theorem class_called : ∃ c, (convert "lib".toList calledSource).result = .ok c ∧
    ∃ d ∈ c.definitions, (calledSource.slice d.footer).getLast? = some ';' ∧ ∃ rest,
      c.text = classText ++ (classFoot d ++ rest) ∧ rest = calledSource.drop d.footer.stop ∧
      continuesValue rest = true := by
  have hplace : (Definition.findAll "lib".toList calledSource).toOption.map (fun tree =>
      decide (∃ d ∈ Definition.walkAll tree, (calledSource.slice d.footer).getLast? = some ';' ∧
        (splicedConversion "lib".toList calledSource).map (·.1) =
          some (classText ++ (classFoot d ++ calledSource.drop d.footer.stop)) ∧
        continuesValue (calledSource.drop d.footer.stop) = true)) = some true := by
    unfold calledSource classText
    simp only [List.flatMap_cons, List.flatMap_nil]
    repeat rw [String.toList_ofList]
    decide +kernel
  obtain ⟨tree, htree, hplace⟩ := Definition.find_all_ok hplace
  obtain ⟨d, hd, hlast, hspliced, hcalled⟩ := of_decide_eq_true hplace
  obtain ⟨⟨_, _, _⟩, hspliced, rfl⟩ := Option.map_eq_some_iff.1 hspliced
  obtain ⟨c, hc, htext, _⟩ := spliced_ok hspliced
  obtain ⟨tree', htree', hdefs⟩ := convert_in_order hc
  obtain rfl : tree = tree' := Except.ok.inj (htree.symm.trans htree')
  exact ⟨c, hc, d, hdefs ▸ hd, hlast, _, htext, rfl, hcalled⟩

end Legacy

end Restage
