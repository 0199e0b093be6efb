import Restage.Proofs.AddedLines
import Restage.Proofs.ConversionSplice

/-!
Counts of braces. A text whose brackets pair up opens as many braces as it closes (`balanced_net`), and
one brace closes another just if the code between them does so too and nowhere closes more than it has
opened (`close_from_cover`). The characters of a class in the literals of a script can be covered
(`veil`), after which all brackets of the text are its code's.
-/

set_option autoImplicit false

namespace Restage

namespace Script

/-- A text whose characters of a class are covered where a mask leaves them out. -/
def cover (p : Char → Bool) (t : Text) (bs : List Bool) : Text :=
  List.zipWith (fun c b => if !b && p c then ' ' else c) t bs

/-- A script with the characters of a class covered in its literals. -/
def veil (p : Char → Bool) (t : Text) : Text := cover p t (codeMask t)

def isBrace (c : Char) : Bool := c == '{' || c == '}'

section

variable {p : Char → Bool}

theorem length_cover {t : Text} {bs : List Bool} (h : bs.length = t.length) :
    (cover p t bs).length = t.length := by
  rw [cover, List.length_zipWith, h, Nat.min_self]

theorem length_veil (t : Text) : (veil p t).length = t.length := length_cover (length_codeMask t)

theorem cover_append {u v : Text} {bs cs : List Bool} (h : bs.length = u.length) :
    cover p (u ++ v) (bs ++ cs) = cover p u bs ++ cover p v cs := by
  rw [cover, List.zipWith_append h.symm]
  rfl

/-- A script without literals is not covered anywhere. -/
theorem veil_plain {t : Text} (h : Bare t) : veil p t = t := by
  have hcover : ∀ t : Text, cover p t (List.replicate t.length true) = t := fun t => by
    induction t with
    | nil => rfl
    | cons c t ih =>
      have hhead : cover p (c :: t) (List.replicate (c :: t).length true) =
          c :: cover p t (List.replicate t.length true) := rfl
      rw [hhead, ih]
  rw [veil, code_mask_plain h, hcover]

/-- A character of the class that shows is code. -/
theorem veil_code (hp : p ' ' = false) {t : Text} {i : Nat} {c : Char} (hc : p c = true)
    (h : (veil p t)[i]? = some c) : isCode t i = true := by
  obtain ⟨a, b, _, hmask, hshown⟩ := List.getElem?_zipWith_eq_some.1 h
  cases b with
  | true => rw [isCode, List.getD_eq_getElem?_getD, hmask, Option.getD_some]
  | false =>
    rw [Bool.not_false, Bool.true_and] at hshown
    split at hshown
    · rw [← hshown, hp] at hc
      exact Bool.noConfusion hc
    · next hplain => exact absurd (hshown ▸ hc) hplain

end

/-! Brackets of covered texts. -/

/-- What a mask leaves out has no part in how brackets pair up, and neither does what is covered. -/
theorem pair_cover (st : List Char) {t : Text} {bs : List Bool} (h : bs.length = t.length) :
    pairUp st (kept t bs) = pairUp st (cover isBracket t bs) := by
  have hfilter : (kept t bs).filter isBracket = (cover isBracket t bs).filter isBracket := by
    induction t generalizing bs with
    | nil => simp [kept, cover]
    | cons c t ih =>
      obtain ⟨b, bs, rfl⟩ := List.exists_cons_of_length_eq_add_one (by rw [h]; rfl)
      have hblank : isBracket ' ' = false := by decide
      have hrest := ih (by simpa using h)
      have hhead : cover isBracket (c :: t) (b :: bs) =
          (if !b && isBracket c then ' ' else c) :: cover isBracket t bs := rfl
      rw [hhead]
      cases b with
      | false =>
        have hkept : kept (c :: t) (false :: bs) = kept t bs := by simp [kept]
        rw [hkept, hrest]
        cases hc : isBracket c <;> simp [hc, hblank]
      | true =>
        have hkept : kept (c :: t) (true :: bs) = c :: kept t bs := by simp [kept]
        rw [hkept, List.filter_cons, hrest]
        simp [List.filter_cons]
  rw [← pair_brackets, hfilter, pair_brackets]

theorem balanced_code_iff {t : Text} : Balanced (codeText t) ↔ Balanced (veil isBracket t) := by
  rw [Balanced, code_text_kept, pair_cover [] (length_codeMask t)]
  rfl

/-! Counts. -/

theorem net_cons (c : Char) (t : Text) : net (c :: t) = net [c] + net t := net_append [c] t

theorem net_cover {p : Char → Bool} (hp : ∀ c, isBrace c = true → p c = true) {t : Text}
    {bs : List Bool} (h : bs.length = t.length) : net (kept t bs) = net (cover p t bs) := by
  induction t generalizing bs with
  | nil => simp [kept, cover]
  | cons c t ih =>
    obtain ⟨b, bs, rfl⟩ := List.exists_cons_of_length_eq_add_one (by rw [h]; rfl)
    have hrest := ih (by simpa using h)
    have hhead : cover p (c :: t) (b :: bs) =
        (if !b && p c then ' ' else c) :: cover p t bs := rfl
    rw [hhead]
    cases b with
    | false =>
      have hkept : kept (c :: t) (false :: bs) = kept t bs := by simp [kept]
      have hnone : net [if !false && p c then ' ' else c] = 0 := by
        by_cases hc : isBrace c = true
        · simp [hp c hc, net]
        · have hc : c ≠ '{' ∧ c ≠ '}' := by simpa [isBrace] using hc
          split <;> simp [net, hc]
      rw [hkept, hrest, net_cons, hnone, Int.zero_add]
    | true =>
      have hkept : kept (c :: t) (true :: bs) = c :: kept t bs := by simp [kept]
      have hshown : (if !true && p c then ' ' else c) = c := by simp
      rw [hkept, hshown, net_cons, hrest, ← net_cons]

/-! Texts without braces. -/

theorem net_braces (t : Text) : net (t.filter isBrace) = net t := by
  induction t with
  | nil => rfl
  | cons c t ih =>
    rw [List.filter_cons, net_cons c t]
    split
    · rw [net_cons, ih]
    · next hc =>
      have hc : c ≠ '{' ∧ c ≠ '}' := by simpa [isBrace] using hc
      rw [ih]
      simp [net, hc]

/-- A class of characters without braces. -/
def Braceless (p : Char → Bool) : Prop := p '{' = false ∧ p '}' = false

instance (p : Char → Bool) : Decidable (Braceless p) :=
  inferInstanceAs (Decidable (p '{' = false ∧ p '}' = false))

section

variable {p : Char → Bool} (hp : Braceless p)
include hp

theorem net_zero {t : Text} (h : ∀ c ∈ t, p c = true) : net t = 0 :=
  net_plain (Text.not_mem_of_all h hp.1) (Text.not_mem_of_all h hp.2)

theorem net_trim (t : Text) : net (Text.trim p t) = net t := by
  rw [← net_braces, Text.filter_trim (q := isBrace) ?_, net_braces]
  intro c hc
  rw [isBrace, Bool.or_eq_false_iff, beq_eq_false_iff_ne, beq_eq_false_iff_ne]
  constructor
  · rintro rfl
    simp [hp.1] at hc
  · rintro rfl
    simp [hp.2] at hc

end

theorem net_unbracketed {t : Text} (h : ∀ c ∈ t, isBracket c = false) : net t = 0 :=
  net_zero (p := fun c => !isBracket c) (by decide) fun c hc => by simp [h c hc]

/-- A stack of open brackets has as many braces more as a text opens. -/
theorem pair_count {st st' : List Char} {t : Text} (h : pairUp st t = some st') :
    (st'.count '{' : Int) = st.count '{' + net t := by
  fun_induction pairUp st t with
  | case1 st =>
    rw [Option.some.injEq] at h
    rw [h, net, Int.add_zero]
  | case2 st c cs hc ih =>
    rw [ih h, net, List.count_cons]
    have hclose : c ≠ '}' := by
      rintro rfl
      exact absurd hc (by decide)
    by_cases hopen : c = '{'
    · simp only [hopen, beq_self_eq_true, if_true]
      omega
    · simp only [beq_iff_eq, hopen, hclose, if_false]
      omega
  | case3 c cs hc hcl => simp at h
  | case4 c cs hc hcl o os ho ih =>
    rw [ih h, net, List.count_cons]
    have hopen : c ≠ '{' := by
      rintro rfl
      exact absurd hc (by decide)
    have hmates : o = '{' ↔ c = '}' := by
      constructor
      · rintro rfl
        simpa [closerOf?] using ho.symm
      · rintro rfl
        revert ho
        unfold closerOf?
        split <;> simp
    by_cases hclose : c = '}'
    · simp only [hmates.2 hclose, hclose, beq_self_eq_true, if_true]
      simp
    · simp only [beq_iff_eq, mt hmates.1 hclose, hopen, hclose, if_false]
      omega
  | case5 c cs hc hcl o os ho => simp at h
  | case6 st c cs hc hcl ih =>
    rw [ih h, net]
    have hopen : c ≠ '{' := by
      rintro rfl
      exact absurd (by decide) hc
    have hclose : c ≠ '}' := by
      rintro rfl
      exact absurd (by decide) hcl
    simp only [hopen, hclose, if_false]
    omega

theorem balanced_net {t : Text} (h : Balanced t) : net t = 0 := by
  have hcount := pair_count h
  simpa using hcount.symm

/-- A text opens at no place more braces than it has closed. -/
def NeverBelow (d : Int) (t : Text) : Prop := ∀ u, u <+: t → 0 ≤ d + net u

theorem never_below_nil {d : Int} : NeverBelow d [] ↔ 0 ≤ d := by
  constructor
  · intro h
    simpa [net] using h [] (List.prefix_refl _)
  · intro h u hu
    rw [List.prefix_nil.1 hu, net, Int.add_zero]
    exact h

theorem never_below_cons {d : Int} {c : Char} {t : Text} :
    NeverBelow d (c :: t) ↔ 0 ≤ d ∧ NeverBelow (d + net [c]) t := by
  constructor
  · intro h
    refine ⟨by simpa [net] using h [] List.nil_prefix, fun u hu => ?_⟩
    have hcons := h (c :: u) (List.prefix_cons_inj c |>.2 hu)
    rw [net_cons] at hcons
    omega
  · rintro ⟨hd, h⟩ u hu
    cases u with
    | nil => simpa [net] using hd
    | cons e u =>
      obtain ⟨rfl, hrest⟩ := List.cons_prefix_cons.1 hu
      have hrest := h u hrest
      rw [net_cons]
      omega

/-- A text closes what is open in front of it, and never more, just if the rest of it does behind its
first character. -/
theorem settles_cons {d : Int} {c : Char} {t : Text} :
    d + net (c :: t) = 0 ∧ NeverBelow d (c :: t) ↔
      0 ≤ d ∧ d + net [c] + net t = 0 ∧ NeverBelow (d + net [c]) t := by
  rw [never_below_cons, net_cons, ← Int.add_assoc]
  exact and_left_comm

section

variable (d i : Nat) (ms : List Marked)

theorem close_open : closeFrom d (⟨i, '{', true⟩ :: ms) = closeFrom (d + 1) ms := rfl

theorem close_last : closeFrom 1 (⟨i, '}', true⟩ :: ms) = some i := rfl

theorem close_inner : closeFrom (d + 2) (⟨i, '}', true⟩ :: ms) = closeFrom (d + 1) ms := by
  simp [closeFrom]

theorem close_past {c : Char} {b : Bool} (h : b = true → isBrace c = false) :
    closeFrom d (⟨i, c, b⟩ :: ms) = closeFrom d ms := by
  cases b with
  | false => rfl
  | true =>
    have hc : c ≠ '{' ∧ c ≠ '}' := by simpa [isBrace] using h rfl
    simp [closeFrom, hc]

end

theorem net_covered {p : Char → Bool} (hp : ∀ c, isBrace c = true → p c = true) {c : Char} {b : Bool}
    (h : b = true → isBrace c = false) : net [if !b && p c then ' ' else c] = 0 := by
  by_cases hc : isBrace c = true
  · have hb : b = false := by simpa [hc] using h
    simp [hb, hp c hc, net]
  · have hc : c ≠ '{' ∧ c ≠ '}' := by simpa [isBrace] using hc
    split <;> simp [net, hc]

/-- A brace that stands behind a text closes one in front of it just if the code of the text closes as
many as it opens, and never more. -/
theorem close_from_cover {p : Char → Bool} (hp : ∀ c, isBrace c = true → p c = true) {inner post : Text}
    {bs cs : List Bool} (h : bs.length = inner.length) (d i : Nat) :
    closeFrom (d + 1) (markedFrom i (inner ++ '}' :: post) (bs ++ true :: cs)) =
        some (i + inner.length) ↔
      d + net (cover p inner bs) = 0 ∧ NeverBelow d (cover p inner bs) := by
  induction inner generalizing bs d i with
  | nil =>
    obtain rfl := List.length_eq_zero_iff.1 h
    have hcover : cover p [] [] = [] := rfl
    have hmarked : markedFrom i ([] ++ '}' :: post) ([] ++ true :: cs) =
        ⟨i, '}', true⟩ :: markedFrom (i + 1) post cs := rfl
    rw [hcover, hmarked, never_below_nil, net, Int.add_zero]
    cases d with
    | zero => simp [close_last]
    | succ d =>
      have hlater : closeFrom (d + 1) (markedFrom (i + 1) post cs) ≠ some i := by
        intro hclose
        obtain ⟨m, hm, hindex, _⟩ := close_from_mem hclose
        have := (marked_from_index hm).1
        omega
      rw [close_inner]
      exact iff_of_false hlater (by omega)
  | cons c inner ih =>
    obtain ⟨b, bs, rfl⟩ := List.exists_cons_of_length_eq_add_one (by rw [h]; rfl)
    have hrest : bs.length = inner.length := by simpa using h
    have hlen : i + (c :: inner).length = i + 1 + inner.length := by simp; omega
    have hhead : cover p (c :: inner) (b :: bs) =
        (if !b && p c then ' ' else c) :: cover p inner bs := rfl
    have hmarked : markedFrom i (c :: inner ++ '}' :: post) (b :: bs ++ true :: cs) =
        ⟨i, c, b⟩ :: markedFrom (i + 1) (inner ++ '}' :: post) (bs ++ true :: cs) := rfl
    rw [hhead, hmarked, hlen, settles_cons, and_iff_right (Int.natCast_nonneg d)]
    by_cases hshown : b = true → isBrace c = false
    · rw [close_past _ _ _ hshown, net_covered hp hshown, Int.add_zero]
      exact ih hrest d (i + 1)
    · -- a brace of the code opens one more, or closes one that is open
      obtain ⟨rfl, hc⟩ : b = true ∧ isBrace c = true := by simpa using hshown
      have hkept : (if !true && p c then ' ' else c) = c := by simp
      have hc : c = '{' ∨ c = '}' := by simpa [isBrace] using hc
      rw [hkept]
      rcases hc with rfl | rfl
      · have hopen : net ['{'] = 1 := by decide
        rw [close_open, hopen]
        exact_mod_cast ih hrest (d + 1) (i + 1)
      · have hclose : net ['}'] = -1 := by decide
        rw [hclose]
        cases d with
        | zero =>
          rw [close_last, Option.some.injEq]
          refine iff_of_false (by omega) ?_
          rintro ⟨_, hbelow⟩
          have := hbelow [] List.nil_prefix
          simp [net] at this
        | succ d =>
          have hd : ((d + 1 : Nat) : Int) + -1 = d := by omega
          rw [close_inner, hd]
          exact ih hrest d (i + 1)

theorem mask_cut {u v : Text} {bs : List Bool} (h : bs.length = (u ++ v).length) :
    ∃ cs ds, bs = cs ++ ds ∧ cs.length = u.length ∧ ds.length = v.length := by
  rw [List.length_append] at h
  exact ⟨bs.take u.length, bs.drop u.length, (List.take_append_drop _ _).symm,
    by rw [List.length_take]; omega, by rw [List.length_drop]; omega⟩

theorem closing_brace_iff {t : Text} {i j : Nat} : closingBrace t i none = .ok j ↔
    t[i]? = some '{' ∧ closeOf? ((marked t).drop i) = some j := by
  rw [closingBrace, closingBraceIn]
  cases hc : t[i]? with
  | none => simp
  | some c =>
    by_cases hbrace : c = '{'
    · subst hbrace
      cases closeOf? ((marked t).drop i) <;> simp
    · simp [hbrace]

/-- Two braces in the code of a script enclose a stretch, of which so much is shown. -/
structure Encloses (p : Char → Bool) (t head inner tail shown : Text) : Prop where
  cut : t = head ++ '{' :: (inner ++ '}' :: tail)
  opens : isCode t head.length = true
  shows : (veil p t).slice ⟨head.length + 1, head.length + 1 + inner.length + 1⟩ = shown ++ ['}']

/-- They are mates just if what is shown between them closes all it opens, and never more. -/
theorem enclosed_iff {p : Char → Bool} (hp : ∀ c, isBrace c = true → p c = true)
    {t head inner tail shown : Text} (h : Encloses p t head inner tail shown) :
    closingBrace t head.length none = .ok (head.length + 1 + inner.length) ↔
      net shown = 0 ∧ NeverBelow 0 shown := by
  obtain ⟨rfl, hopens, hshown⟩ := h
  have hmask := length_codeMask (head ++ '{' :: (inner ++ '}' :: tail))
  obtain ⟨as, ms, hcut, has, hms⟩ := mask_cut hmask
  obtain ⟨b, ms, rfl⟩ := List.exists_cons_of_length_eq_add_one (by rw [hms]; rfl)
  obtain ⟨bs, ns, rfl, hbs, hns⟩ := mask_cut (u := inner) (v := '}' :: tail) (by simpa using hms)
  obtain ⟨b', cs, rfl⟩ := List.exists_cons_of_length_eq_add_one (by rw [hns]; rfl)
  have hb : b = true := by
    rw [isCode, hcut, ← has] at hopens
    simpa using hopens
  have hveil : veil p (head ++ '{' :: (inner ++ '}' :: tail)) = cover p head as ++
      ((if !b && p '{' then ' ' else '{') :: (cover p inner bs ++
        ((if !b' && p '}' then ' ' else '}') :: cover p tail cs))) := by
    have htail : cover p ('{' :: (inner ++ '}' :: tail)) (b :: (bs ++ b' :: cs)) =
        (if !b && p '{' then ' ' else '{') :: cover p (inner ++ '}' :: tail) (bs ++ b' :: cs) := rfl
    have hlast : cover p ('}' :: tail) (b' :: cs) =
        (if !b' && p '}' then ' ' else '}') :: cover p tail cs := rfl
    rw [veil, hcut, cover_append has, htail, cover_append hbs, hlast]
  have hslice : (veil p (head ++ '{' :: (inner ++ '}' :: tail))).slice
      ⟨head.length + 1, head.length + 1 + inner.length + 1⟩ =
        cover p inner bs ++ [if !b' && p '}' then ' ' else '}'] := by
    have hfront : (cover p head as).length = head.length := length_cover has
    have hinner : (cover p inner bs).length = inner.length := length_cover hbs
    have hregroup : ∀ (u v w : Text) (x y : Char), u ++ (x :: (v ++ y :: w)) =
        (u ++ [x]) ++ ((v ++ [y]) ++ w) := fun _ _ _ _ _ => by simp
    have hstart : head.length + 1 = (cover p head as ++
        [if !b && p '{' then ' ' else '{']).length := by simp [hfront]
    have hstop : head.length + 1 + inner.length + 1 = (cover p head as ++
        [if !b && p '{' then ' ' else '{']).length + (cover p inner bs ++
          [if !b' && p '}' then ' ' else '}']).length := by
      simp [hfront, hinner]
      omega
    rw [hveil, hregroup, hstop, hstart, Text.slice, ← List.append_assoc, ← List.length_append,
      List.take_left, List.drop_left]
  rw [hslice] at hshown
  obtain ⟨hinner, hlast⟩ := List.append_inj' hshown rfl
  have hb' : b' = true := by
    by_contra hfalse
    simp [Bool.not_eq_true _ ▸ hfalse, hp '}' (by decide)] at hlast
  subst hb hb'
  have hget : (head ++ '{' :: (inner ++ '}' :: tail))[head.length]? = some '{' := by simp
  rw [closing_brace_iff, marked_drop, hcut, ← has, List.drop_left, has, and_iff_right hget]
  have hclose : closeOf? (markedFrom head.length ('{' :: (inner ++ '}' :: tail))
      (true :: (bs ++ true :: cs))) = closeFrom (0 + 1) (markedFrom (head.length + 1)
        (inner ++ '}' :: tail) (bs ++ true :: cs)) := rfl
  rw [hclose, close_from_cover hp hbs, hinner]
  simp

end Script

namespace Edit

open Script (net net_append)

theorem splice_net_from {i : Nat} {t : Text} {es : List Edit} (hb : Behind i es) (ha : Ascending es) :
    net (splice i t es) = net t + (es.map fun e =>
      net e.text - net ((t.take (e.span.stop - i)).drop (e.span.start - i))).sum := by
  induction es generalizing i t with
  | nil => simp [splice]
  | cons e es ih =>
    have hrest := (List.pairwise_cons.1 ha).2
    have he := hb e (by simp)
    have hbehind := behind_tail ha hb
    have hcut : net t = net (t.take (e.span.start - i)) +
        (net ((t.take (e.span.stop - i)).drop (e.span.start - i)) + net (t.drop (e.span.stop - i))) := by
      have hfront : (t.take (e.span.stop - i)).take (e.span.start - i) = t.take (e.span.start - i) := by
        rw [List.take_take, Nat.min_eq_left (by omega)]
      rw [← net_append, ← net_append, ← List.append_assoc, ← hfront, List.take_append_drop,
        List.take_append_drop]
    have hlater : (es.map fun d => net d.text - net (((t.drop (e.span.stop - i)).take
          (d.span.stop - e.span.stop)).drop (d.span.start - e.span.stop))) =
        es.map fun d => net d.text - net ((t.take (d.span.stop - i)).drop (d.span.start - i)) := by
      refine List.map_congr_left fun d hd => ?_
      have hd := hbehind d hd
      have hstop : d.span.stop - i = (e.span.stop - i) + (d.span.stop - e.span.stop) := by omega
      have hstart : d.span.start - i = (e.span.stop - i) + (d.span.start - e.span.stop) := by omega
      have hbehind : (t.take (d.span.stop - i)).drop (e.span.stop - i) =
          (t.drop (e.span.stop - i)).take (d.span.stop - e.span.stop) := by
        rw [hstop, List.drop_take, Nat.add_sub_cancel_left]
      rw [hstart, ← List.drop_drop, hbehind]
    rw [splice, net_append, net_append, ih hbehind hrest, hlater, List.map_cons, List.sum_cons, hcut]
    omega

/-- What a splice adds to the count of a text is what its edits add. -/
theorem splice_net {t : Text} {es : List Edit} (ha : Ascending es) (hw : Within t.length es) :
    net (splice 0 t es) = net t + (es.map fun e => net e.text - net (t.slice e.span)).sum :=
  splice_net_from (fun e he => ⟨Nat.zero_le _, Nat.le_of_lt (hw e he).1⟩) ha

end Edit

end Restage
