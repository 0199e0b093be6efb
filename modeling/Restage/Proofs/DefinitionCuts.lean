import Restage.Proofs.ClassRows
import Restage.Proofs.DefinitionNames

/-!
Where the definitions of a search stand. Every definition cuts its text into a header, a body and a
footer with something around them, and the call of its base class is a stretch of the body
(`find_all_stands`).
-/

set_option autoImplicit false

namespace Restage

open Text (endOf)

/-- A window is a stretch of its text. -/
theorem Text.window_cut {t : Text} {start stop : Nat} (h1 : start ≤ stop) (h2 : stop ≤ t.length) :
    ∃ pre mid post, t = pre ++ (mid ++ post) ∧ pre.length = start ∧
      pre.length + mid.length = stop ∧ t.window start stop = ⟨endOf none pre, start, mid⟩ := by
  have hpre : (t.take start).length = start := by
    rw [List.length_take]
    omega
  have hmid : ((t.take stop).drop start).length = stop - start := by
    rw [List.length_drop, List.length_take]
    omega
  have hcut : t = t.take start ++ ((t.take stop).drop start ++ t.drop stop) := by
    have hfront : t.take start ++ (t.take stop).drop start = t.take stop := by
      conv_rhs => rw [← List.take_append_drop start (t.take stop), List.take_take, Nat.min_eq_left h1]
    rw [← List.append_assoc, hfront, List.take_append_drop]
  have hstop : (t.take start).length + ((t.take stop).drop start).length = stop := by omega
  refine ⟨_, _, _, hcut, hpre, hstop, ?_⟩
  have hwindow := Text.window_middle (t.take start) ((t.take stop).drop start) (t.drop stop)
  rw [← hcut, hstop, hpre] at hwindow
  exact hwindow

theorem Text.slice_middle (u v w : Text) : (u ++ (v ++ w)).slice ⟨u.length, u.length + v.length⟩ = v := by
  rw [Text.slice, ← List.append_assoc, ← List.length_append, List.take_left, List.drop_left]

theorem Piece.one_of_split {ws : List Text} {t a r : Text} (h : (Piece.oneOf ws).split? t = some (a, r)) :
    a ∈ ws ∧ t = a ++ r := by
  refine ⟨?_, Piece.split?_append h⟩
  rw [Piece.split?] at h
  obtain ⟨w, hw, hsplit⟩ := List.exists_of_findSome?_eq_some h
  rw [Option.map_eq_some_iff] at hsplit
  obtain ⟨u, _, he⟩ := hsplit
  rw [← (Prod.mk.inj he).1]
  exact hw

namespace Script

/-- The brace that is found to close a number of open ones is one of the characters at hand. -/
theorem close_from_mem {depth i : Nat} {ms : List Marked} (h : closeFrom depth ms = some i) :
    ∃ m ∈ ms, m.index = i ∧ m.char = '}' := by
  fun_induction closeFrom depth ms with
  | case1 => simp at h
  | case2 depth m ms hcode ih =>
    obtain ⟨k, hk, hi⟩ := ih h
    exact ⟨k, by simp [hk], hi⟩
  | case3 depth m ms hcode hopen ih =>
    obtain ⟨k, hk, hi⟩ := ih h
    exact ⟨k, by simp [hk], hi⟩
  | case4 depth m ms hcode hopen hclose hdepth =>
    exact ⟨m, by simp, by simpa using h, hclose⟩
  | case5 depth m ms hcode hopen hclose hdepth ih =>
    obtain ⟨k, hk, hi⟩ := ih h
    exact ⟨k, by simp [hk], hi⟩
  | case6 depth m ms hcode hopen hclose ih =>
    obtain ⟨k, hk, hi⟩ := ih h
    exact ⟨k, by simp [hk], hi⟩

/-- The marks of a text behind a front part of it. -/
theorem marked_drop {u v : Text} : (marked (u ++ v)).drop u.length =
    markedFrom u.length v ((codeMask (u ++ v)).drop u.length) := by
  have hmask : codeMask (u ++ v) =
      (codeMask (u ++ v)).take u.length ++ (codeMask (u ++ v)).drop u.length :=
    (List.take_append_drop _ _).symm
  have hlength : ((codeMask (u ++ v)).take u.length).length = u.length := by
    rw [List.length_take, length_codeMask, List.length_append]
    omega
  have hmarked : marked (u ++ v) = markedFrom 0 u ((codeMask (u ++ v)).take u.length) ++
      markedFrom (0 + u.length) v ((codeMask (u ++ v)).drop u.length) := by
    rw [← marked_from_append hlength, ← hmask]
    rfl
  rw [hmarked, Nat.zero_add, List.drop_left' (length_marked_from hlength)]

/-- The character of a mark is that of the text. -/
theorem marked_from_char {i : Nat} {t : Text} {bs : List Bool} {m : Marked}
    (h : m ∈ markedFrom i t bs) : t[m.index - i]? = some m.char := by
  induction t generalizing i bs with
  | nil => simp [markedFrom] at h
  | cons c t ih =>
    cases bs with
    | nil => simp [markedFrom] at h
    | cons b bs =>
      rcases List.mem_cons.1 h with rfl | h
      · simp
      · have hindex := (marked_from_index h).1
        have hpos : m.index - i = (m.index - (i + 1)) + 1 := by omega
        rw [hpos, List.getElem?_cons_succ]
        exact ih h

/-- The brace that closes another stands behind it. -/
theorem close_of_bounds {t : Text} {i j : Nat} (h : closeOf? ((marked t).drop i) = some j) :
    i < j ∧ t[j]? = some '}' := by
  have hlong : i < t.length := by
    by_contra hshort
    have hlength : (marked t).length = t.length := length_marked_from (length_codeMask t)
    rw [List.drop_of_length_le (by omega)] at h
    simp [closeOf?] at h
  obtain ⟨u, c, v, hcut, hu⟩ : ∃ u c v, t = u ++ c :: v ∧ u.length = i :=
    ⟨t.take i, t[i], t.drop (i + 1), by simp, by rw [List.length_take]; omega⟩
  rw [← hu, hcut, marked_drop] at h
  cases hbs : (codeMask (u ++ c :: v)).drop u.length with
  | nil => simp [hbs, markedFrom, closeOf?] at h
  | cons b bs =>
    rw [hbs, markedFrom, closeOf?] at h
    split at h
    · obtain ⟨m, hm, rfl, hchar⟩ := close_from_mem h
      have hindex := (marked_from_index hm).1
      have hget := marked_from_char hm
      refine ⟨by omega, ?_⟩
      have hpos : m.index = u.length + ((m.index - (u.length + 1)) + 1) := by omega
      rw [hcut, hpos, List.getElem?_append_right (by omega), Nat.add_sub_cancel_left,
        List.getElem?_cons_succ, hget, hchar]
    · simp at h

end Script

namespace Legacy

/-- The parts of a text that a definition cuts it into. -/
structure Cut where
  before : Text
  indent : Text
  target : Text
  /-- from the target to the call of `extend` -/
  link : Text
  /-- from that call to the parameters -/
  keyword : Text
  raw : Text
  gap : Text
  inner : Text
  space : Text
  tail : Text
  after : Text

namespace Cut

def head (x : Cut) : Text :=
  x.indent ++ (x.target ++ (x.link ++ '(' :: (x.keyword ++ '(' :: (x.raw ++ ')' :: (x.gap ++ ['{'])))))

def foot (x : Cut) : Text := '}' :: (x.space ++ ')' :: x.tail)

def text (x : Cut) : Text := x.before ++ (x.head ++ (x.inner ++ (x.foot ++ x.after)))

end Cut

namespace Definition

/-- A definition stands in a text where the text is so cut. -/
structure CutIn (t : Text) (d : Definition) (x : Cut) : Prop where
  text : t = x.text
  line : Pattern.lineStart (endOf none x.before) = true
  header : d.header = ⟨x.before.length, x.before.length + x.head.length⟩
  body : d.body = ⟨d.header.stop, d.header.stop + x.inner.length⟩
  footer : d.footer = ⟨d.body.stop, d.body.stop + x.foot.length⟩
  closes : Script.closeOf? ((Script.marked t).drop (d.header.stop - 1)) = some d.body.stop
  indent : d.indent = x.indent
  target : d.target = x.target
  params : d.params = x.raw.strip
  indented : ∀ c ∈ x.indent, Piece.isIndent c = true
  link : ∀ c ∈ x.link, Script.isBracket c = false
  keyword : ∀ c ∈ x.keyword, Script.isBracket c = false
  raw : ')' ∉ x.raw
  gap : ∀ c ∈ x.gap, Piece.isIndent c = true
  space : ∀ c ∈ x.space, Text.isBlank c = true
  tail : ∀ c ∈ x.tail, Script.isBracket c = false

/-- A stretch of the body of a definition calls its base class. -/
structure CallIn (t : Text) (d : Definition) (s : Span) : Prop where
  within : d.body.start ≤ s.start ∧ s.stop ≤ d.body.stop
  stands : ∃ u arg v, t = u ++ ((d.base.text ++ (".call(".toList ++ arg)) ++ v) ∧
    s = ⟨u.length, u.length + (d.base.text ++ (".call(".toList ++ arg)).length⟩ ∧
    Pattern.freshName (endOf none u) = true ∧ ∀ c ∈ arg, Script.isBracket c = false

section

variable {t : Text} {d : Definition} {x : Cut} (h : CutIn t d x)
include h

theorem header_slice : t.slice d.header = x.head := by
  rw [h.header, h.text]
  exact Text.slice_middle _ _ _

theorem footer_slice : t.slice d.footer = x.foot := by
  have hcut : x.text = (x.before ++ (x.head ++ x.inner)) ++ (x.foot ++ x.after) := by
    simp [Cut.text]
  have hlength : (x.before ++ (x.head ++ x.inner)).length =
      x.before.length + x.head.length + x.inner.length := by
    simp only [List.length_append]
    omega
  rw [h.footer, h.body, h.header, h.text, hcut, ← hlength]
  exact Text.slice_middle _ _ _

theorem header_take : t.take d.header.start = x.before := by
  rw [h.header, h.text, Cut.text, List.take_left]

theorem header_drop : t.drop d.header.start = x.head ++ (x.inner ++ (x.foot ++ x.after)) := by
  rw [h.header, h.text, Cut.text, List.drop_left]

theorem footer_drop : t.drop d.footer.start = x.foot ++ x.after := by
  have hlength : d.footer.start = d.header.start + (x.head ++ x.inner).length := by
    rw [h.footer, h.body, h.header, List.length_append]
    exact Nat.add_assoc _ _ _
  rw [hlength, ← List.drop_drop, header_drop h, ← List.append_assoc, List.drop_left]

end

/-- What a header makes of the closing brace and the footer behind it. -/
theorem of_header_ok {ms : List Script.Marked} {t : Text} {h : Hit} {exported : Bool} {stop : Nat}
    {d : Definition} (hd : ofHeader ms t h exported stop = .ok d) :
    ∃ closeAt parts, Script.closingBraceIn ms t (h.stop - 1) (some stop) = .ok closeAt ∧
      footerPattern.fits? none (t.window closeAt stop).text = some parts ∧
      d = ⟨h.part 4, h.part 1 ++ h.part 2 ++ h.part 4, (Base.ofIdentifier? (h.part 8)).getD .animated,
        Text.strip (h.part 14), h.part 0, h.span, ⟨h.stop - 1 + 1, closeAt⟩,
        ⟨closeAt, closeAt + parts.flatten.length⟩, exported,
        (Script.searchTopLevelIn ms (superCallOf ((Base.ofIdentifier? (h.part 8)).getD .animated)) t
          (h.stop - 1 + 1) closeAt).map Hit.span, []⟩ := by
  rw [ofHeader] at hd
  cases hc : Script.closingBraceIn ms t (h.stop - 1) (some stop) with
  | error f => simp [hc, Except.mapError, bind, Except.bind] at hd
  | ok closeAt =>
    simp only [hc, Except.mapError, bind, Except.bind] at hd
    split at hd
    · simp at hd
    · next parts hparts =>
      simp only [Except.ok.injEq] at hd
      exact ⟨closeAt, parts, rfl, hparts, hd.symm⟩

/-- No bracket stands between the name of a definition and the call of `extend`. -/
theorem link_unbracketed {u v base : Text} (hu : ∀ c ∈ u, Piece.isIndent c = true)
    (hv : ∀ c ∈ v, Piece.isIndent c = true) (hbase : base ∈ Base.all.map Base.text) :
    ∀ c ∈ u ++ ("=".toList ++ (v ++ (base ++ ".extend".toList))), Script.isBracket c = false := by
  have hbases : ∀ w ∈ Base.all.map Base.text, ∀ c ∈ w, Script.isBracket c = false := by decide
  intro c hc
  simp only [List.mem_append] at hc
  rcases hc with hc | hc | hc | hc | hc
  · exact indent_not_bracket (hu c hc)
  · exact (by decide : ∀ c ∈ "=".toList, Script.isBracket c = false) c hc
  · exact indent_not_bracket (hv c hc)
  · exact hbases base hbase c hc
  · exact (by decide : ∀ c ∈ ".extend".toList, Script.isBracket c = false) c hc

theorem keyword_unbracketed {u v : Text} (hu : ∀ c ∈ u, Piece.isIndent c = true)
    (hv : ∀ c ∈ v, Piece.isIndent c = true) :
    ∀ c ∈ u ++ ("function".toList ++ v), Script.isBracket c = false := by
  intro c hc
  simp only [List.mem_append] at hc
  rcases hc with hc | hc | hc
  · exact indent_not_bracket (hu c hc)
  · exact (by decide : ∀ c ∈ "function".toList, Script.isBracket c = false) c hc
  · exact indent_not_bracket (hv c hc)

/-- What a header reads. -/
theorem header_reads {a b : Piece} {prior : Option Char} {t : Text} {parts : List Text}
    (h : (headerOf [a, b]).fits? prior t = some parts) :
    Pattern.lineStart prior = true ∧ ∃ link keyword gap rest,
      t = parts.flatten ++ rest ∧
      parts.flatten = parts.getD 0 [] ++ ((parts.getD 1 [] ++ parts.getD 2 [] ++ parts.getD 4 []) ++
        (link ++ '(' :: (keyword ++ '(' :: (parts.getD 14 [] ++ ')' :: (gap ++ ['{']))))) ∧
      (∀ c ∈ parts.getD 0 [], Piece.isIndent c = true) ∧ (∀ c ∈ link, Script.isBracket c = false) ∧
      (∀ c ∈ keyword, Script.isBracket c = false) ∧ ')' ∉ parts.getD 14 [] ∧
      ∀ c ∈ gap, Piece.isIndent c = true := by
  obtain ⟨hbehind, rest, hread⟩ := Pattern.fits_some.1 h
  refine ⟨hbehind, ?_⟩
  have hflat := Piece.readAll_flatten hread
  change Piece.readAll (_ :: _ :: _ :: _ :: _ :: headerRest) t = some (parts, rest) at hread
  obtain ⟨indent, _, _, g0, h0, rfl⟩ := Piece.readAll_cons_iff.1 hread
  obtain ⟨p1, _, _, g1, h1, rfl⟩ := Piece.readAll_cons_iff.1 h0
  obtain ⟨p2, _, _, g2, h2, rfl⟩ := Piece.readAll_cons_iff.1 h1
  obtain ⟨_, _, _, g3, h3, rfl⟩ := Piece.readAll_cons_iff.1 h2
  obtain ⟨name, _, _, g4, h4, rfl⟩ := Piece.readAll_cons_iff.1 h3
  obtain ⟨s1, _, _, g5, h5, rfl⟩ := Piece.readAll_cons_iff.1 h4
  obtain ⟨_, _, _, g6, h6, rfl⟩ := Piece.readAll_cons_iff.1 h5
  obtain ⟨s2, _, _, g7, h7, rfl⟩ := Piece.readAll_cons_iff.1 h6
  obtain ⟨base, _, _, g8, h8, rfl⟩ := Piece.readAll_cons_iff.1 h7
  obtain ⟨_, _, _, g9, h9, rfl⟩ := Piece.readAll_cons_iff.1 h8
  obtain ⟨s3, _, _, g10, h10, rfl⟩ := Piece.readAll_cons_iff.1 h9
  obtain ⟨_, _, _, g11, h11, rfl⟩ := Piece.readAll_cons_iff.1 h10
  obtain ⟨s4, _, _, g12, h12, rfl⟩ := Piece.readAll_cons_iff.1 h11
  obtain ⟨_, _, _, g13, h13, rfl⟩ := Piece.readAll_cons_iff.1 h12
  obtain ⟨raw, _, _, g14, h14, rfl⟩ := Piece.readAll_cons_iff.1 h13
  obtain ⟨_, _, _, g15, h15, rfl⟩ := Piece.readAll_cons_iff.1 h14
  obtain ⟨s5, _, _, g16, h16, rfl⟩ := Piece.readAll_cons_iff.1 h15
  obtain ⟨_, _, _, g17, h17, rfl⟩ := Piece.readAll_cons_iff.1 h16
  obtain ⟨rfl, rfl⟩ := Piece.readAll_nil_iff.1 h17
  obtain ⟨_, _, hindent, _⟩ := Piece.run_split_iff.1 g0
  obtain ⟨rfl, rfl, _⟩ := (Piece.next_is_split _ _ _ _).1 g3
  obtain ⟨_, _, hs1, _⟩ := Piece.run_split_iff.1 g5
  obtain ⟨rfl, _⟩ := Piece.word_split_iff.1 g6
  obtain ⟨_, _, hs2, _⟩ := Piece.run_split_iff.1 g7
  obtain ⟨hbase, _⟩ := Piece.one_of_split g8
  obtain ⟨rfl, _⟩ := Piece.word_split_iff.1 g9
  obtain ⟨_, _, hs3, _⟩ := Piece.run_split_iff.1 g10
  obtain ⟨rfl, _⟩ := Piece.word_split_iff.1 g11
  obtain ⟨_, _, hs4, _⟩ := Piece.run_split_iff.1 g12
  obtain ⟨rfl, _⟩ := Piece.word_split_iff.1 g13
  obtain ⟨_, _, hraw, _⟩ := Piece.run_split_iff.1 g14
  obtain ⟨rfl, _⟩ := Piece.word_split_iff.1 g15
  obtain ⟨_, _, hs5, _⟩ := Piece.run_split_iff.1 g16
  obtain ⟨rfl, _⟩ := Piece.word_split_iff.1 g17
  exact ⟨s1 ++ ("=".toList ++ (s2 ++ (base ++ ".extend".toList))), s3 ++ ("function".toList ++ s4),
    s5, _, hflat, by simp, hindent, link_unbracketed hs1 hs2 hbase, keyword_unbracketed hs3 hs4,
    fun hin => by simpa using hraw _ hin, hs5⟩

/-- Every header is one of the two kinds. -/
theorem header_hit {library : Text} {w : Window} {h : Hit} {exported : Bool}
    (hh : header? library w = some (h, exported)) :
    ∃ a b, (headerOf [a, b]).first? w = some h := by
  rw [header?] at hh
  split at hh
  · next m v hm hv =>
    split at hh
    · simp only [Option.some.injEq, Prod.mk.injEq] at hh
      exact ⟨_, _, hh.1 ▸ hm⟩
    · simp only [Option.some.injEq, Prod.mk.injEq] at hh
      exact ⟨_, _, hh.1 ▸ hv⟩
  · next m hm _ =>
    simp only [Option.some.injEq, Prod.mk.injEq] at hh
    exact ⟨_, _, hh.1 ▸ hm⟩
  · next v _ hv =>
    simp only [Option.some.injEq, Prod.mk.injEq] at hh
    exact ⟨_, _, hh.1 ▸ hv⟩
  · simp at hh

/-- What a footer is made of. -/
theorem footer_parts {t : Text} {parts : List Text}
    (h : footerPattern.fits? none t = some parts) : ∃ space gap last rest,
      t = parts.flatten ++ rest ∧ parts.flatten = '}' :: (space ++ ')' :: (gap ++ last)) ∧
      (∀ c ∈ space, Text.isBlank c = true) ∧ (∀ c ∈ gap, Piece.isIndent c = true) ∧
      (last = [] ∨ last = [';']) := by
  obtain ⟨_, rest, hread⟩ := Pattern.fits_some.1 h
  have hflat := Piece.readAll_flatten hread
  change Piece.readAll [_, _, _, _, _] t = some (parts, rest) at hread
  obtain ⟨_, _, _, g0, h0, rfl⟩ := Piece.readAll_cons_iff.1 hread
  obtain ⟨space, _, _, g1, h1, rfl⟩ := Piece.readAll_cons_iff.1 h0
  obtain ⟨_, _, _, g2, h2, rfl⟩ := Piece.readAll_cons_iff.1 h1
  obtain ⟨gap, _, _, g3, h3, rfl⟩ := Piece.readAll_cons_iff.1 h2
  obtain ⟨last, _, _, g4, h4, rfl⟩ := Piece.readAll_cons_iff.1 h3
  obtain ⟨rfl, rfl⟩ := Piece.readAll_nil_iff.1 h4
  obtain ⟨rfl, _⟩ := Piece.word_split_iff.1 g0
  obtain ⟨_, _, hspace, _⟩ := Piece.run_split_iff.1 g1
  obtain ⟨rfl, _⟩ := Piece.word_split_iff.1 g2
  obtain ⟨_, _, hgap, _⟩ := Piece.run_split_iff.1 g3
  exact ⟨space, gap, last, _, hflat, by simp, hspace, hgap, (Piece.maybe_taken g4).symm⟩

/-- What a footer reads. -/
theorem footer_reads {t : Text} {parts : List Text}
    (h : footerPattern.fits? none t = some parts) : ∃ space tail rest,
      t = parts.flatten ++ rest ∧ parts.flatten = '}' :: (space ++ ')' :: tail) ∧
      (∀ c ∈ space, Text.isBlank c = true) ∧ ∀ c ∈ tail, Script.isBracket c = false := by
  obtain ⟨space, gap, last, rest, hcut, hflat, hspace, hgap, hlast⟩ := footer_parts h
  refine ⟨space, gap ++ last, rest, hcut, hflat, hspace, fun c hc => ?_⟩
  rcases List.mem_append.1 hc with hc | hc
  · exact indent_not_bracket (hgap c hc)
  · rcases hlast with rfl | rfl
    · simp at hc
    · rw [List.mem_singleton.1 hc]
      rfl

theorem closing_brace_ok {ms : List Script.Marked} {t : Text} {i stop j : Nat}
    (h : Script.closingBraceIn ms t i (some stop) = .ok j) :
    t[i]? = some '{' ∧ Script.closeOf? (ms.drop i) = some j ∧ j < stop := by
  rw [Script.closingBraceIn] at h
  split at h
  · simp at h
  · next c hc =>
    split at h
    · simp at h
    · next hbrace =>
      split at h
      · simp at h
      · next k hk =>
        split at h
        · simp at h
        · next hstop =>
          rw [Except.ok.injEq] at h
          subst h
          exact ⟨by rw [hc, not_not.1 hbrace], hk, by simpa using hstop⟩

/-- The blanks and the comma of a call, in front of what stands behind it. -/
structure CallParts (s1 s2 comma s3 r : Text) : Prop where
  first : ∀ c ∈ s1, Text.isBlank c = true
  second : ∀ c ∈ s2, Text.isBlank c = true
  third : ∀ c ∈ s3, Text.isBlank c = true
  next : r.head?.all (fun c => !Text.isBlank c) = true
  last : comma = [','] ∨ comma = [] ∧ s3 = [] ∧ r.head? = some ')'

theorem call_comma {s1 s2 comma s3 r : Text} (h : CallParts s1 s2 comma s3 r) :
    ∀ c ∈ comma, c = ',' := by
  rcases h.last with h | ⟨h, _⟩
  · simp [h]
  · simp [h]

/-- The comma behind `this` is taken; a closing bracket in its place is left. -/
theorem comma_taken {c : Char} {v comma s3 r : Text} (hc : c = ',' ∨ c = ')')
    (h : (Piece.maybe [',']).split? (c :: v) = some (comma, s3 ++ r))
    (hs3 : ∀ d ∈ s3, Text.isBlank d = true) :
    comma = [','] ∨ comma = [] ∧ s3 = [] ∧ r.head? = some ')' := by
  obtain ⟨taken, hcut, hcomma, hnext⟩ := Piece.maybe_split_iff.1 h
  cases taken with
  | true => exact Or.inl hcomma
  | false =>
    have hcut : c :: v = s3 ++ r := hcut
    have hclose : c = ')' := hc.resolve_left (by
      rintro rfl
      exact hnext rfl (by rw [← hcut]; rfl))
    subst hclose
    cases s3 with
    | nil => exact Or.inr ⟨hcomma, rfl, by rw [← List.nil_append r, ← hcut]; rfl⟩
    | cons d s3 =>
      obtain ⟨rfl, _⟩ := List.cons.inj hcut
      exact absurd (hs3 ')' List.mem_cons_self) (by decide)

theorem call_parts {base : Base} {t r : Text} {parts : List Text}
    (hread : Piece.readAll (superCallOf base).pieces t = some (parts, r)) :
    ∃ s1 s2 comma s3, parts = [base.text, ".call(".toList, s1, "this".toList, [], s2, comma, s3] ∧
      CallParts s1 s2 comma s3 r := by
  change Piece.readAll [_, _, _, _, _, _, _, _] t = some (parts, r) at hread
  obtain ⟨_, _, _, g0, h0, rfl⟩ := Piece.readAll_cons_iff.1 hread
  obtain ⟨_, _, _, g1, h1, rfl⟩ := Piece.readAll_cons_iff.1 h0
  obtain ⟨s1, _, _, g2, h2, rfl⟩ := Piece.readAll_cons_iff.1 h1
  obtain ⟨_, u, _, g3, h3, rfl⟩ := Piece.readAll_cons_iff.1 h2
  obtain ⟨none, _, _, g4, h4, rfl⟩ := Piece.readAll_cons_iff.1 h3
  obtain ⟨s2, v, _, g5, h5, rfl⟩ := Piece.readAll_cons_iff.1 h4
  obtain ⟨comma, _, _, g6, h6, rfl⟩ := Piece.readAll_cons_iff.1 h5
  obtain ⟨s3, _, _, g7, h7, rfl⟩ := Piece.readAll_cons_iff.1 h6
  obtain ⟨rfl, rfl⟩ := Piece.readAll_nil_iff.1 h7
  obtain ⟨rfl, _⟩ := Piece.word_split_iff.1 g0
  obtain ⟨rfl, _⟩ := Piece.word_split_iff.1 g1
  obtain ⟨_, _, hs1, _⟩ := Piece.run_split_iff.1 g2
  obtain ⟨rfl, _⟩ := Piece.word_split_iff.1 g3
  obtain ⟨rfl, _, hs2, hv⟩ := Piece.run_split_iff.1 g5
  obtain ⟨rfl, _, hs3, hr⟩ := Piece.run_split_iff.1 g7
  obtain ⟨hahead, hsplit⟩ := Option.ite_none_right_eq_some.1 g4
  obtain ⟨rfl, rfl⟩ := Prod.mk.inj (Option.some.inj hsplit)
  simp only [Text.run_left hs2 hv] at hahead
  refine ⟨s1, s2, comma, s3, rfl, hs1, hs2, hs3, hr, ?_⟩
  cases v with
  | nil => simp at hahead
  | cons c v => exact comma_taken (by simpa using hahead) g6 hs3

theorem call_read (base : Base) {s1 s2 comma s3 r : Text} (h : CallParts s1 s2 comma s3 r) :
    Piece.readAll (superCallOf base).pieces (base.text ++ (".call(".toList ++ (s1 ++ ("this".toList ++
      (s2 ++ (comma ++ (s3 ++ r))))))) =
      some ([base.text, ".call(".toList, s1, "this".toList, [], s2, comma, s3], r) := by
  obtain ⟨hs1, hs2, hs3, hr, hlast⟩ := h
  have hv : (comma ++ (s3 ++ r)).head?.all (fun c => !Text.isBlank c) = true := by
    rcases hlast with rfl | ⟨rfl, rfl, hclose⟩
    · exact (by decide : (!Text.isBlank ',') = true)
    · exact hr
  change Piece.readAll [_, _, _, _, _, _, _, _] _ = _
  refine Piece.readAll_cons_iff.2 ⟨_, _, _, Piece.word_split_iff.2 ⟨rfl, rfl⟩, ?_, rfl⟩
  refine Piece.readAll_cons_iff.2 ⟨_, _, _, Piece.word_split_iff.2 ⟨rfl, rfl⟩, ?_, rfl⟩
  refine Piece.readAll_cons_iff.2 ⟨_, _, _, Piece.run_split_iff.2 ⟨rfl, Nat.zero_le _, hs1, by rfl⟩,
    ?_, rfl⟩
  refine Piece.readAll_cons_iff.2 ⟨_, _, _, Piece.word_split_iff.2 ⟨rfl, rfl⟩, ?_, rfl⟩
  refine Piece.readAll_cons_iff.2 ⟨_, _, _, Piece.ahead_split ?_, ?_, rfl⟩
  · simp only [Text.run_left hs2 hv]
    rcases hlast with rfl | ⟨rfl, rfl, hclose⟩
    · rfl
    · obtain ⟨c, r, rfl⟩ := List.exists_cons_of_ne_nil (l := r) (by rintro rfl; simp at hclose)
      obtain rfl : c = ')' := by simpa using hclose
      rfl
  refine Piece.readAll_cons_iff.2 ⟨_, _, _, Piece.run_split_iff.2 ⟨rfl, Nat.zero_le _, hs2, hv⟩,
    ?_, rfl⟩
  refine Piece.readAll_cons_iff.2 ⟨comma, s3 ++ r, _, ?_, Piece.readAll_cons_iff.2 ⟨_, _, _,
    Piece.run_split_iff.2 ⟨rfl, Nat.zero_le _, hs3, hr⟩, Piece.readAll_nil_iff.2 ⟨rfl, rfl⟩, rfl⟩, rfl⟩
  rcases hlast with rfl | ⟨rfl, rfl, hclose⟩
  · exact Piece.maybe_split _ _
  · exact Piece.maybe_split_absent (by simp [hclose])

/-- A call of the base class names it and `this`, and ends in front of a bracket or behind a comma. -/
theorem call_iff {base : Base} {b : Option Char} {t : Text} {parts : List Text} :
    (superCallOf base).fits? b t = some parts ↔ Pattern.freshName b = true ∧ ∃ s1 s2 comma s3 r,
      parts = [base.text, ".call(".toList, s1, "this".toList, [], s2, comma, s3] ∧
      t = parts.flatten ++ r ∧ CallParts s1 s2 comma s3 r := by
  rw [Pattern.fits_some]
  refine and_congr Iff.rfl ?_
  constructor
  · rintro ⟨r, hread⟩
    obtain ⟨s1, s2, comma, s3, hparts, hcall⟩ := call_parts hread
    exact ⟨s1, s2, comma, s3, r, hparts, Piece.readAll_flatten hread, hcall⟩
  · rintro ⟨s1, s2, comma, s3, r, rfl, rfl, hcall⟩
    refine ⟨r, ?_⟩
    rw [← call_read base hcall]
    simp

/-- What a call of the base class reads. -/
theorem call_reads {base : Base} {b : Option Char} {t : Text} {parts : List Text}
    (h : (superCallOf base).fits? b t = some parts) : Pattern.freshName b = true ∧ ∃ arg rest,
      t = parts.flatten ++ rest ∧ parts.flatten = base.text ++ (".call(".toList ++ arg) ∧
      ∀ c ∈ arg, Script.isBracket c = false := by
  obtain ⟨hbehind, s1, s2, comma, s3, rest, rfl, hflat, hparts⟩ := call_iff.1 h
  refine ⟨hbehind, s1 ++ ("this".toList ++ (s2 ++ (comma ++ s3))), rest, hflat, by simp,
    fun c hc => ?_⟩
  simp only [List.mem_append] at hc
  rcases hc with hc | hc | hc | hc | hc
  · exact blank_not_bracket (hparts.first c hc)
  · exact (by decide : ∀ c ∈ "this".toList, Script.isBracket c = false) c hc
  · exact blank_not_bracket (hparts.second c hc)
  · rw [call_comma hparts c hc]
    rfl
  · exact blank_not_bracket (hparts.third c hc)

/-- A call that is found in the body of a definition calls its base class. -/
theorem found_call_in {t : Text} {d : Definition} {front inner back : Text}
    (ht : t = front ++ (inner ++ back)) (hbody : d.body = ⟨front.length, front.length + inner.length⟩)
    {call : Hit} (hcall : Script.searchTopLevelIn (Script.marked t) (superCallOf d.base) t d.body.start
      d.body.stop = some call) : CallIn t d call.span := by
  have hwindow := Text.window_middle front inner back
  rw [← ht] at hwindow
  rw [Script.search_top_level, hbody, hwindow] at hcall
  obtain ⟨u, v, rfl, hat, hfit⟩ := Pattern.hit_cut (List.mem_of_find?_eq_some hcall)
  obtain ⟨hfresh, arg, rest, rfl, htext, harg⟩ := call_reads hfit
  have hat : call.start = front.length + u.length := hat
  refine ⟨⟨?_, ?_⟩, front ++ u, arg, rest ++ back, ?_, ?_, ?_, harg⟩
  · simp only [hbody, Hit.span]
    omega
  · simp only [hbody, Hit.span, Hit.stop, Hit.text, List.length_append]
    omega
  · rw [ht, htext]
    simp only [List.append_assoc]
  · rw [List.length_append, ← hat, ← htext]
    rfl
  · rw [Text.endOf_append]
    exact hfresh

section

variable {library t : Text}

/-- A definition that a header begins stands in the text, between the ends of the stretch. -/
theorem of_header_cut {start stop : Nat} (hstart : start ≤ stop) (hstop : stop ≤ t.length) {h : Hit}
    {exported : Bool} (hh : header? library (t.window start stop) = some (h, exported))
    {d : Definition} (hd : ofHeader (Script.marked t) t h exported stop = .ok d) :
    (∃ x, CutIn t d x) ∧ (∀ s, d.superCall = some s → CallIn t d s) ∧ start ≤ d.header.start ∧
      d.body.start ≤ d.body.stop ∧ d.body.stop ≤ d.footer.stop ∧ d.footer.stop ≤ stop := by
  obtain ⟨a, b, hfirst⟩ := header_hit hh
  obtain ⟨pre, mid, post, ht, hpre, hmid, hwindow⟩ := Text.window_cut hstart hstop
  rw [Pattern.first?, hwindow] at hfirst
  obtain ⟨u, v, rfl, hat, _, hfit⟩ := Pattern.first_iff.1 hfirst
  obtain ⟨hline, link, keyword, gap, rest, rfl, hhead, hindent, hlink, hkeyword, hraw, hgap⟩ :=
    header_reads hfit
  have hat : h.start = start + u.length := hat
  obtain ⟨closeAt, parts, hclose, hfoot, rfl⟩ := of_header_ok hd
  obtain ⟨_, hcloses, hbefore⟩ := closing_brace_ok hclose
  have hstopAt : h.stop = pre.length + u.length + h.text.length := by
    rw [Hit.stop, hat, hpre]
  have hpos : h.stop - 1 + 1 = h.stop := by
    have hlength : 0 < h.text.length := by
      rw [Hit.text, hhead]
      simp
    omega
  have hbehind : h.stop ≤ closeAt := by
    have := (Script.close_of_bounds hcloses).1
    omega
  obtain ⟨front, inner, back, hinner, hfront, hback, _⟩ :=
    Text.window_cut hbehind (Nat.le_trans (Nat.le_of_lt hbefore) hstop)
  obtain ⟨pre', mid', post', ht', hpre', hmid', hwindow'⟩ :=
    Text.window_cut (Nat.le_of_lt hbefore) hstop
  rw [hwindow'] at hfoot
  obtain ⟨space, tail, rest', rfl, hfooter, hspace, htail⟩ := footer_reads hfoot
  -- the header ends where the body begins, and the footer begins where it ends
  obtain ⟨rfl, _⟩ : pre ++ (u ++ h.text) = front ∧ rest ++ post = inner ++ back := by
    refine List.append_inj ?_ (by simp only [List.length_append]; omega)
    rw [← hinner, ht, Hit.text]
    simp only [List.append_assoc]
  obtain ⟨_, rfl⟩ : (pre ++ (u ++ h.text)) ++ inner = pre' ∧
      back = (parts.flatten ++ rest') ++ post' := by
    refine List.append_inj ?_ (by simp only [List.length_append] at hback ⊢; omega)
    rw [← ht', hinner]
    simp only [List.append_assoc]
  have hfooterstop : closeAt + parts.flatten.length ≤ stop := by
    simp only [List.length_append] at hmid'
    omega
  have hheader : start ≤ h.span.start := by
    rw [Hit.span, hat]
    exact Nat.le_add_right _ _
  refine ⟨⟨⟨pre ++ u, h.part 0, h.part 1 ++ h.part 2 ++ h.part 4, link, keyword, h.part 14, gap, inner,
    space, tail, rest' ++ post'⟩, ?_⟩, ?_, hheader, hpos.symm ▸ hbehind,
    Nat.le_add_right _ _, hfooterstop⟩
  · have hheadtext : h.text = Cut.head ⟨pre ++ u, h.part 0, h.part 1 ++ h.part 2 ++ h.part 4, link,
        keyword, h.part 14, gap, inner, space, tail, rest' ++ post'⟩ := hhead
    have hfoottext : parts.flatten = Cut.foot ⟨pre ++ u, h.part 0, h.part 1 ++ h.part 2 ++ h.part 4,
        link, keyword, h.part 14, gap, inner, space, tail, rest' ++ post'⟩ := hfooter
    refine ⟨?_, ?_, ?_, ?_, ?_, ?_, rfl, rfl, rfl, hindent, hlink, hkeyword, hraw, hgap, hspace, htail⟩
    · rw [Cut.text, ← hheadtext, ← hfoottext, hinner]
      simp only [List.append_assoc]
    · rw [Text.endOf_append]
      exact hline
    · simp only [← hheadtext, Hit.span, Hit.stop, hat, hpre, List.length_append]
    · simp only [hpos, Hit.span, Span.mk.injEq, true_and]
      omega
    · simp only [← hfoottext]
    · exact hcloses
  · intro s hs
    obtain ⟨call, hcall, rfl⟩ := Option.map_eq_some_iff.1 hs
    refine found_call_in hinner ?_ hcall
    simp only [hpos, hfront, Span.mk.injEq, true_and]
    omega

/-- A definition stands where it is said to stand, and so does its call. -/
structure Stands (t : Text) (d : Definition) : Prop where
  cut : ∃ x, CutIn t d x
  call : ∀ s, d.superCall = some s → CallIn t d s

theorem stands_children {d : Definition} (h : Stands t d) (cs : List Definition) :
    Stands t { d with children := cs } := by
  obtain ⟨⟨x, hx⟩, hcall⟩ := h
  refine ⟨⟨x, ?_⟩, fun s hs => ⟨(hcall s hs).within, (hcall s hs).stands⟩⟩
  cases hx
  constructor <;> assumption

theorem find_stands {fuel start stop : Nat} {ds : List Definition} (hstart : start ≤ stop)
    (hstop : stop ≤ t.length) (h : findIn library (Script.marked t) t fuel start stop = .ok ds) :
    ∀ d ∈ walkAll ds, Stands t d := by
  induction fuel generalizing start stop ds with
  | zero =>
    simp only [findIn, Except.ok.injEq] at h
    subst h
    simp [walkAll]
  | succ fuel ih =>
    rw [findIn] at h
    cases hhead : header? library (t.window start stop) with
    | none =>
      simp only [hhead, Except.ok.injEq] at h
      subst h
      simp [walkAll]
    | some x =>
      obtain ⟨hit, exported⟩ := x
      simp only [hhead, bind, Except.bind] at h
      split at h
      · simp at h
      · next d hd =>
        obtain ⟨hcut, hcall, _, hbody, hfooter, hend⟩ := of_header_cut hstart hstop hhead hd
        split at h
        · simp at h
        · next children hchildren =>
          split at h
          · simp at h
          · next rest hrest =>
            simp only [pure, Except.pure, Except.ok.injEq] at h
            subst h
            simp only [walkAll, walk, List.cons_append, List.mem_cons, List.mem_append]
            rintro e (rfl | he | he)
            · exact stands_children ⟨hcut, hcall⟩ children
            · exact ih hbody (by omega) hchildren e he
            · exact ih hend hstop hrest e he

/-- Every definition of a text stands in it. -/
theorem find_all_stands {tree : List Definition} (h : findAll library t = .ok tree) :
    ∀ d ∈ walkAll tree, Stands t d :=
  find_stands (Nat.zero_le _) (Nat.le_refl _) h

end

end Definition

end Legacy

end Restage
