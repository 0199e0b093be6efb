import Restage.Proofs.OwnCalls

/-!
How far the landmarks of a definition look. Headers and footers look at most one character past what
they take (`header_glancing`, `footer_glancing`), and so do calls of the base class (`call_glancing`),
which can also be cut off behind their comma (`call_cut`). The header of a stretch is the leftmost
fit of the two header patterns in it (`header_leftmost`).
-/

set_option autoImplicit false

namespace Restage

open Text (endOf)

namespace Piece

theorem maybe_local (c : Char) : (maybe [c]).Local := by
  intro t q a r hr
  cases t with
  | nil =>
    refine iff_of_false (fun h => hr ?_) fun h => hr ?_
    · exact (List.append_eq_nil_iff.1 (split?_append h).symm).2
    · have hlength := congrArg List.length (split?_append h)
      simp only [List.nil_append, List.length_append] at hlength
      exact List.length_eq_zero_iff.1 (by omega)
  | cons d t =>
    by_cases hc : c = d
    · simp [split?, Text.after?, hc]
    · simp only [split?, List.cons_append, Text.after?, hc, if_false, Option.some.injEq, Prod.mk.injEq]
      rw [← List.cons_append, List.append_cancel_right_eq]

/-- One of some words is taken where one of them stands, if none of them begins another. -/
theorem one_of_iff {ws : List Text} (hws : ∀ v ∈ ws, ∀ w ∈ ws, v <+: w → v = w) {t a r : Text} :
    (oneOf ws).split? t = some (a, r) ↔ a ∈ ws ∧ t = a ++ r := by
  refine ⟨one_of_split, ?_⟩
  rintro ⟨ha, rfl⟩
  cases hs : (oneOf ws).split? (a ++ r) with
  | none =>
    rw [split?, List.findSome?_eq_none_iff] at hs
    have := hs a ha
    simp [Text.after?_append] at this
  | some x =>
    obtain ⟨b, u⟩ := x
    obtain ⟨hb, hcut⟩ := one_of_split hs
    have hsame : a = b := by
      rcases List.prefix_or_prefix_of_prefix (List.prefix_append a r) ⟨u, hcut.symm⟩ with h | h
      · exact hws a ha b hb h
      · exact (hws b hb a ha h).symm
    subst hsame
    rw [List.append_cancel_left hcut]

theorem one_of_local {ws : List Text} (hws : ∀ v ∈ ws, ∀ w ∈ ws, v <+: w → v = w) :
    (oneOf ws).Local := by
  intro t q a r _
  rw [one_of_iff hws, one_of_iff hws, ← List.append_assoc, List.append_cancel_right_eq]

/-- What such pieces read they read whatever stands behind the next character. -/
theorem locals_read {ps : List Piece} (hps : ∀ p ∈ ps, p.Local) {t q r : Text} {parts : List Text}
    (hr : r ≠ []) : readAll ps t = some (parts, r) ↔ readAll ps (t ++ q) = some (parts, r ++ q) := by
  induction ps generalizing t parts with
  | nil => rw [readAll_nil_iff, readAll_nil_iff, List.append_cancel_right_eq]
  | cons p ps ih =>
    have hp := hps p (by simp)
    have hlocal : ∀ p' ∈ ps, p'.Local := fun p' hp' => hps p' (by simp [hp'])
    rw [readAll_cons_iff, readAll_cons_iff]
    constructor
    · rintro ⟨a, u, rest, hsplit, hrest, rfl⟩
      have hu : u ≠ [] := by
        rw [readAll_flatten hrest]
        simp [hr]
      exact ⟨a, u ++ q, rest, (hp t q a u hu).1 hsplit, (ih hlocal).1 hrest, rfl⟩
    · rintro ⟨a, u, rest, hsplit, hrest, rfl⟩
      have hu : u = (rest.flatten ++ r) ++ q := by
        rw [readAll_flatten hrest, List.append_assoc]
      rw [hu] at hsplit hrest
      exact ⟨a, rest.flatten ++ r, rest, (hp t q a _ (by simp [hr])).2 hsplit, (ih hlocal).2 hrest, rfl⟩

end Piece

namespace Pattern

variable {p : Pattern} {t : Text} {start stop : Nat} {h : Hit}

/-- Whether the pattern fits depends on what it takes and on the next character. -/
def Glancing (p : Pattern) : Prop := ∀ b t u parts, p.fits? b t = some parts →
  u.take (parts.flatten.length + 1) = t.take (parts.flatten.length + 1) → p.fits? b u = some parts

/-- Texts that agree on a stretch and the character behind it. -/
theorem glance_cut {w r u : Text} (h : u.take (w.length + 1) = (w ++ r).take (w.length + 1)) :
    ∃ r', u = w ++ r' ∧ r'.head? = r.head? := by
  have hfront : u.take w.length = w := by
    have hless := congrArg (List.take w.length) h
    rwa [List.take_take, List.take_take, Nat.min_eq_left (Nat.le_succ _), List.take_left] at hless
  have hcut : u = w ++ u.drop w.length := by
    conv_lhs => rw [← List.take_append_drop w.length u, hfront]
  refine ⟨u.drop w.length, hcut, ?_⟩
  have hnext := congrArg (fun t : Text => t[w.length]?) h
  simp only [List.getElem?_take_of_lt (Nat.lt_succ_self _)] at hnext
  rw [List.getElem?_append_right (Nat.le_refl _), Nat.sub_self, ← List.head?_eq_getElem?] at hnext
  rw [List.head?_drop, hnext]

theorem glancing_of_local (hp : ∀ q ∈ p.pieces, q.Local) : p.Glancing := by
  intro b t u parts hfit hsame
  obtain ⟨hb, r, hread⟩ := fits_some.1 hfit
  have hflat := Piece.readAll_flatten hread
  rw [hflat] at hsame
  obtain ⟨r', rfl, hhead⟩ := glance_cut hsame
  cases r with
  | nil =>
    obtain rfl : r' = [] := List.head?_eq_none_iff.1 hhead
    rw [← hflat, hfit]
  | cons c r =>
    obtain ⟨r', rfl⟩ := List.head?_eq_some_iff.1 hhead
    have hcut : ∀ v : Text, parts.flatten ++ c :: v = (parts.flatten ++ [c]) ++ v := by simp
    rw [hflat, hcut] at hread
    rw [hcut]
    have hshort := (Piece.locals_read hp (r := [c]) (q := r) (by simp)).2 hread
    exact fits_some.2 ⟨hb, _, (Piece.locals_read hp (by simp)).1 hshort⟩

/-! Fits in a stretch. -/

section

variable (hstart : start ≤ stop) (hstop : stop ≤ t.length)
include hstart hstop

/-- The first fit of a stretch is the leftmost of its fits. -/
theorem first_leftmost (hf : p.first? (t.window start stop) = some h) :
    start ≤ h.start ∧ p.FitsWithin t stop h ∧
      ∀ x, start ≤ x.start → x.start ≤ stop → p.FitsWithin t stop x → h.start ≤ x.start := by
  obtain ⟨pre, mid, post, rfl, rfl, rfl, hwindow⟩ := Text.window_cut hstart hstop
  rw [first?, hwindow] at hf
  obtain ⟨u, v, rfl, hat, hsilent, hfit⟩ := first_iff.1 hf
  have hat : h.start = pre.length + u.length := hat
  refine ⟨by omega, ?_, fun x hx _ hfits => ?_⟩
  · rw [FitsWithin, hat, Text.window_part]
    exact hfit
  · by_contra hless
    obtain ⟨a, w, hu, ha⟩ : ∃ a w, u = a ++ w ∧ x.start = pre.length + a.length :=
      ⟨u.take (x.start - pre.length), u.drop (x.start - pre.length), by simp,
        by rw [List.length_take]; omega⟩
    have hw : w ≠ [] := by
      rintro rfl
      rw [hu, List.append_nil] at hat
      omega
    subst hu
    rw [FitsWithin, ha, List.append_assoc a w v, Text.window_part] at hfits
    rw [hsilent a w rfl hw] at hfits
    simp at hfits

theorem first_nowhere (hf : p.first? (t.window start stop) = none) {x : Hit} (hx : start ≤ x.start)
    (hx' : x.start ≤ stop) : ¬ p.FitsWithin t stop x := by
  obtain ⟨pre, mid, post, rfl, rfl, rfl, hwindow⟩ := Text.window_cut hstart hstop
  obtain ⟨a, w, rfl, ha⟩ : ∃ a w, mid = a ++ w ∧ x.start = pre.length + a.length :=
    ⟨mid.take (x.start - pre.length), mid.drop (x.start - pre.length), by simp,
      by rw [List.length_take]; omega⟩
  rw [first?, hwindow] at hf
  rw [FitsWithin, ha, Text.window_part, fits_of_first_none hf]
  simp

end

end Pattern

namespace Legacy

namespace Definition

variable {library t : Text} {start stop : Nat} {h : Hit} {member : Bool}

/-! Headers. -/

/-- The pattern of the headers of members of the library, and that of the others. -/
def headerAt (library : Text) : Bool → Pattern
  | true => memberHeader library
  | false => variableHeader

theorem bases_apart : ∀ v ∈ Base.all.map Base.text, ∀ w ∈ Base.all.map Base.text, v <+: w → v = w := by
  decide

theorem header_local (library : Text) (member : Bool) :
    ∀ q ∈ (headerAt library member).pieces, q.Local := by
  intro q hq
  cases member <;>
    simp only [headerAt, memberHeader, variableHeader, headerOf, headerRest, Piece.name, Piece.gap,
      Piece.gaps, Piece.lit, List.cons_append, List.nil_append, List.mem_cons, List.not_mem_nil,
      or_false] at hq <;>
    obtain rfl | rfl | rfl | rfl | rfl | rfl | rfl | rfl | rfl | rfl | rfl | rfl | rfl | rfl | rfl |
      rfl | rfl | rfl := hq <;>
    first
    | exact Piece.word_local _
    | exact Piece.run_local _ _
    | exact Piece.next_is_local _
    | exact Piece.one_of_local bases_apart

theorem header_glancing (library : Text) (member : Bool) : (headerAt library member).Glancing :=
  Pattern.glancing_of_local (header_local library member)

theorem header_closed (library : Text) (member : Bool) : (headerAt library member).Closed := by
  have hcut : (headerAt library member).pieces =
      (headerAt library member).pieces.dropLast ++ [.lit "\x7b"] := by
    cases member <;> rfl
  exact ⟨_, _, hcut, fun q hq => header_local library member q (List.mem_of_mem_dropLast hq), by decide⟩

/-- A header ends with the brace that opens its block. -/
theorem header_brace (hf : (headerAt library member).FitsWithin t stop h) :
    h.start < h.stop ∧ h.stop ≤ stop ∧ t[h.stop - 1]? = some '{' := by
  obtain ⟨s, hs⟩ : ∃ s, h.text = s ++ ['{'] := by
    cases member <;> obtain ⟨_, link, keyword, gap, _, _, hflat, _⟩ := header_reads hf <;>
      exact ⟨h.part 0 ++ ((h.part 1 ++ h.part 2 ++ h.part 4) ++ (link ++ '(' :: (keyword ++
        '(' :: (h.part 14 ++ ')' :: gap)))), by rw [Hit.text, hflat]; simp [Hit.part]⟩
  have hlength : h.text.length = s.length + 1 := by simp [hs]
  have hpos : h.text ≠ [] := by simp [hs]
  have hstop : h.stop = h.start + (s.length + 1) := by rw [Hit.stop, hlength]
  refine ⟨by omega, (Pattern.fits_within_bound hf hpos).1, ?_⟩
  have hget := Pattern.fits_within_get hf (k := s.length) (by omega)
  rw [hstop, Nat.add_sub_assoc (by omega), Nat.add_sub_cancel, hget, hs]
  simp

/-- A header that begins in a stretch and ends in it. -/
structure HeaderFit (library t : Text) (start stop : Nat) (h : Hit) (member : Bool) : Prop where
  first : start ≤ h.start
  fits : (headerAt library member).FitsWithin t stop h

section

variable (hstart : start ≤ stop) (hstop : stop ≤ t.length)
include hstart hstop

/-- The header that is found is the leftmost in its stretch, and one of a member of the library if two
begin at one place. -/
theorem header_leftmost (hh : header? library (t.window start stop) = some (h, member)) :
    HeaderFit library t start stop h member ∧ ∀ x other, HeaderFit library t start stop x other →
      h.start ≤ x.start ∧ (x.start ≤ h.start → other = true → member = true) := by
  have hinside : ∀ {x other}, HeaderFit library t start stop x other → x.start ≤ stop := by
    intro x other hx
    have := header_brace hx.fits
    omega
  rw [header?] at hh
  split at hh
  · next m v hm hv =>
    obtain ⟨hm1, hm2, hleftm⟩ := Pattern.first_leftmost hstart hstop hm
    obtain ⟨hv1, hv2, hleftv⟩ := Pattern.first_leftmost hstart hstop hv
    split at hh
    · next horder =>
      obtain ⟨rfl, rfl⟩ := Prod.mk.inj (Option.some.inj hh)
      refine ⟨⟨hm1, hm2⟩, fun x other hx => ⟨?_, fun _ _ => rfl⟩⟩
      cases other with
      | true => exact hleftm x hx.first (hinside hx) hx.fits
      | false => exact Nat.le_trans horder (hleftv x hx.first (hinside hx) hx.fits)
    · next horder =>
      obtain ⟨rfl, rfl⟩ := Prod.mk.inj (Option.some.inj hh)
      refine ⟨⟨hv1, hv2⟩, fun x other hx => ?_⟩
      cases other with
      | true =>
        have := hleftm x hx.first (hinside hx) hx.fits
        exact ⟨by omega, fun hle => by omega⟩
      | false => exact ⟨hleftv x hx.first (hinside hx) hx.fits, fun _ => id⟩
  · next m hm hv =>
    obtain ⟨rfl, rfl⟩ := Prod.mk.inj (Option.some.inj hh)
    obtain ⟨hm1, hm2, hleftm⟩ := Pattern.first_leftmost hstart hstop hm
    refine ⟨⟨hm1, hm2⟩, fun x other hx => ⟨?_, fun _ _ => rfl⟩⟩
    cases other with
    | true => exact hleftm x hx.first (hinside hx) hx.fits
    | false => exact absurd hx.fits (Pattern.first_nowhere hstart hstop hv hx.first (hinside hx))
  · next v hm hv =>
    obtain ⟨rfl, rfl⟩ := Prod.mk.inj (Option.some.inj hh)
    obtain ⟨hv1, hv2, hleftv⟩ := Pattern.first_leftmost hstart hstop hv
    refine ⟨⟨hv1, hv2⟩, fun x other hx => ?_⟩
    cases other with
    | true => exact absurd hx.fits (Pattern.first_nowhere hstart hstop hm hx.first (hinside hx))
    | false => exact ⟨hleftv x hx.first (hinside hx) hx.fits, fun _ => id⟩
  · simp at hh

theorem header_nowhere (hh : header? library (t.window start stop) = none) (x : Hit) (other : Bool) :
    ¬ HeaderFit library t start stop x other := by
  intro hx
  have hinside : x.start ≤ stop := by
    have := header_brace hx.fits
    omega
  rw [header?] at hh
  split at hh
  · split at hh <;> simp at hh
  · simp at hh
  · simp at hh
  · next hm hv =>
    cases other with
    | true => exact Pattern.first_nowhere hstart hstop hm hx.first hinside hx.fits
    | false => exact Pattern.first_nowhere hstart hstop hv hx.first hinside hx.fits

/-- The leftmost header of a stretch is the one that is found. -/
theorem header_found (hfit : HeaderFit library t start stop h member)
    (hleft : ∀ x other, HeaderFit library t start stop x other →
      h.start ≤ x.start ∧ (x.start ≤ h.start → other = true → member = true)) :
    header? library (t.window start stop) = some (h, member) := by
  cases hh : header? library (t.window start stop) with
  | none => exact absurd hfit (header_nowhere hstart hstop hh h member)
  | some y =>
    obtain ⟨y, other⟩ := y
    obtain ⟨hy, hlefty⟩ := header_leftmost hstart hstop hh
    have h1 := hleft y other hy
    have h2 := hlefty h member hfit
    have hsame : y.start = h.start := Nat.le_antisymm h2.1 h1.1
    obtain rfl : other = member := by
      have h1 := h1.2 (Nat.le_of_eq hsame)
      have h2 := h2.2 (Nat.le_of_eq hsame.symm)
      cases other <;> cases member <;> simp_all
    have hparts : y.parts = h.parts := by
      have hfy := hy.fits
      rw [Pattern.FitsWithin, hsame] at hfy
      exact Option.some.inj (hfy.symm.trans hfit.fits)
    cases y
    cases h
    simp only at hsame hparts
    rw [hsame, hparts]

end

/-! Footers. -/

theorem footer_glancing : footerPattern.Glancing := by
  refine Pattern.glancing_of_local fun q hq => ?_
  simp only [footerPattern, Piece.blanks, Piece.gap, Piece.lit, List.mem_cons, List.not_mem_nil,
    or_false] at hq
  obtain rfl | rfl | rfl | rfl | rfl := hq <;>
    first
    | exact Piece.word_local _
    | exact Piece.run_local _ _
    | exact Piece.maybe_local _

/-! Calls of the base class. -/

variable {base : Base} {b : Option Char} {parts : List Text} {r : Text}

theorem call_glancing (base : Base) : (superCallOf base).Glancing := by
  intro b t u parts hfit hsame
  obtain ⟨hb, s1, s2, comma, s3, r, hparts, hflat, hcall⟩ := call_iff.1 hfit
  rw [hflat] at hsame
  obtain ⟨r', rfl, hhead⟩ := Pattern.glance_cut hsame
  exact call_iff.2 ⟨hb, s1, s2, comma, s3, r', hparts, rfl, hcall.first, hcall.second, hcall.third,
    hhead ▸ hcall.next, hhead ▸ hcall.last⟩

/-- A call with a comma ends where its blanks do, whatever follows. -/
theorem call_cut (hfit : (superCallOf base).fits? b t = some parts) (hcomma : ',' ∈ parts.flatten)
    (hr : r.head?.all (fun c => !Text.isBlank c) = true) :
    (superCallOf base).fits? b (parts.flatten ++ r) = some parts := by
  obtain ⟨hb, s1, s2, comma, s3, _, hparts, _, hcall⟩ := call_iff.1 hfit
  refine call_iff.2 ⟨hb, s1, s2, comma, s3, r, hparts, rfl, hcall.first, hcall.second, hcall.third, hr,
    Or.inl (hcall.last.resolve_right ?_)⟩
  rintro ⟨rfl, rfl, _⟩
  have hbase : ',' ∉ base.text := by cases base <;> decide
  have hblank : ∀ {s : Text}, (∀ c ∈ s, Text.isBlank c = true) → ',' ∉ s :=
    fun hs hin => absurd (hs _ hin) (by decide)
  rw [hparts] at hcomma
  simp [hbase, hblank hcall.first, hblank hcall.second] at hcomma

/-- A call that no bracket ends goes on in the blanks behind it. -/
theorem call_regrows (hfit : (superCallOf base).fits? b (parts.flatten ++ r) = some parts)
    (hr : r.head? ≠ some ')') (r' : Text) : ∃ parts',
      (superCallOf base).fits? b (parts.flatten ++ r') = some parts' := by
  obtain ⟨hb, s1, s2, comma, s3, _, hparts, hflat, hcall⟩ := call_iff.1 hfit
  obtain rfl := List.append_cancel_left hflat
  have hcomma := hcall.last.resolve_right fun h => hr h.2.2
  refine ⟨_, call_iff.2 ⟨hb, s1, s2, comma, s3 ++ r'.takeWhile Text.isBlank, r'.dropWhile Text.isBlank,
    rfl, ?_, hcall.first, hcall.second, ?_, ?_, Or.inl hcomma⟩⟩
  · rw [hparts]
    simp [List.takeWhile_append_dropWhile]
  · intro c hc
    rcases List.mem_append.1 hc with hc | hc
    · exact hcall.third c hc
    · exact List.mem_takeWhile_imp hc
  · cases hd : r'.dropWhile Text.isBlank with
    | nil => rfl
    | cons c v =>
      have := List.head?_dropWhile_not Text.isBlank r'
      simpa [hd] using this

end Definition

end Legacy

end Restage
