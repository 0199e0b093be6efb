import Restage.Proofs.DefinitionForest

/-!
The call of the base class that a definition makes itself. A call is found among fits that do not
overlap, but no two fits of its pattern do (`call_lone`), and at the depth of the body, which is the
depth of a position that no pair of braces in the body encloses. So the call of a definition is the
leftmost one of its own (`super_call_own`).
-/

set_option autoImplicit false

namespace Restage

open Text (endOf)

theorem Text.window_get {t : Text} {start stop k : Nat} (h1 : start ≤ k) (h2 : k < stop) :
    (t.window start stop).text[k - start]? = t[k]? := by
  rw [Text.window, List.getElem?_drop, List.getElem?_take_of_lt (by omega)]
  congr 1
  omega

/-- A window that begins inside another one. -/
theorem Text.window_part (pre u v post : Text) :
    (pre ++ ((u ++ v) ++ post)).window (pre.length + u.length) (pre.length + (u ++ v).length) =
      ⟨endOf (endOf none pre) u, pre.length + u.length, v⟩ := by
  have hcut : pre ++ ((u ++ v) ++ post) = (pre ++ u) ++ (v ++ post) := by simp
  have hstop : pre.length + (u ++ v).length = (pre ++ u).length + v.length := by
    simp only [List.length_append]
    omega
  rw [hcut, hstop, ← List.length_append, Text.window_middle, Text.endOf_append]

namespace Pattern

variable {p : Pattern} {c : Char} {b : Option Char} {i skip : Nat} {t : Text} {h : Hit}

/-- Every fit of a pattern begins with a character that it has nowhere else. -/
def Lone (p : Pattern) (c : Char) : Prop :=
  ∀ b t parts, p.fits? b t = some parts → ∃ r, parts.flatten = c :: r ∧ c ∉ r

theorem lone_head (hp : p.Lone c) {parts : List Text} (hf : p.fits? b t = some parts) :
    t.head? = some c := by
  obtain ⟨r, hr, _⟩ := hp b t parts hf
  obtain ⟨_, rest, hread⟩ := fits_some.1 hf
  rw [Piece.readAll_flatten hread, hr]
  rfl

/-- The fits of such a pattern do not overlap, so all of them are hits. -/
theorem lone_hits (hp : p.Lone c) (hskip : c ∉ t.take skip) {u v : Text} (ht : t = u ++ v)
    (hstart : h.start = i + u.length) (hf : p.fits? (endOf b u) v = some h.parts) :
    h ∈ p.hitsFrom b i skip t := by
  have hhit : ∀ {i : Nat} {parts : List Text}, h.start = i → h.parts = parts → h = ⟨i, parts⟩ := by
    rintro i parts rfl rfl
    rfl
  fun_induction p.hitsFrom b i skip t generalizing u with
  | case1 b i parts hfit =>
    obtain ⟨rfl, rfl⟩ := List.append_eq_nil_iff.1 ht.symm
    rw [endOf, hfit, Option.some.injEq] at hf
    exact List.mem_singleton.2 (hhit hstart hf.symm)
  | case2 b i hfit =>
    obtain ⟨rfl, rfl⟩ := List.append_eq_nil_iff.1 ht.symm
    rw [endOf, hfit] at hf
    simp at hf
  | case3 =>
    obtain ⟨rfl, rfl⟩ := List.append_eq_nil_iff.1 ht.symm
    have := lone_head hp hf
    simp at this
  | case4 b i d cs parts hfit ih =>
    cases u with
    | nil =>
      rw [List.nil_append] at ht
      subst ht
      rw [endOf, hfit, Option.some.injEq] at hf
      rw [hhit hstart hf.symm]
      exact List.mem_cons_self
    | cons e u =>
      obtain ⟨rfl, rfl⟩ := List.cons.inj ht
      refine List.mem_cons_of_mem _ (ih ?_ rfl (by rw [hstart, List.length_cons]; omega) hf)
      obtain ⟨r, hr, hrest⟩ := hp _ _ _ hfit
      obtain ⟨_, rest, hread⟩ := fits_some.1 hfit
      have hflat := Piece.readAll_flatten hread
      rw [hr, List.cons_append] at hflat
      rw [(List.cons.inj hflat).2, hr, List.length_cons, Nat.add_sub_cancel, List.take_left]
      exact hrest
  | case5 b i d cs hfit ih =>
    cases u with
    | nil =>
      rw [List.nil_append] at ht
      subst ht
      rw [endOf, hfit] at hf
      simp at hf
    | cons e u =>
      obtain ⟨rfl, rfl⟩ := List.cons.inj ht
      exact ih (by simp) rfl (by rw [hstart, List.length_cons]; omega) hf
  | case6 b i skip d cs ih =>
    rw [List.take_succ_cons, List.mem_cons, not_or] at hskip
    cases u with
    | nil =>
      rw [List.nil_append] at ht
      subst ht
      have hhead := lone_head hp hf
      rw [List.head?_cons, Option.some.injEq] at hhead
      exact absurd hhead.symm hskip.1
    | cons e u =>
      obtain ⟨rfl, rfl⟩ := List.cons.inj ht
      exact ih hskip.2 rfl (by rw [hstart, List.length_cons]; omega) hf

theorem hits_ascending (p : Pattern) (b : Option Char) (i skip : Nat) (t : Text) :
    (p.hitsFrom b i skip t).Pairwise fun x y => x.start < y.start := by
  fun_induction p.hitsFrom b i skip t with
  | case1 => exact List.pairwise_singleton _ _
  | case2 => exact List.Pairwise.nil
  | case3 => exact List.Pairwise.nil
  | case4 b i d cs parts hfit ih =>
    refine List.pairwise_cons.2 ⟨fun y hy => ?_, ih⟩
    obtain ⟨u, _, _, hstart, _⟩ := hit_cut hy
    rw [hstart]
    exact Nat.lt_of_lt_of_le (Nat.lt_succ_self i) (Nat.le_add_right _ _)
  | case5 b i d cs hfit ih => exact ih
  | case6 b i skip d cs ih => exact ih

/-- A stretch of a text that a pattern fits in, for a text that ends at a position. -/
def FitsWithin (p : Pattern) (t : Text) (stop : Nat) (h : Hit) : Prop :=
  p.fits? (t.window h.start stop).before (t.window h.start stop).text = some h.parts

theorem fits_within_text {stop : Nat} (hf : p.FitsWithin t stop h) :
    ∃ r, (t.window h.start stop).text = h.text ++ r := by
  obtain ⟨_, r, hread⟩ := fits_some.1 hf
  exact ⟨r, Piece.readAll_flatten hread⟩

theorem fits_within_bound {stop : Nat} (hf : p.FitsWithin t stop h) (hpos : h.text ≠ []) :
    h.stop ≤ stop ∧ h.stop ≤ t.length := by
  obtain ⟨r, hr⟩ := fits_within_text hf
  have hlength := congrArg List.length hr
  rw [Text.window, List.length_drop, List.length_take, List.length_append] at hlength
  have := List.length_pos_of_ne_nil hpos
  rw [Hit.stop]
  omega

theorem fits_within_get {stop : Nat} (hf : p.FitsWithin t stop h) {k : Nat} (hk : k < h.text.length) :
    t[h.start + k]? = h.text[k]? := by
  obtain ⟨r, hr⟩ := fits_within_text hf
  have hpos : h.text ≠ [] := List.ne_nil_of_length_pos (by omega)
  have hbound := (fits_within_bound hf hpos).1
  rw [Hit.stop] at hbound
  have hget : (t.window h.start stop).text[h.start + k - h.start]? = t[h.start + k]? :=
    Text.window_get (by omega) (by omega)
  rw [← hget, hr, Nat.add_sub_cancel_left, List.getElem?_append_left hk]

/-- The hits of a window are the fits in it. -/
theorem window_hits (hp : p.Lone c) {start stop : Nat} (hstart : start ≤ stop)
    (hstop : stop ≤ t.length) : h ∈ p.hits (t.window start stop) ↔
      start ≤ h.start ∧ h.start ≤ stop ∧ p.FitsWithin t stop h := by
  obtain ⟨pre, mid, post, rfl, rfl, rfl, hwindow⟩ := Text.window_cut hstart hstop
  rw [hits, hwindow]
  constructor
  · intro hh
    obtain ⟨u, v, rfl, hat, hfit⟩ := hit_cut hh
    have hat : h.start = pre.length + u.length := hat
    refine ⟨by omega, by rw [List.length_append]; omega, ?_⟩
    rw [FitsWithin, hat, Text.window_part]
    exact hfit
  · rintro ⟨hfrom, hto, hfit⟩
    obtain ⟨u, v, rfl, hat⟩ : ∃ u v, mid = u ++ v ∧ h.start = pre.length + u.length :=
      ⟨mid.take (h.start - pre.length), mid.drop (h.start - pre.length), by simp,
        by rw [List.length_take]; omega⟩
    rw [FitsWithin, hat, Text.window_part] at hfit
    exact lone_hits hp (by simp) rfl hat hfit

/-- A condition on the hits of a window finds the leftmost that meets it. -/
theorem find_leftmost {q : Hit → Bool} {w : Window} (hh : (p.hits w).find? q = some h) :
    h ∈ p.hits w ∧ q h = true ∧ ∀ x ∈ p.hits w, q x = true → h.start ≤ x.start := by
  obtain ⟨hq, before, behind, hcut, hbefore⟩ := List.find?_eq_some_iff_append.1 hh
  refine ⟨List.mem_of_find?_eq_some hh, hq, fun x hx hqx => ?_⟩
  have hascending := hits_ascending p w.before w.start 0 w.text
  rw [← hits, hcut, List.pairwise_append, List.pairwise_cons] at hascending
  rw [hcut, List.mem_append, List.mem_cons] at hx
  rcases hx with hx | rfl | hx
  · have hnot := hbefore x hx
    simp [hqx] at hnot
  · exact Nat.le_refl _
  · exact Nat.le_of_lt (hascending.2.1.1 x hx)

end Pattern

namespace Legacy

namespace Definition

open Script (closingBrace isCode)

/-- A call of the base class that a definition makes itself: it begins in the code of the body, and no
pair of braces in the body encloses its beginning. -/
structure OwnCall (t : Text) (d : Definition) (s : Span) : Prop where
  first : d.body.start ≤ s.start
  last : s.stop ≤ d.body.stop
  fits : ∃ parts, (superCallOf d.base).FitsWithin t d.body.stop ⟨s.start, parts⟩ ∧
    s.stop = s.start + parts.flatten.length
  code : isCode t s.start = true
  outside : ∀ i j, d.body.start ≤ i → i < s.start → s.start < j → j < d.body.stop →
    closingBrace t i none ≠ .ok j

/-- The character that begins the name of a base class. -/
def callHead : Base → Char
  | .animated => 'M'
  | .grouping => 'C'

theorem call_head (base : Base) : ∃ r, base.text = callHead base :: r ∧
    callHead base ∉ r ++ (".call(".toList ++ "this".toList) ∧ callHead base ≠ ',' ∧
      Text.isBlank (callHead base) = false ∧ Script.isBrace (callHead base) = false := by
  cases base <;> exact ⟨_, rfl, by decide, by decide, by decide, by decide⟩

/-- No call of the base class begins in another one. -/
theorem call_lone (base : Base) : (superCallOf base).Lone (callHead base) := by
  intro b t parts h
  obtain ⟨_, s1, s2, comma, s3, rest, rfl, _, hparts⟩ := call_iff.1 h
  obtain ⟨r, hr, hword, hne, hblank, _⟩ := call_head base
  have hspace : ∀ {s : Text}, (∀ c ∈ s, Text.isBlank c = true) → callHead base ∉ s := by
    intro s hs hin
    simp [hs _ hin] at hblank
  have hcomma : callHead base ∉ comma := fun hin => hne (call_comma hparts _ hin)
  rw [List.mem_append, List.mem_append, not_or, not_or] at hword
  refine ⟨r ++ (".call(".toList ++ (s1 ++ ("this".toList ++ (s2 ++ (comma ++ s3))))), by simp [hr], ?_⟩
  simp only [List.mem_append, not_or]
  exact ⟨hword.1, hword.2.1, hspace hparts.first, hword.2.2, hspace hparts.second, hcomma,
    hspace hparts.third⟩

theorem call_text {base : Base} {t : Text} {stop : Nat} {x : Hit}
    (h : (superCallOf base).FitsWithin t stop x) : x.text ≠ [] := by
  obtain ⟨r, hflat, _⟩ := call_lone base _ _ _ h
  rw [Hit.text, hflat]
  simp

section

variable {library t : Text} {start stop : Nat} {d : Definition}

theorem begins_call (h : Begins library t start stop d) : d.superCall =
    (Script.searchTopLevelIn (Script.marked t) (superCallOf d.base) t d.body.start d.body.stop).map
      Hit.span := by
  obtain ⟨hit, _, hd⟩ := h
  obtain ⟨_, _, _, _, heq⟩ := of_header_ok hd
  cases d
  simp only [Definition.mk.injEq] at heq
  obtain ⟨_, _, rfl, _, _, _, rfl, _, _, hcall, _⟩ := heq
  exact hcall

theorem own_call_start {s : Span} (hs : OwnCall t d s) :
    s.start < s.stop ∧ t[s.start]? = some (callHead d.base) := by
  obtain ⟨parts, hfit, hstop⟩ := hs.fits
  obtain ⟨r, hflat, _⟩ := call_lone d.base _ _ _ hfit
  have hlength : s.start < s.stop := by
    rw [hstop, hflat]
    simp
  refine ⟨hlength, ?_⟩
  have hhead := Pattern.fits_within_get hfit (k := 0) (List.length_pos_of_ne_nil (call_text hfit))
  rw [Hit.text, hflat] at hhead
  exact hhead

theorem own_call_unique {s s' : Span} (hs : OwnCall t d s) (hs' : OwnCall t d s')
    (h : s.start = s'.start) : s = s' := by
  obtain ⟨parts, hfit, hstop⟩ := hs.fits
  obtain ⟨parts', hfit', hstop'⟩ := hs'.fits
  rw [← h] at hfit' hstop'
  have hparts : parts = parts' := Option.some.inj (hfit.symm.trans hfit')
  have hend : s.stop = s'.stop := by rw [hstop, hstop', hparts]
  cases s
  cases s'
  exact congrArg₂ Span.mk h hend

section

variable {i : Nat} (hopens : i + 1 = d.body.start) (hcloses : Script.Paired t i d.body.stop)
include hopens hcloses

/-- The hits among which the call of a definition is searched for are its own calls. -/
theorem own_hit_iff {x : Hit} :
    (x ∈ (superCallOf d.base).hits (t.window d.body.start d.body.stop) ∧
      x.start ∈ Script.topLevel t d.body.start d.body.stop) ↔
    OwnCall t d x.span ∧ (superCallOf d.base).FitsWithin t d.body.stop x := by
  have hinner : d.body.start ≤ d.body.stop := by
    have := hcloses.order
    omega
  have hstop : d.body.stop ≤ t.length := Nat.le_of_lt (Script.code_char_bound hcloses.closes)
  have hinside := fun {p} => Script.level_inside_iff (p := p) hcloses
  rw [hopens] at hinside
  rw [Pattern.window_hits (call_lone d.base) hinner hstop, Script.top_level_iff]
  constructor
  · rintro ⟨⟨hfrom, hto, hfit⟩, _, hplain⟩
    obtain ⟨c, hchar, hbrace⟩ := hplain.char
    have hclosed : ¬ Script.CodeChar t '}' x.start := by
      intro hclose
      rw [Script.code_char_unique hchar hclose] at hbrace
      exact absurd hbrace (by decide)
    have hspan : x.stop ≤ d.body.stop := (Pattern.fits_within_bound hfit (call_text hfit)).1
    refine ⟨⟨hfrom, hspan, ⟨x.parts, hfit, rfl⟩, hchar.code, fun i' j hi his hsj hj hclose => ?_⟩, hfit⟩
    exact (hinside hfrom hto hclosed).1 hplain.level i' j hi his hsj hj
      (Script.closing_brace_paired.1 hclose)
  · rintro ⟨hown, hfit⟩
    obtain ⟨_, _, _, _, _, hplain⟩ := call_head d.base
    obtain ⟨hlength, hhere⟩ := own_call_start hown
    have hfrom : d.body.start ≤ x.start := hown.first
    have hto : x.stop ≤ d.body.stop := hown.last
    have hlength : x.start < x.stop := hlength
    have hchar : Script.CodeChar t (callHead d.base) x.start := ⟨hhere, hown.code⟩
    have hclosed : ¬ Script.CodeChar t '}' x.start := by
      intro hclose
      rw [Script.code_char_unique hchar hclose] at hplain
      exact absurd hplain (by decide)
    refine ⟨⟨hfrom, by omega, hfit⟩, hfrom, by omega, ⟨_, hchar, hplain⟩, ?_⟩
    refine (hinside hfrom (by omega) hclosed).2 fun i' j hi his hsj hj hpair => ?_
    exact hown.outside i' j hi his hsj hj (Script.closing_brace_paired.2 hpair)

/-- An own call is the span of one of these hits. -/
theorem own_call_hit {s : Span} (hs : OwnCall t d s) : ∃ x : Hit, x.span = s ∧
    x ∈ (superCallOf d.base).hits (t.window d.body.start d.body.stop) ∧
    x.start ∈ Script.topLevel t d.body.start d.body.stop := by
  obtain ⟨parts, hfit, hstop⟩ := hs.fits
  have hspan : (Hit.mk s.start parts).span = s := by
    rw [Hit.span, Hit.stop, Hit.text, ← hstop]
  exact ⟨⟨s.start, parts⟩, hspan, (own_hit_iff hopens hcloses).2 ⟨hspan.symm ▸ hs, hfit⟩⟩

/-- The search in a body finds the leftmost own call, if there is one. -/
theorem own_search_iff {o : Option Span} :
    (Script.searchTopLevelIn (Script.marked t) (superCallOf d.base) t d.body.start d.body.stop).map
      Hit.span = o ↔
    (∀ s, o = some s → OwnCall t d s ∧ ∀ s', OwnCall t d s' → s.start ≤ s'.start) ∧
      (o = none → ∀ s, ¬ OwnCall t d s) := by
  have hown := fun {x} => own_hit_iff hopens hcloses (x := x)
  have htop : ∀ x : Hit, (Script.topLevelFrom 0 (Script.codeWithin (Script.marked t) d.body.start
      d.body.stop)).contains x.start = true ↔ x.start ∈ Script.topLevel t d.body.start d.body.stop :=
    fun x => List.contains_iff_mem
  rw [Script.search_top_level]
  have hsome : ∀ x, ((superCallOf d.base).hits (t.window d.body.start d.body.stop)).find? (fun h =>
      (Script.topLevelFrom 0 (Script.codeWithin (Script.marked t) d.body.start d.body.stop)).contains
        h.start) = some x →
      OwnCall t d x.span ∧ ∀ s', OwnCall t d s' → x.start ≤ s'.start := by
    intro x hx
    obtain ⟨hmem, htopx, hleft⟩ := Pattern.find_leftmost hx
    refine ⟨(hown.1 ⟨hmem, (htop x).1 htopx⟩).1, fun s' hs' => ?_⟩
    obtain ⟨y, rfl, hy, htopy⟩ := own_call_hit hopens hcloses hs'
    exact hleft y hy ((htop y).2 htopy)
  constructor
  · rintro rfl
    refine ⟨fun s hs => ?_, fun hnone s hs => ?_⟩
    · obtain ⟨x, hx, rfl⟩ := Option.map_eq_some_iff.1 hs
      exact hsome x hx
    · rw [Option.map_eq_none_iff, List.find?_eq_none] at hnone
      obtain ⟨x, _, hx, htopx⟩ := own_call_hit hopens hcloses hs
      exact hnone x hx ((htop x).2 htopx)
  · rintro ⟨hthere, hmissing⟩
    cases hfind : ((superCallOf d.base).hits (t.window d.body.start d.body.stop)).find? (fun h =>
        (Script.topLevelFrom 0 (Script.codeWithin (Script.marked t) d.body.start d.body.stop)).contains
          h.start) with
    | none =>
      cases o with
      | none => rfl
      | some s =>
        obtain ⟨x, _, hx, htopx⟩ := own_call_hit hopens hcloses (hthere s rfl).1
        exact absurd ((htop x).2 htopx) (List.find?_eq_none.1 hfind x hx)
    | some x =>
      obtain ⟨hx, hleftx⟩ := hsome x hfind
      cases o with
      | none => exact absurd hx (hmissing rfl x.span)
      | some s =>
        obtain ⟨hs, hlefts⟩ := hthere s rfl
        rw [Option.map_some, Option.some.injEq]
        exact own_call_unique hx hs (Nat.le_antisymm (hleftx s hs) (hlefts x.span hx))

end

theorem placed_body (h : Placed library t start stop d) : ∃ i, i + 1 = d.body.start ∧
    Script.Paired t i d.body.stop := by
  have hspans := placed_spans h
  have hheader := hspans.header
  refine ⟨d.header.stop - 1, ?_, hspans.closes⟩
  rw [hspans.opens]
  omega

/-- The call of a definition is the leftmost of its own, and there is none just if it makes none. -/
theorem call_own (h : Placed library t start stop d) :
    (∀ s, d.superCall = some s → OwnCall t d s ∧ ∀ s', OwnCall t d s' → s.start ≤ s'.start) ∧
      (d.superCall = none → ∀ s, ¬ OwnCall t d s) := by
  obtain ⟨i, hopens, hcloses⟩ := placed_body h
  exact (own_search_iff hopens hcloses).1 (begins_call h.begins).symm

/-- An own call begins outside the bodies of the definitions in the body. -/
theorem own_call_outside (h : Placed library t start stop d) {s : Span} (hs : OwnCall t d s)
    {e : Definition} (he : e ∈ walkAll d.children) :
    ¬ (e.body.start ≤ s.start ∧ s.start < e.body.stop) := by
  have hspans := placed_spans h
  have hbound := h.bound
  obtain ⟨_, _, _, hinner, hfooter, hfoot, hlast⟩ := spans_order hspans
  obtain ⟨start', stop', hfrom, hto, hplaced⟩ :=
    found_placed hinner (by omega) (guarded_body hspans) h.children e he
  have hspans' := placed_spans hplaced
  have hfirst := hspans'.first
  have hheader := hspans'.header
  have hopens := hspans'.opens
  have hfooter' := hspans'.footer
  have hfoot' := hspans'.foot
  have hlast' := hspans'.last
  rintro ⟨hin, hout⟩
  exact hs.outside (e.header.stop - 1) e.body.stop (by omega) (by omega) hout (by omega)
    (Script.closing_brace_paired.2 hspans'.closes)

end

end Definition

open Definition

end Legacy

end Restage
