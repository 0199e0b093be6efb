import Restage.Proofs.CommentedText
import Restage.Proofs.EditCollisions
import Restage.Proofs.GlancingFits

/-!
The definitions of a script with a comment put in. A landmark fits beside the comment just if it fits
without it (`glancing_slide`), so where no header overlaps the comment (`ClearOfHeaders`) the same
headers are found (`header_slide`), and the same calls unless the comment cuts one off (`call_slide`).
The forest is that of the script without the comment, moved (`found_moved`).
-/

set_option autoImplicit false

namespace Restage

def Hit.slide (i n : Nat) (h : Hit) : Hit := ⟨Restage.slide i n h.start, h.parts⟩

theorem hit_slide_stop {i n : Nat} {h : Hit} (hfree : h.stop < i ∨ i ≤ h.start) :
    (h.slide i n).stop = slide i n h.stop := by
  have hstop : h.stop = h.start + h.text.length := rfl
  change slide i n h.start + h.text.length = slide i n h.stop
  rcases hfree with hfree | hfree
  · rw [slide_front (show h.start < i by omega), slide_front hfree, hstop]
  · rw [slide_behind hfree, slide_behind (show i ≤ h.stop by omega), hstop]
    omega

theorem hit_slide_span {i n : Nat} {h : Hit} (hpos : h.start < h.stop)
    (hfree : h.stop ≤ i ∨ i ≤ h.start) : (h.slide i n).span = h.span.slide i n := by
  have hstop : h.stop = h.start + h.text.length := rfl
  have hslid : (h.slide i n).stop = slide i n h.start + h.text.length := rfl
  have hend : (h.slide i n).stop = slideEnd i n h.stop := by
    rcases hfree with hfree | hfree
    · rw [hslid, slide_front (by omega), slide_end_front hfree, hstop]
    · rw [hslid, slide_behind hfree, slide_end_behind (by omega), hstop]
      omega
  change Span.mk (slide i n h.start) (h.slide i n).stop = ⟨slide i n h.start, slideEnd i n h.stop⟩
  rw [hend]

namespace Pattern

variable {p : Pattern} {t : Text} {stop : Nat} {h : Hit}

theorem fits_within_slice (hf : p.FitsWithin t stop h) (hpos : h.text ≠ []) :
    t.slice h.span = h.text := by
  obtain ⟨r, hr⟩ := fits_within_text hf
  have hbound := (fits_within_bound hf hpos).1
  have hstop : h.stop = h.start + h.text.length := rfl
  have htake : t.take h.stop = (t.take stop).take h.stop := by rw [List.take_take, Nat.min_eq_left hbound]
  have hlength : h.stop - h.start = h.text.length := by omega
  have hr : (t.take stop).drop h.start = h.text ++ r := hr
  change (t.take h.stop).drop h.start = h.text
  rw [htake, List.drop_take, hr, hlength, List.take_left]

/-- What fits in a stretch fits in the whole text, if the pattern ends in a word. -/
theorem fits_within_whole (hp : p.Closed) (hf : p.FitsWithin t stop h) :
    p.FitsWithin t t.length h := by
  have hcut : (t.window h.start t.length).text =
      (t.window h.start stop).text ++ (t.drop stop).drop (h.start - stop) := by
    simp only [Text.window, List.take_length]
    rcases Nat.le_total h.start stop with hle | hle
    · conv_lhs => rw [← List.take_append_drop stop t]
      rw [List.drop_append]
      rcases Nat.le_total stop t.length with hstop | hstop
      · rw [List.length_take, Nat.min_eq_left hstop]
      · rw [List.drop_of_length_le hstop]
        simp
    · rw [List.drop_of_length_le (l := t.take stop) (by rw [List.length_take]; omega), List.drop_drop,
        List.nil_append]
      congr 1
      omega
  rw [FitsWithin, hcut]
  exact fits_extend hp hf _

end Pattern

/-! Fits beside the comment. -/

namespace Script

section

variable {t t' : Text} {i n : Nat} (hw : Widened t t' i n)
include hw

/-- Windows have the same characters in front of the comment, and behind it. -/
theorem window_slide_get {start stop j : Nat} (hj : start + j < i ∨ i ≤ start) :
    (t'.window (slide i n start) (slide i n stop)).text[j]? = (t.window start stop).text[j]? := by
  have hplace : slide i n start + j = slide i n (start + j) := by
    rcases hj with hj | hj
    · rw [slide_front (show start < i by omega), slide_front hj]
    · rw [slide_behind hj, slide_behind (show i ≤ start + j by omega)]
      omega
  simp only [Text.window, List.getElem?_drop, List.getElem?_take, hplace, slide_lt, hw.chars]

theorem window_slide_take (start stop k : Nat) (hk : start + k ≤ i ∨ i ≤ start) :
    (t'.window (slide i n start) (slide i n stop)).text.take k = (t.window start stop).text.take k := by
  refine List.ext_getElem? fun j => ?_
  rw [List.getElem?_take, List.getElem?_take]
  split
  · exact window_slide_get hw (by omega)
  · rfl

/-- A landmark fits beside the comment just if it fits without it. -/
theorem glancing_slide {p : Pattern} (hp : p.Glancing) {stop : Nat} {h : Hit}
    (hfree : h.stop < i ∨ i ≤ h.start) :
    p.FitsWithin t' (slide i n stop) (h.slide i n) ↔ p.FitsWithin t stop h := by
  have hstop : h.stop = h.start + h.text.length := rfl
  have hsame := window_slide_take hw h.start stop (h.text.length + 1) (by omega)
  have hbefore := before_slide hw h.start stop (slide i n stop)
  change p.fits? (t'.window (slide i n h.start) (slide i n stop)).before
    (t'.window (slide i n h.start) (slide i n stop)).text = some h.parts ↔ _
  rw [hbefore]
  exact ⟨fun hf => hp _ _ _ _ hf hsame.symm, fun hf => hp _ _ _ _ hf hsame⟩

theorem fit_source {p : Pattern} (hp : p.Glancing) {stop : Nat} {h : Hit}
    (hf : p.FitsWithin t' (slide i n stop) h) (hfree : h.stop < i ∨ i + n ≤ h.start) :
    ∃ x : Hit, h = x.slide i n ∧ (x.stop < i ∨ i ≤ x.start) ∧ p.FitsWithin t stop x := by
  have hstop : h.stop = h.start + h.text.length := rfl
  have hback : h = Hit.slide i n ⟨unslide i n h.start, h.parts⟩ := by
    cases h
    simp only [Hit.slide, Hit.mk.injEq, and_true]
    simp only at hstop hfree
    unfold slide unslide
    split_ifs <;> omega
  have hside : unslide i n h.start + h.text.length < i ∨ i ≤ unslide i n h.start := by
    unfold unslide
    split_ifs <;> omega
  refine ⟨⟨unslide i n h.start, h.parts⟩, hback, hside, ?_⟩
  rw [hback] at hf
  exact (glancing_slide (h := ⟨unslide i n h.start, h.parts⟩) hw hp hside).1 hf

end

end Script

namespace Legacy

open Conversion Script

namespace Definition

/-! Headers. -/

/-- No header overlaps a stretch of a text. -/
def ClearOfHeaders (library t : Text) (s : Span) : Prop :=
  ∀ k < s.stop, ∀ member : Bool, ∀ parts ∈ (headerAt library member).fits?
    (t.window k t.length).before (t.window k t.length).text, ¬ (Hit.mk k parts).span.Overlaps s

instance (library t : Text) (s : Span) : Decidable (ClearOfHeaders library t s) :=
  inferInstanceAs (Decidable (∀ k < s.stop, ∀ member : Bool, ∀ parts ∈ (headerAt library member).fits?
    (t.window k t.length).before (t.window k t.length).text, ¬ (Hit.mk k parts).span.Overlaps s))

section

variable {library t t' : Text} {i n start stop : Nat} {d : Definition} (hw : Widened t t' i n)
include hw

theorem line_slide : t'[i - 1]? = some '\n' := by
  have hfront := hw.front
  rw [← slide_front (i := i) (n := n) (k := i - 1) (by omega), hw.chars, hw.line.1]

theorem header_source (hclear : ClearOfHeaders library t' ⟨i, i + n⟩) {h : Hit} {member : Bool}
    (hh : HeaderFit library t' (slide i n start) (slide i n stop) h member) :
    ∃ x : Hit, h = x.slide i n ∧ (x.stop < i ∨ i ≤ x.start) ∧
      HeaderFit library t start stop x member := by
  have hapart : h.stop ≤ i ∨ i + n ≤ h.start := by
    rcases Nat.lt_or_ge h.start (i + n) with hlt | hge
    · have hwhole := Pattern.fits_within_whole (header_closed library member) hh.fits
      have := hclear h.start hlt member h.parts hwhole
      by_contra hnot
      exact this ⟨hlt, show i < h.stop by omega⟩
    · exact Or.inr hge
  have hend : h.stop ≠ i := by
    intro hend
    have hbrace := (header_brace hh.fits).2.2
    rw [hend, line_slide hw] at hbrace
    exact absurd hbrace (by decide)
  obtain ⟨x, rfl, hfree, hfits⟩ := fit_source hw (header_glancing library member) hh.fits (by omega)
  exact ⟨x, rfl, hfree, slide_le.1 hh.first, hfits⟩

/-- The header that is found is the one that is found without the comment. -/
theorem header_slide (hclear : ClearOfHeaders library t' ⟨i, i + n⟩) (hstart : start ≤ stop)
    (hstop : stop ≤ t.length)
    (hfree : ∀ h member, header? library (t.window start stop) = some (h, member) →
      h.stop ≤ i ∨ i ≤ h.start) :
    header? library (t'.window (slide i n start) (slide i n stop)) =
      (header? library (t.window start stop)).map fun x => (x.1.slide i n, x.2) := by
  have hstart' : slide i n start ≤ slide i n stop := slide_le.2 hstart
  have hstop' : slide i n stop ≤ t'.length := by
    rw [length_widened hw, ← slide_behind hw.front.2]
    exact slide_le.2 hstop
  cases hh : header? library (t.window start stop) with
  | none =>
    cases hh' : header? library (t'.window (slide i n start) (slide i n stop)) with
    | none => rfl
    | some y =>
      obtain ⟨h, member⟩ := y
      obtain ⟨x, _, _, hx⟩ := header_source hw hclear (header_leftmost hstart' hstop' hh').1
      exact absurd hx (header_nowhere hstart hstop hh x member)
  | some y =>
    obtain ⟨h, member⟩ := y
    obtain ⟨hfit, hleft⟩ := header_leftmost hstart hstop hh
    obtain ⟨_, _, hbrace⟩ := header_brace hfit.fits
    have hend : h.stop ≠ i := by
      intro hend
      rw [hend, hw.line.1] at hbrace
      exact absurd hbrace (by decide)
    have hside : h.stop < i ∨ i ≤ h.start := by
      have := hfree h member hh
      omega
    refine header_found hstart' hstop' ⟨slide_le.2 hfit.first,
      (glancing_slide hw (header_glancing library member) hside).2 hfit.fits⟩ fun y other hy => ?_
    obtain ⟨x, rfl, _, hx⟩ := header_source hw hclear hy
    obtain ⟨hle, hmember⟩ := hleft x other hx
    exact ⟨slide_le.2 hle, fun h => hmember (slide_le.1 h)⟩

end

/-! Calls of the base class. -/

mutual
/-- A definition in a text in which so many characters are put in at a position. -/
def moved (i n : Nat) : Definition → Definition
  | ⟨name, target, base, params, indent, header, body, footer, exported, call, children⟩ =>
    ⟨name, target, base, params, indent, header.slide i n,
      ⟨Restage.slide i n body.start, Restage.slide i n body.stop⟩, footer.slide i n, exported,
      call.map (Span.slide i n), movedAll i n children⟩
def movedAll (i n : Nat) : List Definition → List Definition
  | [] => []
  | d :: ds => moved i n d :: movedAll i n ds
end

@[simp] theorem moved_base (i n : Nat) (d : Definition) : (moved i n d).base = d.base := by
  cases d
  rfl

@[simp] theorem moved_body (i n : Nat) (d : Definition) :
    (moved i n d).body = ⟨slide i n d.body.start, slide i n d.body.stop⟩ := by
  cases d
  rfl

@[simp] theorem moved_footer (i n : Nat) (d : Definition) :
    (moved i n d).footer = d.footer.slide i n := by
  cases d
  rfl

@[simp] theorem moved_children (i n : Nat) (d : Definition) :
    (moved i n d).children = movedAll i n d.children := by
  cases d
  rfl

/-- The spans of a definition that a conversion replaces. -/
def spans (d : Definition) : List Span := d.header :: d.footer :: d.superCall.toList

/-- A position stands in none of these spans. -/
def Outside (k : Nat) (d : Definition) : Prop := ∀ s ∈ spans d, s.stop ≤ k ∨ k ≤ s.start

instance (k : Nat) (d : Definition) : Decidable (Outside k d) :=
  inferInstanceAs (Decidable (∀ s ∈ spans d, s.stop ≤ k ∨ k ≤ s.start))

/-- The call of a definition ends at a position, and not behind a comma. -/
def CutsCall (t : Text) (k : Nat) (d : Definition) : Prop :=
  ∃ s ∈ d.superCall, s.stop = k ∧ ',' ∉ t.slice s

instance (t : Text) (k : Nat) (d : Definition) : Decidable (CutsCall t k d) :=
  inferInstanceAs (Decidable (∃ s ∈ d.superCall, s.stop = k ∧ ',' ∉ t.slice s))

/-- No comment begins in a call. -/
theorem call_slash {base : Base} {b : Option Char} {t : Text} {parts : List Text}
    (h : (superCallOf base).fits? b t = some parts) : '/' ∉ parts.flatten := by
  obtain ⟨_, s1, s2, comma, s3, _, rfl, _, hcall⟩ := call_iff.1 h
  have hbase : '/' ∉ base.text := by cases base <;> decide
  have hblank : ∀ {s : Text}, (∀ c ∈ s, Text.isBlank c = true) → '/' ∉ s :=
    fun hs hin => absurd (hs _ hin) (by decide)
  have hcomma : '/' ∉ comma := fun hin => absurd (call_comma hcall _ hin) (by decide)
  simp [hbase, hblank hcall.first, hblank hcall.second, hblank hcall.third, hcomma]

section

variable {library t t' : Text} {i n start stop : Nat} {d : Definition} (hw : Widened t t' i n)
include hw

theorem own_call_slide {s : Span} (hs : OwnCall t d s)
    (hfree : s.stop < i ∨ i ≤ s.start ∨ s.stop = i ∧ ',' ∈ t.slice s) :
    OwnCall t' (moved i n d) (s.slide i n) := by
  obtain ⟨parts, hfit, hstop⟩ := hs.fits
  obtain ⟨hlength, _⟩ := own_call_start hs
  have hspan : (Hit.mk s.start parts).span = s := by rw [Hit.span, Hit.stop, Hit.text, ← hstop]
  have hend : (Hit.mk s.start parts).stop = s.stop := hstop.symm
  refine ⟨?_, ?_, ⟨parts, ?_, ?_⟩, ?_, fun a b ha hsa hsb hb hclose => ?_⟩
  · rw [moved_body]
    exact slide_le.2 hs.first
  · rw [moved_body]
    exact slide_end_le.2 hs.last
  · rw [moved_base, moved_body]
    rcases hfree with hfree | hfree | ⟨hfree, hcomma⟩
    · exact (glancing_slide (h := ⟨s.start, parts⟩) hw (call_glancing d.base) (Or.inl (hend ▸ hfree))).2
        hfit
    · exact (glancing_slide (h := ⟨s.start, parts⟩) hw (call_glancing d.base) (Or.inr hfree)).2 hfit
    · have hslice := Pattern.fits_within_slice hfit (call_text hfit)
      rw [hspan] at hslice
      rw [hslice] at hcomma
      obtain ⟨r, hr⟩ := Pattern.fits_within_text hfit
      have htake := window_slide_take hw s.start d.body.stop parts.flatten.length (by omega)
      have hr : (t.window s.start d.body.stop).text = parts.flatten ++ r := hr
      rw [hr, List.take_left] at htake
      have hnext : ((t'.window (slide i n s.start) (slide i n d.body.stop)).text.drop
          parts.flatten.length).head?.all (fun c => !Text.isBlank c) = true := by
        have hplace : slide i n s.start + parts.flatten.length = i := by
          rw [slide_front (by omega)]
          omega
        rw [List.head?_drop]
        simp only [Text.window, List.getElem?_drop, List.getElem?_take, hplace, hw.slash.2]
        split
        · decide
        · rfl
      have hcut := (List.take_append_drop parts.flatten.length
        (t'.window (slide i n s.start) (slide i n d.body.stop)).text).symm
      rw [htake] at hcut
      have hshort := call_cut hfit hcomma hnext
      rw [← hcut, ← before_slide hw s.start d.body.stop (slide i n d.body.stop)] at hshort
      exact hshort
  · have hslid := hit_slide_span (i := i) (n := n) (h := ⟨s.start, parts⟩) (by rw [hend]; exact hlength)
      (by rw [hend]; simp only; omega)
    rw [hspan] at hslid
    exact (congrArg Span.stop hslid).symm
  · exact (hw.code s.start).trans hs.code
  · obtain ⟨a, b, rfl, rfl, hpair⟩ := paired_source hw (closing_brace_paired.1 hclose)
    rw [moved_body] at ha hb
    exact hs.outside a b (slide_le.1 ha) (slide_lt.1 hsa) (slide_lt.1 hsb) (slide_lt.1 hb)
      (closing_brace_paired.2 hpair)

theorem own_call_source {s' : Span} (hs : OwnCall t' (moved i n d) s') :
    ∃ s, OwnCall t d s ∧ s'.start = slide i n s.start := by
  obtain ⟨parts, hfit, hstop⟩ := hs.fits
  obtain ⟨hlength, hhere⟩ := own_call_start hs
  rw [moved_base] at hfit hhere
  rw [moved_body] at hfit
  have hline : callHead d.base ≠ '\n' := by cases d.base <;> decide
  obtain ⟨hplace, hchar⟩ := code_char_source hw hline ⟨hhere, hs.code⟩
  obtain ⟨k, hk⟩ : ∃ k, k = unslide i n s'.start := ⟨_, rfl⟩
  rw [← hk] at hplace hchar
  have hfits : ∃ parts, (superCallOf d.base).FitsWithin t d.body.stop ⟨k, parts⟩ := by
    rw [hplace] at hfit hstop hlength
    rcases Nat.lt_or_ge k i with hfront | hbehind
    · rw [slide_front hfront] at hstop hlength
      rcases Nat.lt_trichotomy s'.stop i with hend | hend | hend
      · exact ⟨parts, (glancing_slide (h := ⟨k, parts⟩) hw (call_glancing d.base)
          (Or.inl (show k + parts.flatten.length < i by omega))).1 hfit⟩
      · -- the comment cuts off the blanks behind the comma
        obtain ⟨r, hr⟩ := Pattern.fits_within_text hfit
        have hr : (t'.window (slide i n k) (slide i n d.body.stop)).text = parts.flatten ++ r := hr
        have hnext : r.head? ≠ some ')' := by
          have hhead : r.head? = (parts.flatten ++ r)[parts.flatten.length]? := by
            rw [List.getElem?_append_right (Nat.le_refl _), Nat.sub_self, List.head?_eq_getElem?]
          have hindex : k + parts.flatten.length = i := by omega
          rw [hhead, ← hr]
          simp only [Text.window, slide_front hfront, List.getElem?_drop, List.getElem?_take, hindex,
            hw.slash.2]
          split <;> simp
        have htake := window_slide_take hw k d.body.stop parts.flatten.length (by omega)
        rw [hr, List.take_left] at htake
        have hcut := (List.take_append_drop parts.flatten.length (t.window k d.body.stop).text).symm
        rw [← htake] at hcut
        have hfit : (superCallOf d.base).fits? (t'.window (slide i n k) (slide i n d.body.stop)).before
          (t'.window (slide i n k) (slide i n d.body.stop)).text = some parts := hfit
        rw [hr, before_slide hw k d.body.stop] at hfit
        obtain ⟨parts', hparts'⟩ := call_regrows hfit hnext
          ((t.window k d.body.stop).text.drop parts.flatten.length)
        rw [← hcut] at hparts'
        exact ⟨parts', hparts'⟩
      · have hget := Pattern.fits_within_get hfit (k := i - k)
          (show i - k < parts.flatten.length by omega)
        have hindex : slide i n k + (i - k) = i := by
          rw [slide_front hfront]
          omega
        simp only [hindex, hw.slash.2] at hget
        exact absurd (List.mem_of_getElem? hget.symm) (call_slash hfit)
    · exact ⟨parts, (glancing_slide (h := ⟨k, parts⟩) hw (call_glancing d.base) (Or.inr hbehind)).1 hfit⟩
  obtain ⟨parts', hfit'⟩ := hfits
  have hfirst := hs.first
  rw [moved_body, hplace] at hfirst
  have hbound := (Pattern.fits_within_bound hfit' (call_text hfit')).1
  refine ⟨⟨k, k + parts'.flatten.length⟩, ⟨slide_le.1 hfirst, hbound,
    ⟨parts', hfit', rfl⟩, hchar.code, fun a b ha hka hkb hb hclose => ?_⟩, hplace⟩
  have houtside := hs.outside (slide i n a) (slide i n b)
  rw [moved_body, hplace] at houtside
  exact houtside (slide_le.2 ha) (slide_lt.2 hka) (slide_lt.2 hkb) (slide_lt.2 hb)
    (closing_brace_paired.2 ((paired_slide hw).2 (closing_brace_paired.1 hclose)))

/-- The call that is found is the one that is found without the comment. -/
theorem call_slide (h : Placed library t start stop d) (hout : Outside i d) (hcut : ¬ CutsCall t i d) :
    (searchTopLevelIn (marked t') (superCallOf d.base) t' (slide i n d.body.start)
      (slide i n d.body.stop)).map Hit.span = d.superCall.map (Span.slide i n) := by
  obtain ⟨k, hopens, hcloses⟩ := placed_body h
  obtain ⟨hsome, hnone⟩ := call_own h
  have hline : k + 1 ≠ i := by
    intro hend
    have hbrace := hcloses.opens.here
    rw [show k = i - 1 by omega, hw.line.1] at hbrace
    exact absurd hbrace (by decide)
  have hopens' : slide i n k + 1 = (moved i n d).body.start := by
    rw [moved_body, ← hopens]
    exact (slide_succ hline).symm
  have hcloses' : Paired t' (slide i n k) (moved i n d).body.stop := by
    rw [moved_body]
    exact (paired_slide hw).2 hcloses
  have hsearch := own_search_iff hopens' hcloses' (o := d.superCall.map (Span.slide i n))
  rw [moved_base, moved_body] at hsearch
  refine hsearch.2 ⟨fun s' hs' => ?_, fun hno s' hs' => ?_⟩
  · obtain ⟨s, hs, rfl⟩ := Option.map_eq_some_iff.1 hs'
    obtain ⟨hown, hleft⟩ := hsome s hs
    have hside : s.stop ≤ i ∨ i ≤ s.start := hout s (by simp [spans, hs])
    refine ⟨own_call_slide hw hown ?_, fun x' hx' => ?_⟩
    · by_cases hend : s.stop = i
      · have hcomma : ',' ∈ t.slice s := by
          by_contra hnot
          exact hcut ⟨s, hs, hend, hnot⟩
        exact Or.inr (Or.inr ⟨hend, hcomma⟩)
      · omega
    · obtain ⟨x, hx, hplace⟩ := own_call_source hw hx'
      rw [hplace]
      exact slide_le.2 (hleft x hx)
  · obtain ⟨s, hs, _⟩ := own_call_source hw hs'
    exact hnone (Option.map_eq_none_iff.1 hno) s hs

end

/-! The forest. -/

theorem closing_in_iff {t : Text} {k j stop : Nat} :
    closingBraceIn (marked t) t k (some stop) = .ok j ↔ Paired t k j ∧ j < stop := by
  constructor
  · intro h
    obtain ⟨_, hclose, hstop⟩ := closing_brace_ok h
    exact ⟨close_of_iff.1 hclose, hstop⟩
  · rintro ⟨hpair, hstop⟩
    simp [closingBraceIn, hpair.opens.here, close_of_iff.2 hpair, hstop]

/-- A closing brace and a footer behind it make a definition of a header. -/
theorem of_header_intro {ms : List Marked} {t : Text} {h : Hit} {exported : Bool} {stop closeAt : Nat}
    {parts : List Text} (hclose : closingBraceIn ms t (h.stop - 1) (some stop) = .ok closeAt)
    (hfoot : footerPattern.fits? none (t.window closeAt stop).text = some parts) :
    ofHeader ms t h exported stop = .ok ⟨h.part 4, h.part 1 ++ h.part 2 ++ h.part 4,
      (Base.ofIdentifier? (h.part 8)).getD .animated, Text.strip (h.part 14), h.part 0, h.span,
      ⟨h.stop - 1 + 1, closeAt⟩, ⟨closeAt, closeAt + parts.flatten.length⟩, exported,
      (searchTopLevelIn ms (superCallOf ((Base.ofIdentifier? (h.part 8)).getD .animated)) t
        (h.stop - 1 + 1) closeAt).map Hit.span, []⟩ := by
  simp [ofHeader, hclose, hfoot, Except.mapError, bind, Except.bind]

section

variable {library t t' : Text} {i n start stop : Nat} {d : Definition} {ds : List Definition}

/-- No footer ends a line. -/
theorem footer_end (h : Begins library t start stop d) : t[d.footer.stop - 1]? ≠ some '\n' := by
  obtain ⟨parts, hfoot, hfooter⟩ := begins_footer h
  obtain ⟨space, gap, last, _, _, hflat, _, hgap, hlast⟩ := footer_parts hfoot
  have hcut : parts.flatten = ('}' :: space) ++ (')' :: (gap ++ last)) := by simp [hflat]
  have hlength : parts.flatten.length = space.length + 1 + ((gap ++ last).length + 1) := by
    rw [hcut, List.length_append, List.length_cons, List.length_cons]
  have hget := Pattern.fits_within_get hfoot (k := parts.flatten.length - 1)
    (show parts.flatten.length - 1 < parts.flatten.length by omega)
  have hplace : d.footer.stop - 1 = d.body.stop + (parts.flatten.length - 1) := by
    rw [hfooter]
    simp only
    omega
  have hindex : parts.flatten.length - 1 = ('}' :: space).length + (gap ++ last).length := by
    simp only [List.length_cons]
    omega
  have hhere : (')' :: (gap ++ last))[(gap ++ last).length]? = t[d.footer.stop - 1]? := by
    rw [hplace, hget, hindex, Hit.text, hcut, List.getElem?_append_right (Nat.le_add_right _ _),
      Nat.add_sub_cancel_left]
  intro hline
  have hmem := List.mem_of_getElem? (hhere.trans hline)
  simp only [List.mem_cons, List.mem_append] at hmem
  rcases hmem with hmem | hmem | hmem
  · exact absurd hmem (by decide)
  · exact absurd (hgap _ hmem) (by decide)
  · rcases hlast with rfl | rfl
    · simp at hmem
    · exact absurd (List.mem_singleton.1 hmem) (by decide)

/-- Neither the header nor the footer of a definition ends where the comment begins. -/
theorem ends_uncut (hw : Widened t t' i n) (h : Placed library t start stop d) :
    d.header.stop ≠ i ∧ d.footer.stop ≠ i := by
  constructor
  · rintro rfl
    have hbrace := (placed_spans h).closes.opens.here
    rw [hw.line.1] at hbrace
    exact absurd hbrace (by decide)
  · rintro rfl
    exact footer_end h.begins hw.line.1

section

variable (hw : Widened t t' i n) (hclear : ClearOfHeaders library t' ⟨i, i + n⟩)
include hw hclear

theorem begins_moved (h : Placed library t start stop d) (hout : Outside i d)
    (hcut : ¬ CutsCall t i d) :
    Begins library t' (slide i n start) (slide i n stop) (moved i n d) := by
  have hcall := call_slide hw h hout hcut
  have hends := ends_uncut hw h
  have hsides : (d.header.stop ≤ i ∨ i ≤ d.header.start) ∧ (d.footer.stop ≤ i ∨ i ≤ d.footer.start) :=
    ⟨hout _ (by simp [spans]), hout _ (by simp [spans])⟩
  have hspans := placed_spans h
  obtain ⟨hit, hhead, hd⟩ := h.begins
  obtain ⟨closeAt, parts, hclose, hfoot, heq⟩ := of_header_ok hd
  have hheader := header_slide hw hclear h.order h.bound (fun x member hx => by
    rw [hhead] at hx
    obtain ⟨rfl, rfl⟩ := Prod.mk.inj (Option.some.inj hx)
    cases d
    simp only [Definition.mk.injEq] at heq
    obtain ⟨_, _, _, _, _, rfl, _⟩ := heq
    exact hsides.1)
  rw [hhead] at hheader
  cases d with
  | mk name target base params indent header body footer exported call children =>
    simp only [Definition.mk.injEq] at heq
    obtain ⟨rfl, rfl, rfl, rfl, rfl, rfl, rfl, rfl, -, hsearch, -⟩ := heq
    simp only at hcall hends hsides hheader hsearch
    have hpos : hit.start < hit.stop := hspans.header
    have hfoots : closeAt < closeAt + parts.flatten.length := hspans.foot
    obtain ⟨hpair, hlast⟩ := closing_in_iff.1 hclose
    have hend : hit.stop ≠ i := hends.1
    have hfootend : closeAt + parts.flatten.length ≠ i := hends.2
    have hside : hit.stop ≤ i ∨ i ≤ hit.start := hsides.1
    have hstop : (hit.slide i n).stop = slide i n hit.stop := hit_slide_stop (by omega)
    have hlength : hit.stop - 1 + 1 = hit.stop := by omega
    have hsucc := slide_succ (n := n) (show hit.stop - 1 + 1 ≠ i by omega)
    have hopens : slide i n hit.stop - 1 = slide i n (hit.stop - 1) := by
      rw [← hlength, hsucc, Nat.add_sub_cancel, Nat.add_sub_cancel]
    have hbody : slide i n hit.stop - 1 + 1 = slide i n (hit.stop - 1 + 1) := by
      rw [hopens, hsucc]
    have hclose' : closingBraceIn (marked t') t' ((hit.slide i n).stop - 1) (some (slide i n stop)) =
        .ok (slide i n closeAt) := by
      rw [hstop, hopens]
      exact closing_in_iff.2 ⟨(paired_slide hw).2 hpair, slide_lt.2 hlast⟩
    have hfree : closeAt + parts.flatten.length < i ∨ i ≤ closeAt := by omega
    have hfoot' : footerPattern.fits? none (t'.window (slide i n closeAt) (slide i n stop)).text =
        some parts := (glancing_slide (h := ⟨closeAt, parts⟩) hw footer_glancing hfree).2 hfoot
    have hfootspan := hit_slide_span (i := i) (n := n) (h := ⟨closeAt, parts⟩) hfoots hsides.2
    refine ⟨hit.slide i n, hheader, ?_⟩
    rw [of_header_intro hclose' hfoot']
    simp only [moved, Except.ok.injEq, Definition.mk.injEq, true_and, and_true]
    refine ⟨rfl, rfl, rfl, rfl, rfl, hit_slide_span hpos hside, ?_, hfootspan, ?_⟩
    · rw [hstop, hbody]
    · rw [hstop, hbody]
      exact hcall

/-- The definitions of a stretch are those that are found without the comment, moved. -/
theorem found_moved (hstart : start ≤ stop) (hstop : stop ≤ t.length) (hg : Guarded t start stop)
    (h : Found library t start stop ds) (hout : ∀ d ∈ walkAll ds, Outside i d)
    (hcut : ∀ d ∈ walkAll ds, ¬ CutsCall t i d) :
    Found library t' (slide i n start) (slide i n stop) (movedAll i n ds) := by
  induction h with
  | @none start stop hnone =>
    refine .none ?_
    have hheader := header_slide hw hclear hstart hstop (by simp [hnone])
    rw [hheader, hnone]
    rfl
  | @next start stop d ds h hin hrest ihin ihrest =>
    have hplaced : Placed library t start stop d := ⟨hstart, hstop, hg, h, hin⟩
    have hspans := begins_spans hstart hstop h
    obtain ⟨hfirst, hheader, hopens, hinner, hfooter, hfoot, hlast⟩ := spans_order hspans
    have hself : d ∈ walkAll (d :: ds) := mem_walk_all.2 (Or.inl rfl)
    have hend : d.footer.stop ≠ i := by
      intro hend
      have hline := footer_end h
      rw [hend, hw.line.1] at hline
      exact hline rfl
    have hplace : (moved i n d).footer.stop = slide i n d.footer.stop := by
      rw [moved_footer]
      exact slide_end_eq hend
    refine .next (begins_moved hw hclear hplaced (hout d hself) (hcut d hself)) ?_ ?_
    · rw [moved_body, moved_children]
      exact ihin hinner (by omega) (guarded_body hspans)
        (fun e he => hout e (mem_walk_all.2 (Or.inr (Or.inl he))))
        fun e he => hcut e (mem_walk_all.2 (Or.inr (Or.inl he)))
    · rw [hplace]
      exact ihrest hlast hstop (guarded_behind hg (by omega))
        (fun e he => hout e (mem_walk_all.2 (Or.inr (Or.inr he))))
        fun e he => hcut e (mem_walk_all.2 (Or.inr (Or.inr he)))

theorem find_all_moved (h : findAll library t = .ok ds) (hout : ∀ d ∈ walkAll ds, Outside i d)
    (hcut : ∀ d ∈ walkAll ds, ¬ CutsCall t i d) : findAll library t' = .ok (movedAll i n ds) := by
  have hfound := found_moved hw hclear (Nat.zero_le _) (Nat.le_refl _) (guarded_whole t)
    (find_all_iff.1 h) hout hcut
  rw [slide_front hw.front.1, slide_behind hw.front.2, ← length_widened hw] at hfound
  exact find_all_iff.2 hfound

end

end

end Definition

end Legacy

end Restage
