import Restage.Proofs.BlockComments
import Restage.Proofs.OwnCalls

/-!
A script with a comment put in between two of its lines. Code, levels and pairs of braces are those of
the script without it, moved by the comment where they stand behind it (`paired_slide`), and so is what
stands in front of a position (`before_slide`).
-/

set_option autoImplicit false

namespace Restage

/-! Positions. -/

/-- Where a position goes when so many characters are put in at another. -/
def slide (i n k : Nat) : Nat := if k < i then k else k + n

/-- Where the end of a stretch goes. -/
def slideEnd (i n k : Nat) : Nat := if k ≤ i then k else k + n

/-- The position that one in the longer text comes from; the characters put in come from the place
where they are put. -/
def unslide (i n k : Nat) : Nat := if k ≤ i then k else if k ≤ i + n then i else k - n

def Span.slide (i n : Nat) (s : Span) : Span := ⟨Restage.slide i n s.start, slideEnd i n s.stop⟩

section

variable {i n k : Nat}

theorem slide_front (h : k < i) : slide i n k = k := if_pos h

theorem slide_behind (h : i ≤ k) : slide i n k = k + n := if_neg (Nat.not_lt.2 h)

theorem slide_end_front (h : k ≤ i) : slideEnd i n k = k := if_pos h

theorem slide_end_behind (h : i < k) : slideEnd i n k = k + n := if_neg (Nat.not_le.2 h)

theorem unslide_slide (i n k : Nat) : unslide i n (slide i n k) = k := by
  unfold unslide slide
  split_ifs <;> omega

theorem slide_lt {l : Nat} : slide i n k < slide i n l ↔ k < l := by
  unfold slide
  split_ifs <;> omega

theorem slide_le {l : Nat} : slide i n k ≤ slide i n l ↔ k ≤ l := by
  unfold slide
  split_ifs <;> omega

theorem slide_succ (h : k + 1 ≠ i) : slide i n (k + 1) = slide i n k + 1 := by
  unfold slide
  split_ifs <;> omega

/-- The end of a stretch goes where the position does, unless it stands where characters are put in. -/
theorem slide_end_eq (h : k ≠ i) : slideEnd i n k = slide i n k := by
  unfold slideEnd slide
  split_ifs <;> omega

theorem slide_end_le {l : Nat} : slideEnd i n k ≤ slide i n l ↔ k ≤ l := by
  unfold slideEnd slide
  split_ifs <;> omega

end

namespace Script

/-- A script with a comment put in between two of its lines. -/
structure Widened (t t' : Text) (i n : Nat) : Prop where
  front : 0 < i ∧ i ≤ t.length
  line : t[i - 1]? = some '\n' ∧ t'[i + n - 1]? = some '\n'
  slash : 0 < n ∧ t'[i]? = some '/'
  chars : ∀ k, t'[slide i n k]? = t[k]?
  code : ∀ k, isCode t' (slide i n k) = isCode t k
  inside : ∀ c k, i ≤ k → k < i + n → CodeChar t' c k → c = '\n'

theorem widened_comment {u m v : Text} (hu : ['\n'] <:+ u) (h : isClearScript u = true)
    (hm : CommentLines m) :
    Widened (u ++ v) (u ++ (commentBlock m ++ v)) u.length (commentBlock m).length := by
  obtain ⟨bs, cs, hlength, hmask, hmask'⟩ := comment_mask hu h hm v
  have hblock : (commentBlock m).length = m.length + 6 := by simp [commentBlock]
  have hpos : 0 < u.length := List.length_pos_of_mem (line_mem hu)
  have hends : (commentBlock m)[m.length + 5]? = some '\n' := by
    have hcut : commentBlock m = ('/' :: '*' :: '\n' :: (m ++ ['*', '/'])) ++ ['\n'] := by
      simp [commentBlock]
    rw [hcut, List.getElem?_append_right (by simp)]
    simp
  have hcode : ∀ k, u.length ≤ k → k < u.length + (m.length + 5) →
      isCode (u ++ (commentBlock m ++ v)) k = false := by
    intro k hk hlt
    rw [isCode, hmask', List.getD_eq_getElem?_getD, List.getElem?_append_right (by omega),
      List.getElem?_append_left (by simp; omega), List.getElem?_replicate_of_lt (by omega)]
    rfl
  refine ⟨⟨hpos, by simp⟩, ⟨?_, ?_⟩, ⟨by omega, ?_⟩, fun k => ?_, fun k => ?_, fun c k hk hlt hc => ?_⟩
  · obtain ⟨w, rfl⟩ := hu
    simp
  · rw [List.getElem?_append_right (by omega), List.getElem?_append_left (by omega), ← hends]
    congr 1
    omega
  · rw [List.getElem?_append_right (Nat.le_refl _)]
    simp [commentBlock]
  · unfold slide
    split
    · next hk => rw [List.getElem?_append_left hk, List.getElem?_append_left hk]
    · next hk =>
      rw [List.getElem?_append_right (by omega), List.getElem?_append_right (by omega),
        List.getElem?_append_right (by omega)]
      congr 1
      omega
  · unfold slide
    rw [isCode, isCode, hmask, hmask', List.getD_eq_getElem?_getD, List.getD_eq_getElem?_getD]
    split
    · next hk =>
      rw [List.getElem?_append_left (by omega), List.getElem?_append_left (by omega)]
    · next hk =>
      have hrun : (List.replicate (m.length + 5) false).length = m.length + 5 := List.length_replicate
      have hindex : k + (commentBlock m).length - bs.length -
          (List.replicate (m.length + 5) false).length = (k - bs.length) + 1 := by omega
      rw [List.getElem?_append_right (by omega), List.getElem?_append_right (by omega),
        List.getElem?_append_right (by omega), hindex, List.getElem?_cons_succ]
  · have hlast : k = u.length + (m.length + 5) := by
      by_contra hne
      have hfalse := hcode k hk (by omega)
      rw [hc.code] at hfalse
      exact Bool.noConfusion hfalse
    have hchar := hc.here
    rw [hlast, List.getElem?_append_right (by omega), List.getElem?_append_left (by omega),
      Nat.add_sub_cancel_left, hends] at hchar
    exact (Option.some.inj hchar).symm

section

variable {t t' : Text} {i n : Nat} (hw : Widened t t' i n)
include hw

theorem code_char_slide {c : Char} {k : Nat} : CodeChar t' c (slide i n k) ↔ CodeChar t c k := by
  constructor
  · rintro ⟨hhere, hcode⟩
    exact ⟨by rw [← hw.chars, hhere], by rw [← hw.code, hcode]⟩
  · rintro ⟨hhere, hcode⟩
    exact ⟨by rw [hw.chars, hhere], by rw [hw.code, hcode]⟩

/-- Code in the longer script is code of the shorter one, unless it ends a line. -/
theorem code_char_source {c : Char} {k : Nat} (hc : c ≠ '\n') (h : CodeChar t' c k) :
    k = slide i n (unslide i n k) ∧ CodeChar t c (unslide i n k) := by
  have hout : k < i ∨ i + n ≤ k := by
    by_contra hin
    exact hc (hw.inside c k (by omega) (by omega) h)
  have hback : k = slide i n (unslide i n k) := by
    unfold slide unslide
    split_ifs <;> omega
  refine ⟨hback, ?_⟩
  rw [hback] at h
  exact (code_char_slide hw).1 h

theorem weight_slide (k : Nat) :
    level t' (slide i n k + 1) - level t' (slide i n k) = level t (k + 1) - level t k := by
  by_cases hopen : CodeChar t '{' k
  · have := level_open hopen
    have := level_open ((code_char_slide hw).2 hopen)
    omega
  · by_cases hclose : CodeChar t '}' k
    · have := level_close hclose
      have := level_close ((code_char_slide hw).2 hclose)
      omega
    · have := level_other hopen hclose
      have := level_other (fun h => hopen ((code_char_slide hw).1 h))
        fun h => hclose ((code_char_slide hw).1 h)
      omega

theorem level_inside_comment {k : Nat} (hk : i ≤ k) (hlt : k < i + n) :
    level t' (k + 1) = level t' k := by
  refine level_other (fun h => ?_) fun h => ?_
  · exact absurd (hw.inside _ k hk hlt h) (by decide)
  · exact absurd (hw.inside _ k hk hlt h) (by decide)

/-- Every position has the level that it comes from. -/
theorem level_unslide (k : Nat) : level t' k = level t (unslide i n k) := by
  induction k with
  | zero =>
    have hzero : unslide i n 0 = 0 := if_pos (Nat.zero_le i)
    rw [hzero]
    rfl
  | succ k ih =>
    rcases Nat.lt_or_ge k i with hfront | hfront
    · have hstep := weight_slide hw k
      rw [slide_front hfront] at hstep
      have h1 : unslide i n (k + 1) = k + 1 := if_pos hfront
      have h2 : unslide i n k = k := if_pos (Nat.le_of_lt hfront)
      rw [h2] at ih
      rw [h1]
      omega
    · rcases Nat.lt_or_ge k (i + n) with hin | hin
      · have hsame : unslide i n (k + 1) = unslide i n k := by
          unfold unslide
          split_ifs <;> omega
        rw [hsame, ← ih]
        exact level_inside_comment hw hfront hin
      · obtain ⟨l, rfl⟩ : ∃ l, k = l + n := ⟨k - n, by omega⟩
        have hstep := weight_slide hw l
        rw [slide_behind (by omega)] at hstep
        have h1 : unslide i n (l + n + 1) = l + 1 := by
          unfold unslide
          split_ifs <;> omega
        have h2 : unslide i n (l + n) = l := by
          unfold unslide
          split_ifs <;> omega
        rw [h2] at ih
        rw [h1]
        omega

/-- Pairs of braces are those of the shorter script. -/
theorem paired_slide {a b : Nat} : Paired t' (slide i n a) (slide i n b) ↔ Paired t a b := by
  have hlevel : ∀ k, level t' (slide i n k) = level t k := fun k => by
    rw [level_unslide hw, unslide_slide]
  have hnext : level t' (slide i n b + 1) = level t (b + 1) := by
    have := weight_slide hw b
    have := hlevel b
    omega
  constructor
  · rintro ⟨hopens, hcloses, horder, hreturns, habove⟩
    rw [hnext, hlevel] at hreturns
    refine ⟨(code_char_slide hw).1 hopens, (code_char_slide hw).1 hcloses, slide_lt.1 horder, hreturns,
      fun k hak hkb => ?_⟩
    have := habove (slide i n k) (slide_lt.2 hak) (slide_le.2 hkb)
    rwa [hlevel, hlevel] at this
  · rintro ⟨hopens, hcloses, horder, hreturns, habove⟩
    refine ⟨(code_char_slide hw).2 hopens, (code_char_slide hw).2 hcloses, slide_lt.2 horder, ?_,
      fun k hak hkb => ?_⟩
    · rw [hnext, hlevel, hreturns]
    · rw [hlevel, level_unslide hw k]
      refine habove _ ?_ ?_
      · unfold slide at hak
        unfold unslide
        split_ifs at hak ⊢ <;> omega
      · unfold slide at hkb
        unfold unslide
        split_ifs at hkb ⊢ <;> omega

theorem paired_source {a' b' : Nat} (h : Paired t' a' b') :
    ∃ a b, a' = slide i n a ∧ b' = slide i n b ∧ Paired t a b := by
  have hopen := (code_char_source hw (by decide) h.opens).1
  have hclose := (code_char_source hw (by decide) h.closes).1
  refine ⟨_, _, hopen, hclose, ?_⟩
  rw [hopen, hclose] at h
  exact (paired_slide hw).1 h

theorem length_widened : t'.length = t.length + n := by
  have hfront := hw.front
  have hnone := hw.chars t.length
  rw [slide_behind hfront.2, List.getElem?_eq_none (Nat.le_refl _), List.getElem?_eq_none_iff] at hnone
  refine Nat.le_antisymm hnone ?_
  have hlast : t'[t.length + n - 1]? ≠ none := by
    rcases Nat.eq_or_lt_of_le hfront.2 with hend | hmore
    · have := hw.line.2
      rw [← hend, this]
      simp
    · have := hw.chars (t.length - 1)
      rw [slide_behind (by omega), List.getElem?_eq_getElem (l := t) (by omega)] at this
      have hindex : t.length + n - 1 = t.length - 1 + n := by omega
      rw [hindex, this]
      simp
  rw [ne_eq, List.getElem?_eq_none_iff] at hlast
  omega

/-- The character in front of a position is the one in front of where it goes. -/
theorem before_slide (k stop stop' : Nat) :
    (t'.window (slide i n k) stop').before = (t.window k stop).before := by
  have hfront := hw.front
  have hslash := hw.slash
  simp only [Text.window]
  rcases Nat.lt_trichotomy k i with hk | rfl | hk
  · rw [slide_front hk]
    by_cases hzero : k = 0
    · rw [if_pos hzero, if_pos hzero]
    · have := hw.chars (k - 1)
      rw [slide_front (by omega)] at this
      rw [if_neg hzero, if_neg hzero, this]
  · rw [slide_behind (Nat.le_refl k), if_neg (by omega), if_neg (by omega), hw.line.1, hw.line.2]
  · have := hw.chars (k - 1)
    rw [slide_behind (by omega)] at this
    have hindex : k + n - 1 = k - 1 + n := by omega
    rw [slide_behind (by omega), if_neg (by omega), if_neg (by omega), hindex, this]

end

end Script

end Restage
