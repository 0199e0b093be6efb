import Restage.Proofs.Occurrence
import Restage.Proofs.QuotedScript

/-!
The code of a script whose only literals are strings, as a text. `visible` puts a quote in the place
of every character of a string, so that a word which begins at code is a word of the visible text
(`word_visible`). A script that the automaton reads to its end is read line by line (`tidy_line`).
-/

set_option autoImplicit false

namespace Restage.Script

/-- The text with a quote in the place of every character of a string. -/
def visible : Post → Text → Text
  | _, [] => []
  | m, c :: cs =>
    (if m.inString || isQuote c then '\x22' else c) :: visible ((m.next c).getD .behind) cs

theorem visible_append {m n : Post} {u : Text} (h : scan m u = some n) (v : Text) :
    visible m (u ++ v) = visible m u ++ visible n v := by
  induction u generalizing m with
  | nil =>
    simp only [scan, Option.some.injEq] at h
    rw [h]; rfl
  | cons c u ih =>
    rw [scan] at h
    cases hn : m.next c with
    | none => simp [hn] at h
    | some k =>
      simp only [hn, Option.bind_some] at h
      simp [visible, hn, ih h]

/-- Without quotes all of a text is visible. -/
theorem visible_unquoted {m n : Post} {u : Text} (hm : m.inString = false)
    (hu : ∀ c ∈ u, isQuote c = false) (h : scan m u = some n) : visible m u = u := by
  induction u generalizing m with
  | nil => rfl
  | cons c u ih =>
    have hc := hu c (by simp)
    rw [scan] at h
    cases hn : m.next c with
    | none => simp [hn] at h
    | some k =>
      simp only [hn, Option.bind_some] at h
      have hrest := ih (next_unquoted hm hc hn) (fun d hd => hu d (by simp [hd])) h
      simp [visible, hm, hc, hn, hrest]

theorem next_outside {m : Post} {c : Char} (hm : m.inString = false) (hc : isQuote c = false) :
    ((m.next c).getD .behind).inString = false := by
  cases hn : m.next c with
  | none => rfl
  | some k => exact next_unquoted hm hc hn

theorem word_visible_front {m : Post} {w : Text} (hm : m.inString = false)
    (hw : ∀ c ∈ w, isQuote c = false) (v : Text) : w <+: visible m (w ++ v) := by
  induction w generalizing m with
  | nil => exact List.nil_prefix
  | cons c w ih =>
    have hc := hw c (by simp)
    have hrest := ih (next_outside hm hc) (fun d hd => hw d (by simp [hd]))
    rw [List.cons_append, visible]
    simpa [hm, hc] using hrest

/-- A word without quotes that begins at code is visible. -/
theorem word_visible {m : Post} {u w v : Text} (hne : w ≠ []) (hw : ∀ c ∈ w, isQuote c = false)
    (hcode : (quoteMask m (u ++ (w ++ v))).getD u.length true = true) :
    w <:+: visible m (u ++ (w ++ v)) := by
  induction u generalizing m with
  | nil =>
    obtain ⟨c, w, rfl⟩ := List.exists_cons_of_ne_nil hne
    have hm : m.inString = false := by
      simp only [List.nil_append, List.cons_append, quoteMask, List.length_nil,
        List.getD_cons_zero, Bool.and_eq_true, Bool.not_eq_true'] at hcode
      exact hcode.1
    exact (word_visible_front hm hw v).isInfix
  | cons d u ih =>
    rw [List.cons_append, quoteMask, List.length_cons, List.getD_cons_succ] at hcode
    exact (ih hcode).trans (List.suffix_cons _ _).isInfix

/-! Lines. -/

/-- A text that the automaton reads to its end and leaves outside strings. -/
def Tidy (t : Text) : Prop := ∃ n, n.inString = false ∧ scan .fresh t = some n

theorem line_end {m : Post} (hm : m.inString = false) : m.next '\n' = some .fresh := by
  rw [Post.next_plain hm]
  rfl

section

variable {u v : Text} (hu : Tidy u)
include hu

theorem scan_line : scan .fresh (u ++ '\n' :: v) = scan .fresh v := by
  obtain ⟨n, hn, h⟩ := hu
  rw [scan_append, h, Option.bind_some, scan, line_end hn, Option.bind_some]

theorem tidy_line (hv : Tidy v) : Tidy (u ++ '\n' :: v) := by
  obtain ⟨n, hn, h⟩ := hv
  exact ⟨n, hn, by rw [scan_line hu, h]⟩

theorem visible_line : visible .fresh (u ++ '\n' :: v) =
    visible .fresh u ++ '\n' :: visible .fresh v := by
  obtain ⟨n, hn, h⟩ := hu
  rw [visible_append h, visible, line_end hn, hn]
  rfl

end

theorem tidy_nil : Tidy [] := ⟨.fresh, rfl, rfl⟩

section

variable {u : Text} (hu : Bare u)
include hu

theorem bare_unquoted : ∀ c ∈ u, isQuote c = false := fun c hc => opens_not_quote (hu.1 c hc)

theorem tidy_bare : Tidy u := scan_bare rfl hu.1 (by simpa [Post.arrow] using hu.2)

theorem visible_bare : visible .fresh u = u := by
  obtain ⟨n, _, h⟩ := tidy_bare hu
  exact visible_unquoted rfl (bare_unquoted hu) h

theorem mask_bare : quoteMask .fresh u = List.replicate u.length true := by
  obtain ⟨n, _, h⟩ := tidy_bare hu
  exact (scan_unquoted rfl (bare_unquoted hu) h).2

end

/-! Strings. -/

/-- What may stand between two quotes. -/
def InQuotes (q : Char) (s : Text) : Prop := ∀ c ∈ s, c ≠ q ∧ c ≠ '\\' ∧ c ≠ '\n' ∧ c ≠ '\r'

theorem scan_inside {q : Char} {s : Text} (hs : InQuotes q s) :
    scan (.quoted q) (s ++ [q]) = some .behind := by
  induction s with
  | nil => simp [scan, Post.next]
  | cons c s ih =>
    obtain ⟨h1, h2, h3, h4⟩ := hs c (by simp)
    rw [List.cons_append, scan, Post.next, if_neg h1, if_neg (by simp [h2, h3, h4])]
    exact ih fun d hd => hs d (by simp [hd])

theorem visible_inside {q : Char} {s : Text} (hs : InQuotes q s) :
    ∀ c ∈ visible (.quoted q) (s ++ [q]), c = '\x22' := by
  induction s with
  | nil => simp [visible, Post.inString]
  | cons c s ih =>
    obtain ⟨h1, h2, h3, h4⟩ := hs c (by simp)
    have hnext : (Post.quoted q).next c = some (.quoted q) := by
      rw [Post.next, if_neg h1, if_neg (by simp [h2, h3, h4])]
    rw [List.cons_append, visible, hnext]
    intro d hd
    rcases List.mem_cons.1 hd with rfl | hd
    · rfl
    · exact ih (fun e he => hs e (by simp [he])) d hd

/-- A string is read from one quote to the other, and nothing of it is visible. -/
theorem scan_quotes {m : Post} (hm : m.inString = false) {q : Char} (hq : isQuote q = true)
    {s : Text} (hs : InQuotes q s) :
    scan m (q :: (s ++ [q])) = some .behind ∧
      ∀ c ∈ visible m (q :: (s ++ [q])), c = '\x22' := by
  have hnext : m.next q = some (.quoted q) := by
    rw [Post.next_plain hm, Post.plainNext, if_pos hq]
  refine ⟨by rw [scan, hnext]; exact scan_inside hs, ?_⟩
  rw [visible, hnext, hm, hq]
  intro c hc
  rcases List.mem_cons.1 hc with rfl | hc
  · rfl
  · exact visible_inside hs c hc

/-- Characters that neither open a literal nor end an arrow are read at every place. -/
theorem scan_harmless {m : Post} (hm : m.inString = false) {u : Text}
    (hu : ∀ c ∈ u, opensLiteral c = false ∧ c ≠ '>') :
    ∃ n, n.inString = false ∧ scan m u = some n ∧ visible m u = u := by
  have harrow : ¬ "-->".toList <:+: m.arrow ++ u := by
    intro h
    have hmem : '>' ∈ m.arrow ++ u := h.subset (by simp)
    rcases List.mem_append.1 hmem with hmem | hmem
    · cases m <;> simp [Post.arrow] at hmem
    · exact (hu _ hmem).2 rfl
  obtain ⟨n, hn, h⟩ := scan_bare hm (fun c hc => (hu c hc).1) harrow
  exact ⟨n, hn, h, visible_unquoted hm (fun c hc => opens_not_quote (hu c hc).1) h⟩

/-! Texts that are read from every place outside strings. -/

/-- A text that is read from every place outside strings and leaves them, and of which only
characters of a class are visible. -/
def Flows (p : Char → Bool) (u : Text) : Prop :=
  ∀ m, m.inString = false → ∃ n, n.inString = false ∧ scan m u = some n ∧
    ∀ c ∈ visible m u, p c = true

section

variable {p : Char → Bool} {u v : Text}

theorem flows_append (hu : Flows p u) (hv : Flows p v) : Flows p (u ++ v) := by
  intro m hm
  obtain ⟨k, hk, h1, h2⟩ := hu m hm
  obtain ⟨n, hn, h3, h4⟩ := hv k hk
  refine ⟨n, hn, by rw [scan_append, h1]; exact h3, ?_⟩
  rw [visible_append h1]
  intro c hc
  exact (List.mem_append.1 hc).elim (h2 c) (h4 c)

theorem flows_harmless (hu : ∀ c ∈ u, opensLiteral c = false ∧ c ≠ '>')
    (hp : ∀ c ∈ u, p c = true) : Flows p u := by
  intro m hm
  obtain ⟨n, hn, h1, h2⟩ := scan_harmless hm hu
  exact ⟨n, hn, h1, by rw [h2]; exact hp⟩

theorem flows_quotes {q : Char} (hq : isQuote q = true) (hs : InQuotes q u)
    (hp : p '\x22' = true) : Flows p (q :: (u ++ [q])) := by
  intro m hm
  obtain ⟨h1, h2⟩ := scan_quotes hm hq hs
  exact ⟨.behind, rfl, h1, fun c hc => by rw [h2 c hc]; exact hp⟩

theorem flows_tidy (hu : Flows p u) : Tidy u := by
  obtain ⟨n, hn, h, _⟩ := hu .fresh rfl
  exact ⟨n, hn, h⟩

end

end Restage.Script
