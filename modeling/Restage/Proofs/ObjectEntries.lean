import Restage.Legacy.Landmark
import Restage.Proofs.Splitting
import Restage.Proofs.VisibleCode

/-!
The entries of an object literal. The inside of one is cut at the commas that are code at bracket
depth zero (`objectEntries`). Where its only literals are strings, the cut is that of the automaton
(`entries_quoted`), and a stretch over whose ends no string and no bracket goes is cut by itself
(`quoted_comma`).
-/

set_option autoImplicit false

namespace Restage

namespace Text

section

variable {p : Char → Bool} {a u b : Text}

theorem trim_all (ha : ∀ c ∈ a, p c = true) : trim p a = [] := by
  rw [trim, List.dropWhile_eq_nil_iff.2 ha]
  rfl

theorem trim_front (ha : ∀ c ∈ a, p c = true) (u : Text) : trim p (a ++ u) = trim p u := by
  rw [trim, List.dropWhile_append_of_pos ha, trim]

theorem trim_behind (hb : ∀ c ∈ b, p c = true) (u : Text) : trim p (u ++ b) = trim p u := by
  by_cases hu : ∀ c ∈ u, p c = true
  · rw [trim_all hu, trim_all fun c hc => (List.mem_append.1 hc).elim (hu c) (hb c)]
  · have hdrop : (u ++ b).dropWhile p = u.dropWhile p ++ b := by
      rw [List.dropWhile_append, if_neg]
      simpa [List.isEmpty_iff, List.dropWhile_eq_nil_iff] using hu
    rw [trim, hdrop, List.reverse_append,
      List.dropWhile_append_of_pos fun c hc => hb c (List.mem_reverse.1 hc), trim]

theorem ends_suffix {t s : Text} : endsWith t s = true ↔ s <:+ t := by
  rw [endsWith, startsWith, Option.isSome_iff_exists]
  simp only [after?_eq_some]
  rw [← List.reverse_prefix]
  exact exists_congr fun r => eq_comm

end

end Text

namespace Script

/-- Where the lexer stands behind the brace that opens an object. -/
def State.inObject : State := (State.start.at_ .operand).openBrace

/-- The lexemes of the inside of an object literal. -/
def objectLexemes (t : Text) : List Lexeme := (settle (lexemesFrom .inObject t)).1

/-- Which characters inside an object literal are code. -/
def objectMask (t : Text) : List Bool := maskOf (objectLexemes t)

/-- What a bracket adds to the depth. -/
def nesting (c : Char) : Int :=
  if (closerOf? c).isSome then 1 else if isCloser c then -1 else 0

/-- The depth behind a character. -/
def deepen (d : Int) (c : Char) (code : Bool) : Int := if code then d + nesting c else d

/-- A text cut at a character wherever that is code at depth zero. -/
def cutFrom (sep : Char) : Int → Text → List Bool → List Text
  | d, c :: cs, b :: bs =>
    match cutFrom sep (deepen d c b) cs bs with
    | [] => [[c]]
    | p :: ps => if b && c == sep && d == 0 then [] :: p :: ps else (c :: p) :: ps
  | _, _, _ => [[]]

/-- The inside of an object literal, cut at a character. -/
def objectParts (sep : Char) (t : Text) : List Text := cutFrom sep 0 t (objectMask t)

/-- The depth behind a text whose code is marked. -/
def depthFrom : Int → Text → List Bool → Int
  | d, c :: cs, b :: bs => depthFrom (deepen d c b) cs bs
  | d, _, _ => d

theorem depth_append {u : Text} {as : List Bool} (h : as.length = u.length) (d : Int) (v : Text)
    (bs : List Bool) :
    depthFrom d (u ++ v) (as ++ bs) = depthFrom (depthFrom d u as) v bs := by
  induction u generalizing d as with
  | nil =>
    obtain rfl := List.length_eq_zero_iff.1 h
    rfl
  | cons c u ih =>
    obtain ⟨a, as, rfl⟩ := List.exists_cons_of_length_eq_add_one (by rw [h]; rfl)
    exact ih (by simpa using h) _

section

variable {sep : Char}

theorem cut_some (sep : Char) (d : Int) (t : Text) (bs : List Bool) :
    ∃ p ps, cutFrom sep d t bs = p :: ps := by
  unfold cutFrom
  repeat' split
  all_goals exact ⟨_, _, rfl⟩

/-- The last part of a text and the first part of what follows are one part of the two. -/
theorem cut_append (sep : Char) {u : Text} {as : List Bool} (h : as.length = u.length) (d : Int)
    (v : Text) (bs : List Bool) :
    ∃ ps p q qs, cutFrom sep d u as = ps ++ [p] ∧ cutFrom sep (depthFrom d u as) v bs = q :: qs ∧
      cutFrom sep d (u ++ v) (as ++ bs) = ps ++ (p ++ q) :: qs := by
  induction u generalizing d as with
  | nil =>
    obtain rfl := List.length_eq_zero_iff.1 h
    obtain ⟨q, qs, hq⟩ := cut_some sep d v bs
    exact ⟨[], [], q, qs, rfl, hq, hq⟩
  | cons c u ih =>
    obtain ⟨a, as, rfl⟩ := List.exists_cons_of_length_eq_add_one (by rw [h]; rfl)
    obtain ⟨ps, p, q, qs, hfront, hrest, hall⟩ := ih (by simpa using h) (deepen d c a)
    have hcons : ∀ w bs r rs, cutFrom sep (deepen d c a) w bs = r :: rs →
        cutFrom sep d (c :: w) (a :: bs) =
          if a && c == sep && d == 0 then [] :: r :: rs else (c :: r) :: rs := by
      intro w bs r rs hw
      rw [cutFrom, hw]
    rw [depthFrom, List.cons_append, List.cons_append]
    cases ps with
    | nil =>
      rw [hcons _ _ _ _ hfront, hcons _ _ _ _ hall]
      split
      · exact ⟨[[]], p, q, qs, rfl, hrest, rfl⟩
      · exact ⟨[], c :: p, q, qs, rfl, hrest, rfl⟩
    | cons r rs =>
      rw [hcons _ _ _ _ hfront, hcons _ _ _ _ hall]
      split
      · exact ⟨[] :: r :: rs, p, q, qs, rfl, hrest, rfl⟩
      · exact ⟨(c :: r) :: rs, p, q, qs, rfl, hrest, rfl⟩

/-- A text without the separator is one part. -/
theorem cut_whole {t : Text} (ht : sep ∉ t) {bs : List Bool} (h : bs.length = t.length) (d : Int) :
    cutFrom sep d t bs = [t] := by
  induction t generalizing d bs with
  | nil => rfl
  | cons c t ih =>
    obtain ⟨b, bs, rfl⟩ := List.exists_cons_of_length_eq_add_one (by rw [h]; rfl)
    obtain ⟨hc, ht⟩ := not_or.1 (List.mem_cons.not.1 ht)
    have hcut : ¬ (b && c == sep && d == 0) = true := by
      simp only [Bool.and_eq_true, beq_iff_eq]
      rintro ⟨⟨_, rfl⟩, _⟩
      exact hc rfl
    rw [cutFrom, ih ht (by simpa using h)]
    exact if_neg hcut

end

/-! Texts whose only literals are strings. -/

/-- The places outside strings. -/
def Post.outside : List Post := [.fresh, .dash, .dashes, .behind]

theorem mem_outside {m : Post} : m ∈ Post.outside ↔ m.inString = false := by
  cases m <;> simp [Post.outside, Post.inString]

/-- A text that is read from every place outside strings, leaves them, and closes as many brackets
as it opens. -/
def Closed (u : Text) : Prop :=
  (∀ m ∈ Post.outside, ((scan m u).any fun n => !n.inString) = true) ∧
    depthFrom 0 u (quoteMask .behind u) = 0

instance (u : Text) : Decidable (Closed u) := inferInstanceAs (Decidable (_ ∧ _))

/-- Outside strings the place does not matter to the marks. -/
theorem mask_outside {m n : Post} (hm : m.inString = false) (hn : n.inString = false) (t : Text) :
    quoteMask m t = quoteMask n t := by
  induction t generalizing m n with
  | nil => rfl
  | cons c t ih =>
    rw [quoteMask, quoteMask, hm, hn]
    congr 1
    cases hc : isQuote c with
    | false => exact ih (next_outside hm hc) (next_outside hn hc)
    | true => simp [Post.next_plain hm, Post.next_plain hn, Post.plainNext, hc]

/-- The reading of a text never enters a string but through a quote. -/
theorem scan_quote {m n : Post} {u : Text} (hm : ∀ q, m = .quoted q → isQuote q = true)
    (h : scan m u = some n) : ∀ q, n = .quoted q → isQuote q = true := by
  induction u generalizing m with
  | nil =>
    obtain rfl := Option.some.inj h
    exact hm
  | cons c u ih =>
    rw [scan] at h
    obtain ⟨k, hk, h⟩ := Option.bind_eq_some_iff.1 h
    refine ih ?_ h
    rintro q rfl
    cases hs : m.inString with
    | true =>
      cases m with
      | quoted r =>
        simp only [Post.next] at hk
        split at hk
        · simp at hk
        · split at hk
          · simp at hk
          · obtain rfl : r = q := by simpa using hk
            exact hm _ rfl
      | _ => simp [Post.inString] at hs
    | false =>
      cases hc : isQuote c with
      | true =>
        rw [Post.next_plain hs, Post.plainNext, if_pos hc] at hk
        obtain rfl : c = q := by simpa using hk
        exact hc
      | false => simpa [Post.inString] using next_unquoted hs hc hk

section

variable {u v : Text} {m : Post}

theorem closed_reads (hu : Closed u) (hm : m.inString = false) :
    ∃ n, n.inString = false ∧ scan m u = some n := by
  obtain ⟨n, hn, hout⟩ := (Option.any_eq_true _ _).1 (hu.1 m (mem_outside.2 hm))
  exact ⟨n, by simpa using hout, hn⟩

theorem closed_flows (hu : Closed u) : Flows (fun _ => true) u := by
  intro m hm
  obtain ⟨n, hn, h⟩ := closed_reads hu hm
  exact ⟨n, hn, h, fun _ _ => rfl⟩

/-- A text that is read from every place is marked by itself. -/
theorem mask_flows (hu : Flows (fun _ => true) u) (v : Text) :
    quoteMask .behind (u ++ v) = quoteMask .behind u ++ quoteMask .behind v := by
  obtain ⟨n, hn, h, _⟩ := hu .behind rfl
  rw [mask_append h, mask_outside hn (n := .behind) rfl]

theorem object_mask_quoted (hu : Flows (fun _ => true) u) :
    objectMask u = quoteMask .behind u := by
  obtain ⟨n, hn, h, _⟩ := hu .behind rfl
  have hagree : Agree .inObject .behind := by
    refine ⟨rfl, fun hf => absurd hf (by decide), fun f hf => ?_⟩
    have hall : ∀ f ∈ State.inObject.frames, f.enclosure ≠ .substitution := by decide
    exact hall f hf
  obtain ⟨hwhole, hmask⟩ := lexemes_scan hagree hn h
  rw [objectMask, objectLexemes, settle_whole hwhole, hmask]

/-- Blanks are read from every place. -/
theorem blanks_flow (hu : ∀ c ∈ u, Text.isBlank c = true) : Flows (fun _ => true) u := by
  refine flows_harmless (fun c hc => ⟨?_, ?_⟩) fun _ _ => rfl
  · have hb := hu c hc
    simp only [opensLiteral, Bool.or_eq_false_iff, beq_eq_false_iff_ne]
    refine ⟨⟨⟨?_, ?_⟩, ?_⟩, ?_⟩ <;> rintro rfl <;> revert hb <;> decide
  · rintro rfl
    exact absurd (hu _ hc) (by decide)

theorem depth_blanks (hu : ∀ c ∈ u, Text.isBlank c = true) (d : Int) (bs : List Bool) :
    depthFrom d u bs = d := by
  induction u generalizing d bs with
  | nil => rfl
  | cons c u ih =>
    cases bs with
    | nil => rfl
    | cons b bs =>
      have hnone : nesting c = 0 := by
        have hb := hu c (by simp)
        have hopen : closerOf? c = none := by
          unfold closerOf?
          split
          all_goals first
            | rfl
            | exact absurd hb (by decide)
        have hclose : isCloser c = false := by
          simp only [isCloser, Bool.or_eq_false_iff, beq_eq_false_iff_ne]
          refine ⟨⟨?_, ?_⟩, ?_⟩ <;> rintro rfl <;> revert hb <;> decide
        simp [nesting, hopen, hclose]
      rw [depthFrom, ih fun d hd => hu d (by simp [hd]), deepen, hnone]
      simp

/-- A comma behind a closed text may be taken away. -/
theorem closed_front (hu : Closed (u ++ [','])) : Closed u := by
  have hreads : ∀ m : Post, m.inString = false → ∃ n, n.inString = false ∧ scan m u = some n := by
    intro m hm
    obtain ⟨n, hn, h⟩ := closed_reads hu hm
    obtain ⟨k, hk⟩ := scan_prefix h
    refine ⟨k, ?_, hk⟩
    rw [scan_append, hk, Option.bind_some, scan] at h
    by_contra hin
    cases k with
    | quoted q =>
      have hq := scan_quote (m := m) (by rintro q rfl; simp [Post.inString] at hm) hk q rfl
      have hne : ',' ≠ q := by
        rintro rfl
        simp [isQuote] at hq
      simp only [Post.next, if_neg hne] at h
      obtain rfl : Post.quoted q = n := by simpa [scan] using h
      simp [Post.inString] at hn
    | _ => exact hin rfl
  obtain ⟨n, hn, h⟩ := hreads .behind rfl
  refine ⟨fun m hm => ?_, ?_⟩
  · obtain ⟨n, hn, h⟩ := hreads m (mem_outside.1 hm)
    simp [h, hn]
  · have hdepth := hu.2
    rw [mask_append h, depth_append (length_mask _ u)] at hdepth
    simpa [quoteMask, depthFrom, deepen, nesting, closerOf?, isCloser] using hdepth

end

end Script

namespace Legacy

open Script

/-- The entries of the inside of an object literal: its parts between commas, without the blanks
around them. -/
def objectEntries (t : Text) : List Text := Stage.trimmed (objectParts ',' t)

/-- The entries by the automaton's marks. -/
def quotedEntries (t : Text) : List Text :=
  Stage.trimmed (cutFrom ',' 0 t (quoteMask .behind t))

section

variable {a u v : Text}

theorem entries_quoted (hu : Flows (fun _ => true) u) : objectEntries u = quotedEntries u := by
  rw [objectEntries, objectParts, object_mask_quoted hu, quotedEntries]

theorem trimmed_append (ps qs : List Text) :
    Stage.trimmed (ps ++ qs) = Stage.trimmed ps ++ Stage.trimmed qs := by
  simp [Stage.trimmed]

theorem comma_not_blank (ha : ∀ c ∈ a, Text.isBlank c = true) : ',' ∉ a :=
  fun h => absurd (ha _ h) (by decide)

theorem quoted_front (ha : ∀ c ∈ a, Text.isBlank c = true) (u : Text) :
    quotedEntries (a ++ u) = quotedEntries u := by
  obtain ⟨ps, p, q, qs, hfront, hrest, hall⟩ :=
    cut_append ',' (length_mask .behind a) 0 u (quoteMask .behind u)
  rw [cut_whole (comma_not_blank ha) (length_mask _ a)] at hfront
  obtain ⟨rfl, rfl⟩ : ps = [] ∧ p = a := by
    have := List.append_inj' (hfront.symm.trans (List.nil_append [a]).symm) rfl
    simpa using this
  rw [depth_blanks ha] at hrest
  rw [quotedEntries, mask_flows (blanks_flow ha), hall, quotedEntries, hrest]
  simp only [Stage.trimmed, List.nil_append, List.map_cons, Text.strip, Text.trim_front ha]

theorem quoted_behind (hu : Flows (fun _ => true) u) (ha : ∀ c ∈ a, Text.isBlank c = true) :
    quotedEntries (u ++ a) = quotedEntries u := by
  obtain ⟨ps, p, q, qs, hfront, hrest, hall⟩ :=
    cut_append ',' (length_mask .behind u) 0 a (quoteMask .behind a)
  rw [cut_whole (comma_not_blank ha) (length_mask _ a)] at hrest
  obtain ⟨rfl, rfl⟩ := List.cons.inj hrest
  rw [quotedEntries, mask_flows hu, hall, quotedEntries, hfront, trimmed_append, trimmed_append]
  simp only [Stage.trimmed, List.map_cons, List.map_nil, Text.strip, Text.trim_behind ha]

/-- At a comma behind a closed text the entries are cut. -/
theorem quoted_comma (hu : Closed u) (v : Text) :
    quotedEntries (u ++ ',' :: v) = quotedEntries u ++ quotedEntries v := by
  have hmask : quoteMask .behind (',' :: v) = true :: quoteMask .behind v := rfl
  obtain ⟨ps, p, q, qs, hfront, hrest, hall⟩ :=
    cut_append ',' (length_mask .behind u) 0 (',' :: v) (quoteMask .behind (',' :: v))
  obtain ⟨r, rs, hr⟩ := cut_some ',' 0 v (quoteMask .behind v)
  have hcut : cutFrom ',' 0 (',' :: v) (quoteMask .behind (',' :: v)) = [] :: r :: rs := by
    have hdepth : deepen 0 ',' true = 0 := by decide
    rw [hmask, cutFrom, hdepth, hr]
    rfl
  rw [hu.2, hcut] at hrest
  obtain ⟨rfl, rfl⟩ := List.cons.inj hrest
  rw [quotedEntries, mask_flows (closed_flows hu), hall, quotedEntries, hfront, quotedEntries, hr,
    List.append_nil, List.append_cons, trimmed_append]

theorem quoted_nil : quotedEntries [] = [] := by decide

/-- A comma at the end ends no further entry. -/
theorem quoted_last (hu : Closed u) : quotedEntries (u ++ [',']) = quotedEntries u := by
  rw [quoted_comma hu, quoted_nil, List.append_nil]

end

end Legacy

end Restage
