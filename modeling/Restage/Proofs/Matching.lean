import Restage.Proofs.Occurrence
import Restage.Text.Pattern

/-!
Pieces and patterns on a text that is put together from parts. A stretch in which a pattern never
fits is passed over (`first_silent`, `hits_silent`), and a piece that avoids a character stays in
front of it, so that a word which a pattern needs has to occur in one line (`silent_absent`).
-/

set_option autoImplicit false

namespace Restage

namespace Text

/-- The character before what follows a text. -/
def endOf : Option Char → Text → Option Char
  | b, [] => b
  | _, c :: cs => endOf (some c) cs

theorem endOf_append (b : Option Char) (u v : Text) :
    endOf b (u ++ v) = endOf (endOf b u) v := by
  induction u generalizing b with
  | nil => rfl
  | cons c u ih => exact ih _

@[simp] theorem endOf_concat (b : Option Char) (u : Text) (c : Char) :
    endOf b (u ++ [c]) = some c := by
  rw [endOf_append]; rfl

theorem after?_append (s t : Text) : after? s (s ++ t) = some t := after?_eq_some.2 rfl

section

variable {p : Char → Bool} {u t : Text} (hu : ∀ c ∈ u, p c = true)
  (ht : t.head?.all (fun c => !p c) = true)
include hu ht

/-- A run that ends where another class begins. -/
theorem run_taken : (u ++ t).takeWhile p = u := by
  rw [List.takeWhile_append_of_pos hu]
  cases t with
  | nil => simp
  | cons c t => simp [show p c = false by simpa using ht]

theorem run_left : (u ++ t).dropWhile p = t := by
  rw [List.dropWhile_append_of_pos hu]
  cases t with
  | nil => simp
  | cons c t => simp [show p c = false by simpa using ht]

end

end Text

namespace Piece

/-! Pieces that fit. -/

theorem word_split (s t : Text) : (word s).split? (s ++ t) = some (s, t) := by
  simp [split?, Text.after?_append]

theorem run_split {least : Nat} {p : Char → Bool} {u t : Text} (hl : least ≤ u.length)
    (hu : ∀ c ∈ u, p c = true) (ht : t.head?.all (fun c => !p c) = true) :
    (run least p).split? (u ++ t) = some (u, t) := by
  simp [split?, Text.run_taken hu ht, Text.run_left hu ht, hl]

theorem maybe_split (s t : Text) : (maybe s).split? (s ++ t) = some (s, t) := by
  simp [split?, Text.after?_append]

theorem maybe_split_absent {c : Char} {s t : Text} (ht : t.head? ≠ some c) :
    (maybe (c :: s)).split? t = some ([], t) := by
  cases t with
  | nil => rfl
  | cons d t =>
    have hd : c ≠ d := fun h => ht (by simp [h])
    simp [split?, Text.after?, hd]

theorem maybe_taken {w a u v : Text} (h : (maybe w).split? u = some (a, v)) : a = w ∨ a = [] := by
  simp only [split?] at h
  split at h
  · exact Or.inl (Prod.mk.inj (Option.some.inj h)).1.symm
  · exact Or.inr (Prod.mk.inj (Option.some.inj h)).1.symm

/-- A character that may stand there is taken just if it does. -/
theorem maybe_split_iff {c : Char} {t last rest : Text} :
    (maybe [c]).split? t = some (last, rest) ↔ ∃ taken : Bool,
      t = (if taken then [c] else []) ++ rest ∧ last = (if taken then [c] else []) ∧
        (taken = false → rest.head? ≠ some c) := by
  constructor
  · intro h
    by_cases hc : t.head? = some c
    · obtain ⟨rest', rfl⟩ : ∃ rest', t = [c] ++ rest' := by
        cases t with
        | nil => simp at hc
        | cons d t => exact ⟨t, by simpa using hc⟩
      rw [maybe_split, Option.some.injEq, Prod.mk.injEq] at h
      obtain ⟨rfl, rfl⟩ := h
      exact ⟨true, rfl, rfl, by simp⟩
    · rw [maybe_split_absent hc, Option.some.injEq, Prod.mk.injEq] at h
      obtain ⟨rfl, rfl⟩ := h
      exact ⟨false, rfl, rfl, fun _ => hc⟩
  · rintro ⟨taken, rfl, rfl, hc⟩
    cases taken with
    | true => exact maybe_split _ _
    | false => exact maybe_split_absent (hc rfl)

theorem ahead_split {ok : Text → Bool} {t : Text} (h : ok t = true) :
    (ahead ok).split? t = some ([], t) := by
  simp [split?, h]

theorem readAll_cons {p : Piece} {ps : List Piece} {t a r : Text} (h : p.split? t = some (a, r)) :
    readAll (p :: ps) t = (readAll ps r).map fun x => (a :: x.1, x.2) := by
  simp [readAll, h]

theorem readAll_cons_none {p : Piece} {ps : List Piece} {t : Text} (h : p.split? t = none) :
    readAll (p :: ps) t = none := by
  simp [readAll, h]

theorem word_split_iff {s t a r : Text} :
    (word s).split? t = some (a, r) ↔ a = s ∧ t = s ++ r := by
  simp only [split?, Option.map_eq_some_iff, Prod.mk.injEq]
  constructor
  · rintro ⟨u, hu, rfl, rfl⟩
    exact ⟨rfl, Text.after?_eq_some.1 hu⟩
  · rintro ⟨rfl, rfl⟩
    exact ⟨r, Text.after?_append _ _, rfl, rfl⟩

theorem run_split_iff {least : Nat} {p : Char → Bool} {t a r : Text} :
    (run least p).split? t = some (a, r) ↔
      t = a ++ r ∧ least ≤ a.length ∧ (∀ c ∈ a, p c = true) ∧
        r.head?.all (fun c => !p c) = true := by
  constructor
  · intro h
    refine ⟨split?_append h, ?_⟩
    simp only [split?] at h
    split at h
    · next hl =>
      simp only [Option.some.injEq, Prod.mk.injEq] at h
      obtain ⟨rfl, rfl⟩ := h
      refine ⟨hl, fun c hc => List.all_eq_true.1 List.all_takeWhile c hc, ?_⟩
      have := List.head?_dropWhile_not p t
      cases hd : t.dropWhile p with
      | nil => rfl
      | cons c r => simpa [hd] using this
    · simp at h
  · rintro ⟨rfl, hl, ha, hr⟩
    exact run_split hl ha hr

theorem readAll_nil_iff {t r : Text} {parts : List Text} :
    readAll [] t = some (parts, r) ↔ parts = [] ∧ r = t := by
  simp [readAll, eq_comm]

theorem readAll_cons_iff {p : Piece} {ps : List Piece} {t r : Text} {parts : List Text} :
    readAll (p :: ps) t = some (parts, r) ↔
      ∃ a u rest, p.split? t = some (a, u) ∧ readAll ps u = some (rest, r) ∧ parts = a :: rest := by
  cases h : p.split? t with
  | none => simp [readAll_cons_none h]
  | some x =>
    obtain ⟨a, u⟩ := x
    rw [readAll_cons h, Option.map_eq_some_iff]
    constructor
    · rintro ⟨⟨rest, v⟩, hrest, he⟩
      simp only [Prod.mk.injEq] at he
      obtain ⟨rfl, rfl⟩ := he
      exact ⟨a, u, rest, rfl, hrest, rfl⟩
    · rintro ⟨a', u', rest, he, hrest, rfl⟩
      simp only [Option.some.injEq, Prod.mk.injEq] at he
      obtain ⟨rfl, rfl⟩ := he
      exact ⟨(rest, r), hrest, rfl⟩

theorem readAll_append (ps qs : List Piece) (t : Text) :
    readAll (ps ++ qs) t =
      (readAll ps t).bind fun x => (readAll qs x.2).map fun y => (x.1 ++ y.1, y.2) := by
  induction ps generalizing t with
  | nil => simp [readAll]
  | cons p ps ih =>
    cases h : p.split? t with
    | none => simp [readAll, h]
    | some x =>
      obtain ⟨a, r⟩ := x
      rw [List.cons_append, readAll_cons h, readAll_cons h, ih]
      cases hp : readAll ps r with
      | none => rfl
      | some y => cases hq : readAll qs y.2 <;> simp [hq]

/-! Pieces that stay in front of a character. -/

/-- A piece that never takes a character. -/
def Avoids (x : Char) : Piece → Prop
  | word s => x ∉ s
  | run _ p => p x = false
  | maybe s => x ∉ s
  | oneOf ws => ∀ w ∈ ws, x ∉ w
  | ahead _ => True

theorem split_avoids {x : Char} {p : Piece} {t a r : Text} (hp : p.Avoids x)
    (h : p.split? t = some (a, r)) : x ∉ a := by
  cases p with
  | word s =>
    simp only [split?, Option.map_eq_some_iff, Prod.mk.injEq] at h
    obtain ⟨u, _, rfl, _⟩ := h
    exact hp
  | run least p =>
    simp only [split?] at h
    split at h
    · simp only [Option.some.injEq, Prod.mk.injEq] at h
      intro hx
      rw [← h.1] at hx
      exact absurd (List.all_eq_true.1 (List.all_takeWhile) x hx) (by simp [show p x = false from hp])
    · simp at h
  | maybe s =>
    simp only [split?] at h
    split at h
    · simp only [Option.some.injEq, Prod.mk.injEq] at h
      rw [← h.1]; exact hp
    · simp only [Option.some.injEq, Prod.mk.injEq] at h
      rw [← h.1]; simp
  | oneOf ws =>
    simp only [split?] at h
    obtain ⟨w, hw, he⟩ := List.exists_of_findSome?_eq_some h
    simp only [Option.map_eq_some_iff, Prod.mk.injEq] at he
    obtain ⟨u, _, rfl, _⟩ := he
    exact hp w hw
  | ahead ok =>
    simp only [split?] at h
    split at h
    · simp only [Option.some.injEq, Prod.mk.injEq] at h
      rw [← h.1]; simp
    · simp at h

theorem readAll_avoids {x : Char} {ps : List Piece} {t r : Text} {parts : List Text}
    (hp : ∀ p ∈ ps, p.Avoids x) (h : readAll ps t = some (parts, r)) : x ∉ parts.flatten := by
  induction ps generalizing t parts with
  | nil =>
    simp only [readAll, Option.some.injEq, Prod.mk.injEq] at h
    simp [← h.1]
  | cons p ps ih =>
    cases hs : p.split? t with
    | none => simp [readAll, hs] at h
    | some y =>
      obtain ⟨a, u⟩ := y
      rw [readAll_cons hs, Option.map_eq_some_iff] at h
      obtain ⟨z, hz, he⟩ := h
      simp only [Prod.mk.injEq] at he
      rw [← he.1, List.flatten_cons, List.mem_append]
      rintro (ha | hb)
      · exact split_avoids (hp p (by simp)) hs ha
      · exact @ih _ z.1 (fun q hq => hp q (by simp [hq])) (by rw [hz, ← he.2]) hb

/-- Two words at the head of a reading are one. -/
theorem readAll_words_prefix {ps : List Piece} {v w t : Text}
    (h : readAll (word v :: word w :: ps) t ≠ none) : v ++ w <+: t := by
  cases hv : Text.after? v t with
  | none => simp [readAll, split?, hv] at h
  | some r =>
    cases hw : Text.after? w r with
    | none => simp [readAll, split?, hv, hw] at h
    | some u =>
      rw [Text.after?_eq_some.1 hv, Text.after?_eq_some.1 hw]
      exact ⟨u, by simp⟩

/-- A word that is read behind pieces which avoid a character occurs in front of that character. -/
theorem readAll_word_infix {x : Char} {ps qs : List Piece} {w s t : Text}
    (hp : ∀ p ∈ ps, p.Avoids x) (hw : x ∉ w)
    (h : readAll (ps ++ word w :: qs) (s ++ x :: t) ≠ none) : w <:+: s := by
  rw [readAll_append] at h
  cases ha : readAll ps (s ++ x :: t) with
  | none => simp [ha] at h
  | some y =>
    obtain ⟨parts, r⟩ := y
    cases hb : (word w).split? r with
    | none => simp [ha, readAll_cons_none hb] at h
    | some z =>
      obtain ⟨b, u⟩ := z
      have hbw : b = w := by
        simp only [split?, Option.map_eq_some_iff, Prod.mk.injEq] at hb
        obtain ⟨_, _, rfl, _⟩ := hb; rfl
      have htext : s ++ x :: t = (parts.flatten ++ w) ++ u := by
        rw [readAll_flatten ha, split?_append hb, hbw]; simp
      have hno : x ∉ parts.flatten ++ w := by
        simp [readAll_avoids hp ha, hw]
      have hpre := Text.prefix_of_not_mem hno ⟨u, htext.symm⟩
      exact (List.suffix_append _ _).isInfix.trans hpre.isInfix

end Piece

namespace Pattern

open Text (endOf)

variable (p : Pattern)

theorem fits_some {p : Pattern} {b : Option Char} {t : Text} {parts : List Text} :
    p.fits? b t = some parts ↔
      p.behind b = true ∧ ∃ r, Piece.readAll p.pieces t = some (parts, r) := by
  rw [fits?]
  split
  · next hb => simp [hb]
  · next hb => simp [hb]

theorem fits_of_reads {p : Pattern} {b : Option Char} {t r : Text} {parts : List Text}
    (hb : p.behind b = true) (h : Piece.readAll p.pieces t = some (parts, r)) :
    p.fits? b t = some parts := by
  simp [fits?, hb, h]

/-- A pattern that fits nowhere in a stretch, for the character before it and what follows. -/
def Silent (b : Option Char) (u t : Text) : Prop :=
  ∀ a v, u = a ++ v → v ≠ [] → p.fits? (endOf b a) (v ++ t) = none

variable {p}

theorem silent_nil (b : Option Char) (t : Text) : p.Silent b [] t := by
  intro a v h hv
  simp_all

theorem silent_cons {b : Option Char} {c : Char} {u t : Text} :
    p.Silent b (c :: u) t ↔ p.fits? b (c :: (u ++ t)) = none ∧ p.Silent (some c) u t := by
  constructor
  · intro h
    exact ⟨h [] (c :: u) rfl (by simp), fun a v hu hv => h (c :: a) v (by simp [hu]) hv⟩
  · rintro ⟨h0, h⟩ a v hu hv
    cases a with
    | nil =>
      have : v = c :: u := by simpa using hu.symm
      rw [this]
      exact h0
    | cons d a =>
      obtain ⟨rfl, hu'⟩ := List.cons.inj hu
      exact h a v hu' hv

theorem silent_append {b : Option Char} {u v t : Text} :
    p.Silent b (u ++ v) t ↔ p.Silent b u (v ++ t) ∧ p.Silent (endOf b u) v t := by
  induction u generalizing b with
  | nil => simp [silent_nil, endOf]
  | cons c u ih =>
    rw [List.cons_append, silent_cons, silent_cons, ih, and_assoc, List.append_assoc]
    rfl

/-- A line without a word that the pattern needs in front of the line's end. -/
theorem silent_of_needs {x : Char} {w : Text}
    (hn : ∀ u v, Piece.readAll p.pieces (u ++ x :: v) ≠ none → w <:+: u)
    {s : Text} (hs : ¬ w <:+: s) (b : Option Char) (t : Text) : p.Silent b (s ++ [x]) t := by
  intro a v hu hv
  obtain ⟨v', y, rfl⟩ : ∃ v' y, v = v' ++ [y] := by
    obtain ⟨v', y, h⟩ := List.eq_nil_or_concat v |>.resolve_left hv
    exact ⟨v', y, by simpa using h⟩
  rw [← List.append_assoc] at hu
  obtain ⟨hs', hxy⟩ := List.append_inj' hu rfl
  have hxy : x = y := by simpa using hxy
  subst hxy
  unfold fits?
  split
  · cases h : Piece.readAll p.pieces (v' ++ [x] ++ t) with
    | none => rfl
    | some z =>
      have hin : w <:+: v' := hn v' t (by simpa using Option.ne_none_iff_exists'.2 ⟨z, h⟩)
      exact absurd (hin.trans (by rw [hs']; exact (List.suffix_append _ _).isInfix)) hs
  · rfl

theorem silent_absent {x : Char} {ps qs : List Piece} {w : Text}
    (hpieces : p.pieces = ps ++ .word w :: qs) (hp : ∀ q ∈ ps, q.Avoids x) (hw : x ∉ w)
    {s : Text} (hs : ¬ w <:+: s) (b : Option Char) (t : Text) : p.Silent b (s ++ [x]) t :=
  silent_of_needs (fun _ _ h => Piece.readAll_word_infix hp hw (by rwa [← hpieces])) hs b t

/-- A stretch in front of a character that the first pieces avoid, and in which nothing stands that
they can take. -/
theorem silent_of_parts {x : Char} {ps qs : List Piece} (hpieces : p.pieces = ps ++ qs)
    (hp : ∀ q ∈ ps, q.Avoids x) {s : Text}
    (hs : ∀ t r parts, Piece.readAll ps t = some (parts, r) → ¬ parts.flatten <:+: s)
    (b : Option Char) (t : Text) : p.Silent b (s ++ [x]) t := by
  intro a v hu hv
  obtain ⟨v', y, rfl⟩ : ∃ v' y, v = v' ++ [y] := by
    obtain ⟨v', y, h⟩ := List.eq_nil_or_concat v |>.resolve_left hv
    exact ⟨v', y, by simpa using h⟩
  rw [← List.append_assoc] at hu
  obtain ⟨hs', hxy⟩ := List.append_inj' hu rfl
  have hxy : x = y := by simpa using hxy
  subst hxy
  unfold fits?
  split
  · rw [hpieces, Piece.readAll_append]
    cases ha : Piece.readAll ps (v' ++ [x] ++ t) with
    | none => rfl
    | some z =>
      obtain ⟨parts, r⟩ := z
      have htext := Piece.readAll_flatten ha
      rw [List.append_assoc, List.singleton_append] at htext
      have hpre := Text.prefix_of_not_mem (Piece.readAll_avoids hp ha) ⟨r, htext.symm⟩
      refine absurd (hpre.isInfix.trans ?_) (hs _ _ _ ha)
      rw [hs']
      exact (List.suffix_append _ _).isInfix
  · rfl

/-- A pattern that begins with a character fits nowhere where this character is missing. -/
theorem silent_of_head {c : Char} {w : Text} {ps : List Piece}
    (hpieces : p.pieces = .word (c :: w) :: ps) {u : Text} (hc : c ∉ u) (b : Option Char) (t : Text) :
    p.Silent b u t := by
  intro a v hu hv
  obtain ⟨d, v, rfl⟩ := List.exists_cons_of_ne_nil hv
  have hd : c ≠ d := by
    rintro rfl
    exact hc (by simp [hu])
  rw [fits?]
  split
  · rw [hpieces, Piece.readAll_cons_none (by simp [Piece.split?, Text.after?, hd])]
    rfl
  · rfl

theorem fits_absent {ps qs : List Piece} {w : Text} (hpieces : p.pieces = ps ++ .word w :: qs)
    {t : Text} (ht : ¬ w <:+: t) (b : Option Char) : p.fits? b t = none := by
  rw [fits?]
  split
  · cases h : Piece.readAll p.pieces t with
    | none => rfl
    | some z =>
      obtain ⟨parts, r⟩ := z
      rw [hpieces, Piece.readAll_append] at h
      cases ha : Piece.readAll ps t with
      | none => simp [ha] at h
      | some y =>
        cases hw : Text.after? w y.2 with
        | none => simp [ha, Piece.readAll, Piece.split?, hw] at h
        | some u =>
          apply absurd _ ht
          rw [@Piece.readAll_flatten ps t y.2 y.1 ha, Text.after?_eq_some.1 hw]
          exact ⟨y.1.flatten, u, by simp⟩
  · rfl

theorem first_absent {ps qs : List Piece} {w : Text} (hpieces : p.pieces = ps ++ .word w :: qs)
    {t : Text} (ht : ¬ w <:+: t) (b : Option Char) (i : Nat) : p.firstFrom? b i t = none := by
  induction t generalizing b i with
  | nil => simp [firstFrom?, fits_absent hpieces ht]
  | cons c t ih =>
    rw [firstFrom?, fits_absent hpieces ht]
    exact ih (fun h => ht (h.trans (List.suffix_cons c t).isInfix)) _ _

theorem hits_absent {ps qs : List Piece} {w : Text} (hpieces : p.pieces = ps ++ .word w :: qs)
    {t : Text} (ht : ¬ w <:+: t) (b : Option Char) (i : Nat) : p.hitsFrom b i 0 t = [] := by
  induction t generalizing b i with
  | nil => simp [hitsFrom, fits_absent hpieces ht]
  | cons c t ih =>
    rw [hitsFrom, fits_absent hpieces ht]
    exact ih (fun h => ht (h.trans (List.suffix_cons c t).isInfix)) _ _

theorem first_silent {b : Option Char} {u t : Text} (h : p.Silent b u t) (i : Nat) :
    p.firstFrom? b i (u ++ t) = p.firstFrom? (endOf b u) (i + u.length) t := by
  induction u generalizing b i with
  | nil => rfl
  | cons c u ih =>
    rw [silent_cons] at h
    rw [List.cons_append, firstFrom?, h.1]
    simp only
    rw [ih h.2]
    simp [endOf, Nat.add_assoc, Nat.add_comm 1]

theorem hits_silent {b : Option Char} {u t : Text} (h : p.Silent b u t) (i : Nat) :
    p.hitsFrom b i 0 (u ++ t) = p.hitsFrom (endOf b u) (i + u.length) 0 t := by
  induction u generalizing b i with
  | nil => rfl
  | cons c u ih =>
    rw [silent_cons] at h
    rw [List.cons_append, hitsFrom, h.1]
    simp only
    rw [ih h.2]
    simp [endOf, Nat.add_assoc, Nat.add_comm 1]

theorem hits_skip (b : Option Char) (i : Nat) (u t : Text) :
    p.hitsFrom b i u.length (u ++ t) = p.hitsFrom (endOf b u) (i + u.length) 0 t := by
  induction u generalizing b i with
  | nil => rfl
  | cons c u ih =>
    rw [List.cons_append, List.length_cons, hitsFrom, ih]
    simp [endOf, Nat.add_assoc, Nat.add_comm 1]

/-- A fit that takes something, and the fits behind it. -/
theorem hits_fit {b : Option Char} {u t : Text} {parts : List Text} (hu : u ≠ [])
    (h : p.fits? b (u ++ t) = some parts) (hparts : parts.flatten = u) (i : Nat) :
    p.hitsFrom b i 0 (u ++ t) = ⟨i, parts⟩ :: p.hitsFrom (endOf b u) (i + u.length) 0 t := by
  cases u with
  | nil => exact absurd rfl hu
  | cons c u =>
    rw [List.cons_append] at h ⊢
    rw [hitsFrom, h]
    simp only [hparts, List.length_cons, Nat.add_sub_cancel]
    rw [hits_skip]
    simp [endOf, Nat.add_assoc, Nat.add_comm 1]

theorem first_fit {b : Option Char} {t : Text} {parts : List Text}
    (h : p.fits? b t = some parts) (i : Nat) : p.firstFrom? b i t = some ⟨i, parts⟩ := by
  cases t <;> simp [firstFrom?, h]

/-- Where the first fit is. -/
theorem first_iff {b : Option Char} {i : Nat} {t : Text} {h : Hit} :
    p.firstFrom? b i t = some h ↔
      ∃ u v, t = u ++ v ∧ h.start = i + u.length ∧ p.Silent b u v ∧
        p.fits? (endOf b u) v = some h.parts := by
  constructor
  · intro hf
    induction t generalizing b i with
    | nil =>
      rw [firstFrom?, Option.map_eq_some_iff] at hf
      obtain ⟨parts, hparts, rfl⟩ := hf
      exact ⟨[], [], rfl, rfl, silent_nil b [], hparts⟩
    | cons c t ih =>
      rw [firstFrom?] at hf
      cases hfit : p.fits? b (c :: t) with
      | some parts =>
        simp only [hfit, Option.some.injEq] at hf
        subst hf
        exact ⟨[], c :: t, rfl, rfl, silent_nil b _, hfit⟩
      | none =>
        simp only [hfit] at hf
        obtain ⟨u, v, rfl, hstart, hu, hv⟩ := ih hf
        exact ⟨c :: u, v, rfl, by simp [hstart]; omega, silent_cons.2 ⟨hfit, hu⟩, hv⟩
  · rintro ⟨u, v, rfl, hstart, hu, hv⟩
    rw [first_silent hu, first_fit hv, ← hstart]

theorem first_start {b : Option Char} {i : Nat} {t : Text} {h : Hit}
    (hf : p.firstFrom? b i t = some h) : i ≤ h.start := by
  induction t generalizing b i with
  | nil =>
    simp only [firstFrom?, Option.map_eq_some_iff] at hf
    obtain ⟨_, _, rfl⟩ := hf
    exact Nat.le_refl i
  | cons c t ih =>
    rw [firstFrom?] at hf
    split at hf
    · simp only [Option.some.injEq] at hf
      exact Nat.le_of_eq (congrArg Hit.start hf)
    · have := ih hf
      omega

/-- Where the pattern does not fit, its first fit is later. -/
theorem first_start_later {b : Option Char} {i : Nat} {t : Text} {h : Hit}
    (hn : p.fits? b t = none) (hf : p.firstFrom? b i t = some h) : i < h.start := by
  cases t with
  | nil => simp [firstFrom?, hn] at hf
  | cons c t =>
    rw [firstFrom?, hn] at hf
    have := first_start hf
    omega

/-- A fit among the hits of a stretch. -/
theorem hit_cut {b : Option Char} {i skip : Nat} {t : Text} {h : Hit}
    (hh : h ∈ p.hitsFrom b i skip t) :
    ∃ u v, t = u ++ v ∧ h.start = i + u.length ∧ p.fits? (endOf b u) v = some h.parts := by
  fun_induction p.hitsFrom b i skip t with
  | case1 b i parts hf =>
    rw [List.mem_singleton] at hh
    exact ⟨[], [], rfl, by rw [hh]; rfl, by rw [hh]; exact hf⟩
  | case2 b i hf => simp at hh
  | case3 => simp at hh
  | case4 b i c cs parts hf ih =>
    rcases List.mem_cons.1 hh with rfl | hh
    · exact ⟨[], c :: cs, rfl, rfl, hf⟩
    · obtain ⟨u, v, rfl, hstart, hfit⟩ := ih hh
      exact ⟨c :: u, v, rfl, by rw [hstart, List.length_cons]; omega, hfit⟩
  | case5 b i c cs hf ih =>
    obtain ⟨u, v, rfl, hstart, hfit⟩ := ih hh
    exact ⟨c :: u, v, rfl, by rw [hstart, List.length_cons]; omega, hfit⟩
  | case6 b i skip c cs ih =>
    obtain ⟨u, v, rfl, hstart, hfit⟩ := ih hh
    exact ⟨c :: u, v, rfl, by rw [hstart, List.length_cons]; omega, hfit⟩

end Pattern
end Restage
