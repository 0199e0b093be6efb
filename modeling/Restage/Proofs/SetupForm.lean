import Restage.Legacy.Landmark
import Restage.Proofs.Matching
import Restage.Proofs.Occurrence

/-!
The setup function of a text, said without a search: `Setup.find` returns exactly the function that
`Wraps` describes, which goes from the first opening in the text to the last closing behind it.
-/

set_option autoImplicit false

namespace Restage.Legacy.Setup

open Text (endOf)

/-- The opening of a setup function with the given parameters. -/
def Opening (raw opened : Text) : Prop :=
  ∃ gap space, opened = "(function".toList ++ gap ++ '(' :: raw ++ ')' :: space ++ ['\x7b'] ∧
    (∀ c ∈ gap, Text.isBlank c = true) ∧ (∀ c ∈ space, Text.isBlank c = true) ∧ ')' ∉ raw

theorem opening_fits {b : Option Char} {t : Text} {parts : List Text} :
    opening.fits? b t = some parts ↔ ∃ gap raw space rest,
      parts = ["(function".toList, gap, ['('], raw, [')'], space, ['\x7b']] ∧
      t = parts.flatten ++ rest ∧ (∀ c ∈ gap, Text.isBlank c = true) ∧
      (∀ c ∈ space, Text.isBlank c = true) ∧ ')' ∉ raw := by
  have hbehind : opening.behind b = true := rfl
  rw [Pattern.fits?, if_pos hbehind, Option.map_eq_some_iff]
  constructor
  · rintro ⟨⟨parts', rest⟩, hread, rfl⟩
    have hflat := Piece.readAll_flatten hread
    simp only [opening, Piece.lit, Piece.blanks, Piece.readAll_cons_iff, Piece.word_split_iff,
      Piece.run_split_iff, Piece.readAll_nil_iff] at hread
    obtain ⟨_, _, _, ⟨rfl, _⟩, ⟨gap, _, _, ⟨_, _, hgap, _⟩, ⟨_, _, _, ⟨rfl, _⟩,
      ⟨raw, _, _, ⟨_, _, hraw, _⟩, ⟨_, _, _, ⟨rfl, _⟩, ⟨space, _, _, ⟨_, _, hspace, _⟩,
      ⟨_, _, _, ⟨rfl, _⟩, ⟨rfl, rfl⟩, rfl⟩, rfl⟩, rfl⟩, rfl⟩, rfl⟩, rfl⟩, rfl⟩ := hread
    exact ⟨gap, raw, space, _, rfl, hflat, hgap, hspace, fun hm => by simpa using hraw _ hm⟩
  · rintro ⟨gap, raw, space, rest, rfl, rfl, hgap, hspace, hraw⟩
    refine ⟨(_, rest), ?_, rfl⟩
    have hraw' : ∀ c ∈ raw, (c != ')') = true := fun c hc => by
      simp only [bne_iff_ne, ne_eq]
      rintro rfl
      exact hraw hc
    simp only [opening, Piece.lit, Piece.blanks, Piece.readAll_cons_iff, Piece.word_split_iff,
      Piece.run_split_iff, Piece.readAll_nil_iff]
    refine ⟨_, _, _, ⟨rfl, ?_⟩, ⟨gap, _, _, ⟨rfl, Nat.zero_le _, hgap, ?_⟩, ⟨_, _, _, ⟨rfl, rfl⟩,
      ⟨raw, _, _, ⟨rfl, Nat.zero_le _, hraw', ?_⟩, ⟨_, _, _, ⟨rfl, rfl⟩,
      ⟨space, _, _, ⟨rfl, Nat.zero_le _, hspace, ?_⟩, ⟨_, rest, _, ⟨rfl, rfl⟩, ⟨rfl, rfl⟩, rfl⟩,
      rfl⟩, rfl⟩, rfl⟩, rfl⟩, rfl⟩, rfl⟩
    · simp
    · simp; decide
    · simp
    · simp; decide

theorem opening_fits_iff {b : Option Char} {t : Text} :
    (∃ parts, opening.fits? b t = some parts) ↔ ∃ raw opened, Opening raw opened ∧ opened <+: t := by
  constructor
  · rintro ⟨parts, h⟩
    obtain ⟨gap, raw, space, rest, rfl, rfl, hgap, hspace, hraw⟩ := opening_fits.1 h
    exact ⟨raw, _, ⟨gap, space, by simp, hgap, hspace, hraw⟩, List.prefix_append _ rest⟩
  · rintro ⟨raw, opened, ⟨gap, space, rfl, hgap, hspace, hraw⟩, rest, rfl⟩
    exact ⟨_, opening_fits.2 ⟨gap, raw, space, rest, rfl, by simp, hgap, hspace, hraw⟩⟩

theorem starts_iff {s t : Text} : Text.startsWith t s = true ↔ s <+: t := by
  rw [Text.startsWith, Option.isSome_iff_exists]
  simp only [Text.after?_eq_some]
  exact exists_congr fun r => eq_comm

theorem last_none_iff {s t : Text} (hs : s ≠ []) : lastOf? s t = none ↔ ¬ s <:+: t := by
  induction t with
  | nil => simp [lastOf?, hs]
  | cons c t ih =>
    rw [lastOf?, List.infix_cons_iff, not_or, ← ih, ← starts_iff]
    cases hl : lastOf? s t <;> simp

/-- Where a word is found last. -/
theorem last_iff {s t : Text} {k : Nat} (hs : s ≠ []) : lastOf? s t = some k ↔
    ∃ u v, t = u ++ (s ++ v) ∧ u.length = k ∧ ¬ s <:+: (s ++ v).drop 1 := by
  constructor
  · intro h
    induction t generalizing k with
    | nil => simp [lastOf?] at h
    | cons c t ih =>
      rw [lastOf?] at h
      cases hl : lastOf? s t with
      | some i =>
        simp only [hl, Option.some.injEq] at h
        obtain ⟨u, v, rfl, rfl, hlast⟩ := ih hl
        exact ⟨c :: u, v, rfl, h, hlast⟩
      | none =>
        simp only [hl] at h
        split at h
        · next hstart =>
          obtain ⟨v, hv⟩ := starts_iff.1 hstart
          refine ⟨[], v, hv.symm, by simpa using h, ?_⟩
          rw [hv]
          exact (last_none_iff hs).1 hl
        · simp at h
  · rintro ⟨u, v, rfl, rfl, hlast⟩
    induction u with
    | nil =>
      obtain ⟨c, s', rfl⟩ := List.exists_cons_of_ne_nil hs
      have hnone := (last_none_iff hs).2 hlast
      have hstart : Text.startsWith (c :: s' ++ v) (c :: s') = true :=
        starts_iff.2 (List.prefix_append _ _)
      simp only [List.cons_append, List.drop_succ_cons, List.drop_zero] at hnone hstart
      simp [lastOf?, hnone, hstart]
    | cons c u ih => simp [lastOf?, ih]

/-- The first setup function of a text. -/
def Wraps (s : Setup) (t : Text) : Prop :=
  ∃ front raw opened tail, t = front ++ (opened ++ (s.body ++ (closing ++ tail))) ∧
    Opening raw opened ∧
    (∀ u v raw' opened', front = u ++ v → v ≠ [] → Opening raw' opened' →
      ¬ opened' <+: v ++ (opened ++ (s.body ++ (closing ++ tail)))) ∧
    s.body ≠ [] ∧ ¬ closing <:+: tail ∧
    (Text.splitOn ',' raw).map Text.strip = [s.namespaceAlias, s.libraryAlias] ∧
    Text.isName s.namespaceAlias = true ∧ Text.isName s.libraryAlias = true

theorem opening_silent_iff {b : Option Char} {front rest : Text} :
    opening.Silent b front rest ↔ ∀ u v raw opened, front = u ++ v → v ≠ [] → Opening raw opened →
      ¬ opened <+: v ++ rest := by
  constructor
  · intro h u v raw opened hfront hv hopened hpre
    obtain ⟨parts, hparts⟩ := opening_fits_iff (b := endOf b u).2 ⟨raw, opened, hopened, hpre⟩
    rw [h u v hfront hv] at hparts
    simp at hparts
  · intro h u v hfront hv
    cases hfit : opening.fits? (endOf b u) (v ++ rest) with
    | none => rfl
    | some parts =>
      obtain ⟨raw, opened, hopened, hpre⟩ := opening_fits_iff.1 ⟨parts, hfit⟩
      exact absurd hpre (h u v raw opened hfront hv hopened)

theorem closing_last {u : Text} {k : Nat} : lastOf? closing u = some k ↔
    ∃ inner tail, u = inner ++ (closing ++ tail) ∧ inner.length = k ∧ ¬ closing <:+: tail := by
  rw [last_iff (by decide)]
  have hdrop : ∀ v, closing <:+: (closing ++ v).drop 1 ↔ closing <:+: v := by
    intro v
    constructor
    · intro h
      exact Text.infix_right_of_head (c := '}') (u := [')', '(']) (by decide) h
    · intro h
      exact h.trans (List.suffix_append [')', '('] v).isInfix
  simp only [hdrop]

/-- The parameters of the first opening in a text, and what is behind it. -/
theorem first_opening_iff {t raw rest : Text} :
    (∃ hit, opening.first? t.entire = some hit ∧ hit.part 3 = raw ∧ t.drop hit.stop = rest) ↔
      ∃ front opened, t = front ++ (opened ++ rest) ∧ Opening raw opened ∧
        ∀ u v raw' opened', front = u ++ v → v ≠ [] → Opening raw' opened' →
          ¬ opened' <+: v ++ (opened ++ rest) := by
  have hdrop : ∀ front opened : Text,
      (front ++ (opened ++ rest)).drop (front.length + opened.length) = rest := by
    intro front opened
    rw [← List.append_assoc, ← List.length_append, List.drop_left]
  constructor
  · rintro ⟨hit, hfirst, rfl, hrest⟩
    obtain ⟨front, v, ht, hstart, hsilent, hfit⟩ := Pattern.first_iff.1 hfirst
    have ht : t = front ++ v := ht
    obtain ⟨gap, raw, space, rest', hparts, rfl, hgap, hspace, hraw⟩ := opening_fits.1 hfit
    have hpart : hit.part 3 = raw := by rw [Hit.part, hparts]; rfl
    have hbehind : t.drop hit.stop = rest' := by
      rw [ht, Hit.stop, Hit.text, hstart, Text.entire, Nat.zero_add, ← List.append_assoc,
        ← List.length_append, List.drop_left]
    obtain rfl := hrest.symm.trans hbehind
    rw [hpart]
    exact ⟨front, hit.parts.flatten, ht, ⟨gap, space, by rw [hparts]; simp, hgap, hspace, hraw⟩,
      opening_silent_iff.1 hsilent⟩
  · rintro ⟨front, opened, rfl, ⟨gap, space, hopened, hgap, hspace, hraw⟩, hfront⟩
    have hflat : ["(function".toList, gap, ['('], raw, [')'], space, ['{']].flatten = opened := by
      rw [hopened]
      simp
    refine ⟨⟨front.length, ["(function".toList, gap, ['('], raw, [')'], space, ['{']]⟩,
      Pattern.first_iff.2 ⟨front, _, rfl, (Nat.zero_add _).symm, opening_silent_iff.2 hfront,
        opening_fits.2 ⟨gap, raw, space, _, rfl, by rw [hflat], hgap, hspace, hraw⟩⟩, rfl, ?_⟩
    rw [Hit.stop, Hit.text, hflat]
    exact hdrop front opened

theorem find_wraps {t : Text} {s : Setup} (h : find t = .ok s) : s.Wraps t := by
  rw [find] at h
  cases hfirst : opening.first? t.entire with
  | none => simp [hfirst] at h
  | some hit =>
    obtain ⟨rest, hrest⟩ : ∃ rest, t.drop hit.stop = rest := ⟨_, rfl⟩
    obtain ⟨front, opened, ht, hopened, hfront⟩ := first_opening_iff.1 ⟨hit, hfirst, rfl, hrest⟩
    simp only [hfirst, hrest] at h
    cases hlast : lastOf? closing (rest.drop 1) with
    | none =>
      simp only [hlast] at h
      exact absurd h (by simp)
    | some k =>
      obtain ⟨inner, tail, hinner, hk, htail⟩ := closing_last.1 hlast
      obtain ⟨c, rfl⟩ : ∃ c, rest = c :: (inner ++ (closing ++ tail)) := by
        cases rest with
        | nil => simp [closing] at hinner
        | cons c r => exact ⟨c, by simpa using hinner⟩
      simp only [hlast] at h
      split at h
      · next a b hnames =>
        split at h
        · next hab =>
          simp only [Bool.and_eq_true] at hab
          have hbody : (c :: (inner ++ (closing ++ tail))).take (k + 1) = c :: inner := by
            simp [← hk]
          rw [hbody] at h
          simp only [Except.ok.injEq] at h
          subst h
          exact ⟨front, hit.part 3, opened, tail, ht, hopened, hfront, by simp, htail, hnames, hab⟩
        · simp at h
      · simp at h

theorem wraps_find {t : Text} {s : Setup} (h : s.Wraps t) : find t = .ok s := by
  obtain ⟨front, raw, opened, tail, ht, hopened, hfront, hbody, htail, hnames, ha, hb⟩ := h
  obtain ⟨hit, hfirst, hraw, hrest⟩ := first_opening_iff.2 ⟨front, opened, ht, hopened, hfront⟩
  obtain ⟨c, inner, hinner⟩ := List.exists_cons_of_ne_nil hbody
  have hlast : lastOf? closing (inner ++ (closing ++ tail)) = some inner.length :=
    closing_last.2 ⟨inner, tail, rfl, rfl, htail⟩
  rw [find, hfirst]
  simp only [hraw, hrest]
  rw [hinner]
  simp only [List.cons_append, List.drop_succ_cons, List.drop_zero, hlast]
  simp only [hnames, ha, hb, Bool.and_self, if_true]
  simp [← hinner]

/-- A setup function is found exactly where the text has one. -/
theorem find_iff {t : Text} {s : Setup} : find t = .ok s ↔ s.Wraps t :=
  ⟨find_wraps, wraps_find⟩

end Restage.Legacy.Setup
