import Restage.Proofs.Matching

/-!
Patterns that end in a word. Whether such a pattern fits depends on what it takes and on nothing
behind it (`reads_iff`), so the first fit in a text is the first fit in every stretch that it lies
in (`first_restrict`).
-/

set_option autoImplicit false

namespace Restage

namespace Piece

/-- A piece that, when something is left behind it, looks no further than that. -/
def Local (p : Piece) : Prop :=
  ∀ t q a r, r ≠ [] → (p.split? t = some (a, r) ↔ p.split? (t ++ q) = some (a, r ++ q))

theorem word_local (s : Text) : (word s).Local := by
  intro t q a r _
  rw [word_split_iff, word_split_iff, ← List.append_assoc, List.append_cancel_right_eq]

theorem run_local (least : Nat) (p : Char → Bool) : (run least p).Local := by
  intro t q a r hr
  have hhead : (r ++ q).head? = r.head? := by
    cases r with
    | nil => exact absurd rfl hr
    | cons c r => rfl
  rw [run_split_iff, run_split_iff, hhead, ← List.append_assoc, List.append_cancel_right_eq]

theorem next_is_split (p : Char → Bool) (t a r : Text) :
    (nextIs p).split? t = some (a, r) ↔ a = [] ∧ t = r ∧ r.head?.any p = true := by
  cases t with
  | nil =>
    simp only [nextIs, split?]
    constructor
    · intro h; simp at h
    · rintro ⟨_, rfl, h⟩; simp at h
  | cons c t =>
    simp only [nextIs, split?]
    constructor
    · intro h
      split at h
      · next hc =>
        simp only [Option.some.injEq, Prod.mk.injEq] at h
        obtain ⟨rfl, rfl⟩ := h
        exact ⟨rfl, rfl, hc⟩
      · simp at h
    · rintro ⟨rfl, rfl, h⟩
      have hc : p c = true := h
      simp [hc]

theorem next_is_local (p : Char → Bool) : (nextIs p).Local := by
  intro t q a r hr
  have hhead : (r ++ q).head? = r.head? := by
    cases r with
    | nil => exact absurd rfl hr
    | cons c r => rfl
  rw [next_is_split, next_is_split, hhead, List.append_cancel_right_eq]

theorem word_reads_iff (w t r : Text) (parts : List Text) :
    readAll [word w] t = some (parts, r) ↔ parts = [w] ∧ t = w ++ r := by
  constructor
  · intro h
    cases hs : Text.after? w t with
    | none => simp [readAll, split?, hs] at h
    | some u =>
      simp only [readAll, split?, hs, Option.map_some, Option.some.injEq, Prod.mk.injEq] at h
      obtain ⟨rfl, rfl⟩ := h
      exact ⟨rfl, Text.after?_eq_some.1 hs⟩
  · rintro ⟨rfl, rfl⟩
    rw [readAll_cons (word_split w r)]
    rfl

theorem reads_not_nil {ps : List Piece} {w t r : Text} {parts : List Text} (hw : w ≠ [])
    (h : readAll (ps ++ [word w]) t = some (parts, r)) : parts.flatten ≠ [] := by
  rw [readAll_append, Option.bind_eq_some_iff] at h
  obtain ⟨x, hx, h⟩ := h
  rw [Option.map_eq_some_iff] at h
  obtain ⟨y, hy, h⟩ := h
  have hlast : y.1.flatten = w := by
    rw [((word_reads_iff w x.2 y.2 y.1).1 hy).1]
    simp
  simp only [Prod.mk.injEq] at h
  rw [← h.1, List.flatten_append, hlast]
  simp [hw]

/-- What pieces read before a word that takes something, they read whatever stands behind it. -/
theorem reads_iff {ps : List Piece} {w : Text} (hps : ∀ p ∈ ps, p.Local) (hw : w ≠ [])
    (t q : Text) (parts : List Text) (r : Text) :
    readAll (ps ++ [word w]) t = some (parts, r) ↔
      readAll (ps ++ [word w]) (t ++ q) = some (parts, r ++ q) := by
  induction ps generalizing t parts r with
  | nil =>
    rw [List.nil_append, word_reads_iff, word_reads_iff, ← List.append_assoc,
      List.append_cancel_right_eq]
  | cons p ps ih =>
    have hp := hps p (by simp)
    have ih := ih fun p' hp' => hps p' (by simp [hp'])
    rw [List.cons_append]
    constructor
    · intro h
      cases hs : p.split? t with
      | none => rw [readAll_cons_none hs] at h; simp at h
      | some x =>
        obtain ⟨a, u⟩ := x
        rw [readAll_cons hs, Option.map_eq_some_iff] at h
        obtain ⟨⟨rest, v⟩, hrest, he⟩ := h
        have hu : u ≠ [] := by
          intro hnil
          apply reads_not_nil hw hrest
          have := readAll_flatten hrest
          rw [hnil] at this
          exact (List.append_eq_nil_iff.1 this.symm).1
        simp only [Prod.mk.injEq] at he
        obtain ⟨rfl, rfl⟩ := he
        rw [readAll_cons ((hp t q a u hu).1 hs), (ih u rest v).1 hrest]
        rfl
    · intro h
      cases hs : p.split? (t ++ q) with
      | none => rw [readAll_cons_none hs] at h; simp at h
      | some x =>
        obtain ⟨a, u⟩ := x
        rw [readAll_cons hs, Option.map_eq_some_iff] at h
        obtain ⟨⟨rest, v⟩, hrest, he⟩ := h
        simp only [Prod.mk.injEq] at he
        obtain ⟨rfl, rfl⟩ := he
        have hu : u = (rest.flatten ++ r) ++ q := by
          rw [readAll_flatten hrest, List.append_assoc]
        have hne : rest.flatten ++ r ≠ [] := by
          simp [reads_not_nil hw hrest]
        rw [hu] at hs hrest
        rw [readAll_cons ((hp t q a _ hne).2 hs), (ih _ rest r).2 hrest]
        rfl

end Piece

namespace Pattern

open Text (endOf)

variable {p : Pattern}

/-- A pattern whose last piece is a word, behind pieces that look no further than it. -/
def Closed (p : Pattern) : Prop :=
  ∃ ps w, p.pieces = ps ++ [.word w] ∧ (∀ q ∈ ps, q.Local) ∧ w ≠ []

theorem fits_extend (hp : p.Closed) {b : Option Char} {t : Text} {parts : List Text}
    (h : p.fits? b t = some parts) (q : Text) : p.fits? b (t ++ q) = some parts := by
  obtain ⟨ps, w, hpieces, hlocal, hw⟩ := hp
  rw [fits_some, hpieces] at h ⊢
  obtain ⟨hb, r, hr⟩ := h
  exact ⟨hb, r ++ q, (Piece.reads_iff hlocal hw t q parts r).1 hr⟩

theorem fits_restrict (hp : p.Closed) {b : Option Char} {t q : Text} {parts : List Text}
    (h : p.fits? b (t ++ q) = some parts) (hlen : parts.flatten.length ≤ t.length) :
    p.fits? b t = some parts := by
  obtain ⟨ps, w, hpieces, hlocal, hw⟩ := hp
  rw [fits_some, hpieces] at h ⊢
  obtain ⟨hb, r, hr⟩ := h
  have htext : t ++ q = parts.flatten ++ r := Piece.readAll_flatten hr
  obtain ⟨u, hu⟩ : ∃ u, r = u ++ q := by
    rcases List.append_eq_append_iff.1 htext with ⟨x, hx, _⟩ | ⟨x, _, hx⟩
    · have hnil : x = [] := List.length_eq_zero_iff.1 (by
        have := congrArg List.length hx
        simp at this hlen
        omega)
      exact ⟨[], by simp_all⟩
    · exact ⟨x, hx⟩
  rw [hu] at hr
  exact ⟨hb, u, (Piece.reads_iff hlocal hw t q parts u).2 hr⟩

theorem fits_missing (hp : p.Closed) {b : Option Char} {t q : Text}
    (h : p.fits? b (t ++ q) = none) : p.fits? b t = none := by
  cases hfit : p.fits? b t with
  | none => rfl
  | some parts => simp [fits_extend hp hfit q] at h

theorem fits_not_nil (hp : p.Closed) {b : Option Char} {t : Text} {parts : List Text}
    (h : p.fits? b t = some parts) : parts.flatten ≠ [] := by
  obtain ⟨ps, w, hpieces, _, hw⟩ := hp
  rw [fits_some, hpieces] at h
  obtain ⟨_, r, hr⟩ := h
  exact Piece.reads_not_nil hw hr

/-- A first fit that ends inside a stretch is the first fit of the stretch. -/
theorem first_restrict (hp : p.Closed) {b : Option Char} {i : Nat} {t q : Text} {h : Hit}
    (hf : p.firstFrom? b i (t ++ q) = some h) (hstop : h.stop ≤ i + t.length) :
    p.firstFrom? b i t = some h := by
  induction t generalizing b i with
  | nil =>
    obtain ⟨u, v, _, hstart, _, hfit⟩ := first_iff.1 hf
    have hpos := List.length_pos_iff.2 (fits_not_nil hp hfit)
    simp only [Hit.stop, Hit.text, hstart, List.length_nil] at hstop
    omega
  | cons c t ih =>
    rw [List.cons_append, firstFrom?] at hf
    cases hfit : p.fits? b (c :: (t ++ q)) with
    | some parts =>
      simp only [hfit, Option.some.injEq] at hf
      subst hf
      rw [firstFrom?, fits_restrict (t := c :: t) hp hfit (by
        simp only [Hit.stop, Hit.text] at hstop; omega)]
    | none =>
      simp only [hfit] at hf
      rw [firstFrom?, fits_missing (t := c :: t) hp hfit]
      exact ih hf (by simp at hstop; omega)

/-- A pattern without a first fit fits nowhere. -/
theorem fits_of_first_none {b : Option Char} {i : Nat} {u v : Text}
    (h : p.firstFrom? b i (u ++ v) = none) : p.fits? (endOf b u) v = none := by
  induction u generalizing b i with
  | nil =>
    cases v with
    | nil => simpa [firstFrom?, endOf] using h
    | cons c v =>
      rw [List.nil_append, firstFrom?] at h
      cases hc : p.fits? b (c :: v) with
      | none => exact hc
      | some parts => simp [hc] at h
  | cons c u ih =>
    rw [List.cons_append, firstFrom?] at h
    cases hc : p.fits? b (c :: (u ++ v)) with
    | none => exact ih (by simpa [hc] using h)
    | some parts => simp [hc] at h

theorem first_missing (hp : p.Closed) {b : Option Char} {i : Nat} {t q : Text}
    (hf : p.firstFrom? b i (t ++ q) = none) : p.firstFrom? b i t = none := by
  cases h : p.firstFrom? b i t with
  | none => rfl
  | some x =>
    obtain ⟨u, v, rfl, _, _, hfit⟩ := first_iff.1 h
    rw [List.append_assoc] at hf
    have := fits_missing hp (fits_of_first_none hf)
    rw [hfit] at this
    simp at this

/-- A first fit that does not begin in a stretch is the first fit behind it. -/
theorem first_behind {b : Option Char} {i : Nat} {u v : Text} {o : Option Hit}
    (hf : p.firstFrom? b i (u ++ v) = o) (ho : ∀ h, o = some h → i + u.length ≤ h.start) :
    p.firstFrom? (endOf b u) (i + u.length) v = o := by
  induction u generalizing b i with
  | nil => exact hf
  | cons c u ih =>
    rw [List.cons_append, firstFrom?] at hf
    split at hf
    · have hstart : i + (u.length + 1) ≤ i := ho _ hf.symm
      omega
    · have hlen : i + (c :: u).length = i + 1 + u.length := by simp; omega
      rw [hlen] at ho ⊢
      exact ih hf ho

/-- The same hit at another position. -/
def shifted (k : Nat) (h : Hit) : Hit := ⟨h.start + k, h.parts⟩

theorem first_shift (b : Option Char) (i k : Nat) (t : Text) :
    p.firstFrom? b (i + k) t = (p.firstFrom? b i t).map (shifted k) := by
  induction t generalizing b i with
  | nil => cases h : p.fits? b [] <;> simp [firstFrom?, h, shifted]
  | cons c t ih =>
    cases h : p.fits? b (c :: t) with
    | some parts => simp [firstFrom?, h, shifted]
    | none =>
      simp only [firstFrom?, h]
      rw [← ih, Nat.add_right_comm]

end Pattern
end Restage
