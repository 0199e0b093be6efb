import Restage.Proofs.Splicing

/-!
All edits of a text made at once. A character outside of every span is kept and a span gives way to its
replacement, position by position and with no order among the edits (`together`). Edits applied from the
back come to that text, or are refused just if two of them overlap (`apply_all_together`).
-/

set_option autoImplicit false

namespace Restage

/-- Two spans have a position in common. -/
def Span.Overlaps (a b : Span) : Prop := a.start < b.stop ∧ b.start < a.stop

instance (a b : Span) : Decidable (a.Overlaps b) :=
  inferInstanceAs (Decidable (a.start < b.stop ∧ b.start < a.stop))

namespace Edit

def Disjoint (es : List Edit) : Prop := es.Pairwise fun a b => ¬ a.span.Overlaps b.span

instance (es : List Edit) : Decidable (Disjoint es) :=
  inferInstanceAs (Decidable (es.Pairwise fun a b => ¬ a.span.Overlaps b.span))

theorem overlaps_symm {a b : Edit} (h : ¬ a.span.Overlaps b.span) : ¬ b.span.Overlaps a.span :=
  fun hab => h ⟨hab.2, hab.1⟩

theorem disjoint_of_ascending {es : List Edit} (h : Ascending es) : Disjoint es :=
  h.imp fun hab hover => by
    have := hover.2
    omega

theorem disjoint_perm {es fs : List Edit} (h : es.Perm fs) : Disjoint es ↔ Disjoint fs :=
  h.pairwise_iff fun hab => overlaps_symm hab

/-! Edits that are refused. -/

/-- A refusal comes from an edit that runs into one made before it, or over the limit. -/
theorem apply_from_error {limit : Option Nat} {t : Text} {es : List Edit} {n : Nat}
    (h : applyFrom limit t es = .error n) : ∃ made e rest, es = made ++ e :: rest ∧
      e.span.start = n ∧ (∃ u, applyFrom limit t made = .ok u) ∧
      ((∃ d ∈ made, d.span.start < e.span.stop) ∨ ∃ m, limit = some m ∧ m < e.span.stop) := by
  induction es generalizing limit t with
  | nil => cases limit <;> cases h
  | cons e es ih =>
    by_cases hover : ∃ m, limit = some m ∧ m < e.span.stop
    · obtain ⟨m, hm, hlt⟩ := hover
      rw [apply_from_refused t es hm hlt, Except.error.injEq] at h
      exact ⟨[], e, es, rfl, h, ⟨t, by cases limit <;> rfl⟩, Or.inr ⟨m, hm, hlt⟩⟩
    · have hstep : ∀ m, limit = some m → e.span.stop ≤ m := by
        intro m hm
        by_contra hlt
        exact hover ⟨m, hm, Nat.lt_of_not_le hlt⟩
      rw [apply_from_cons t es hstep] at h
      obtain ⟨made, x, rest, hes, hstart, ⟨u, hu⟩, hx⟩ := ih h
      refine ⟨e :: made, x, rest, by rw [hes, List.cons_append], hstart,
        ⟨u, by rw [apply_from_cons t made hstep, hu]⟩, Or.inl ?_⟩
      rcases hx with ⟨d, hd, hlt⟩ | ⟨m, hm, hlt⟩
      · exact ⟨d, List.mem_cons_of_mem e hd, hlt⟩
      · cases hm
        exact ⟨e, List.mem_cons_self, hlt⟩

theorem later_start {a b : Edit} (h : later a b) : b.span.start ≤ a.span.start := by
  simp only [later, Bool.or_eq_true, Bool.and_eq_true, decide_eq_true_eq, beq_iff_eq] at h
  omega

/-- The edits that start at a position or behind it. -/
def startingFrom (p : Nat) (es : List Edit) : List Edit := es.filter fun e => p ≤ e.span.start

theorem starting_from_perm {es fs : List Edit} (h : es.Perm fs) (p : Nat) :
    Disjoint (startingFrom p es) ↔ Disjoint (startingFrom p fs) :=
  disjoint_perm (h.filter _)

theorem starting_from_disjoint {es : List Edit} (h : Disjoint es) (p : Nat) :
    Disjoint (startingFrom p es) :=
  List.Pairwise.filter _ h

/-- In a sorted list only the edits in front of an edit start behind its start. -/
theorem starting_from_front {made rest : List Edit} {e : Edit} {p : Nat} (h : e.span.start < p)
    (hsorted : (e :: rest).Pairwise fun a b => later a b = true) :
    startingFrom p (made ++ e :: rest) = startingFrom p made := by
  have hnone : startingFrom p (e :: rest) = [] := by
    apply List.filter_eq_nil_iff.2
    intro x hx
    have hxe : x.span.start ≤ e.span.start := by
      rcases List.mem_cons.1 hx with rfl | hx
      · exact Nat.le_refl _
      · exact later_start ((List.pairwise_cons.1 hsorted).1 x hx)
    rw [decide_eq_true_eq]
    omega
  calc startingFrom p (made ++ e :: rest) = startingFrom p made ++ startingFrom p (e :: rest) :=
        List.filter_append ..
    _ = startingFrom p made := by rw [hnone, List.append_nil]

/-- Edits are refused at the last position from which on they overlap. -/
theorem apply_all_error {t : Text} {es : List Edit} (hw : Within t.length es) {n : Nat}
    (h : applyAll t es = .error n) : IsGreatest {p | ¬ Disjoint (startingFrom p es)} n := by
  obtain ⟨made, e, rest, hsplit, rfl, ⟨u, hu⟩, hover⟩ := apply_from_error h
  obtain ⟨d, hd, hlt⟩ : ∃ d ∈ made, d.span.start < e.span.stop := by
    rcases hover with hover | ⟨m, hm, _⟩
    · exact hover
    · cases hm
  have hperm : (made ++ e :: rest).Perm es := hsplit ▸ List.mergeSort_perm es later
  have hsorted : (made ++ e :: rest).Pairwise fun a b => later a b = true :=
    hsplit ▸ List.pairwise_mergeSort later_trans later_total es
  have hspans : ∀ x ∈ made, x.span.start < x.span.stop :=
    fun x hx => (hw x (hperm.mem_iff.1 (by simp [hx]))).1
  obtain ⟨_, hlast, hbefore⟩ := List.pairwise_append.1 hsorted
  constructor
  · -- the edit at fault and one that was made before it start here or behind
    intro hdisjoint
    rw [← starting_from_perm hperm, startingFrom, Disjoint, List.pairwise_filter] at hdisjoint
    have hapart := (List.pairwise_append.1 hdisjoint).2.2 d hd e (by simp)
    have hde := later_start (hbefore d hd e (by simp))
    have hspan := hspans d hd
    exact hapart (by simpa using hde) (by simp) ⟨hlt, by omega⟩
  · -- from any later position on there are only edits that were made
    intro p hp
    by_contra hpast
    apply hp
    rw [← starting_from_perm hperm, starting_from_front (Nat.lt_of_not_le hpast) hlast]
    apply starting_from_disjoint
    rw [← disjoint_perm made.reverse_perm]
    exact disjoint_of_ascending (apply_from_ascending hspans hu).1

/-- Edits can be made together just if they do not overlap. -/
theorem apply_all_iff {t : Text} {es : List Edit} (hw : Within t.length es) :
    (∃ u, applyAll t es = .ok u) ↔ Disjoint es := by
  constructor
  · rintro ⟨u, hu⟩
    obtain ⟨fs, hperm, hascending, _⟩ := apply_all_ok hw hu
    exact (disjoint_perm hperm).1 (disjoint_of_ascending hascending)
  · intro hes
    cases h : applyAll t es with
    | ok u => exact ⟨u, rfl⟩
    | error n => exact absurd (starting_from_disjoint hes n) (apply_all_error hw h).1

theorem apply_all_error_iff {t : Text} {es : List Edit} (hw : Within t.length es) {n : Nat} :
    applyAll t es = .error n ↔ IsGreatest {p | ¬ Disjoint (startingFrom p es)} n := by
  constructor
  · exact apply_all_error hw
  · intro hn
    cases happly : applyAll t es with
    | ok u =>
      have hes := (apply_all_iff hw).1 ⟨u, happly⟩
      exact absurd (starting_from_disjoint hes n) hn.1
    | error m => rw [(apply_all_error hw happly).unique hn]

/-! A text read position by position. -/

def Covers (e : Edit) (k : Nat) : Prop := e.span.start ≤ k ∧ k < e.span.stop

instance (e : Edit) (k : Nat) : Decidable (Covers e k) :=
  inferInstanceAs (Decidable (e.span.start ≤ k ∧ k < e.span.stop))

/-- What comes in the place of a character: outside of all spans the character itself, and in a span
what the edits put where they start. -/
def standIn (es : List Edit) (k : Nat) (c : Char) : Text :=
  if ∃ e ∈ es, Covers e k then (es.filter fun e => e.span.start = k).flatMap (·.text) else [c]

/-- All edits made at once, in a text that begins at position `i`. -/
def together (i : Nat) (t : Text) (es : List Edit) : Text :=
  (t.zipIdx i).flatMap fun p => standIn es p.2 p.1

theorem together_append (i : Nat) (u t : Text) (es : List Edit) :
    together i (u ++ t) es = together i u es ++ together (i + u.length) t es := by
  rw [together, List.zipIdx_append, List.flatMap_append]
  rfl

theorem together_congr {i : Nat} {t : Text} {es fs : List Edit}
    (h : ∀ k c, i ≤ k → k < i + t.length → standIn es k c = standIn fs k c) :
    together i t es = together i t fs := by
  apply List.flatMap_congr
  intro p hp
  obtain ⟨hfirst, hlast, _⟩ := List.mem_zipIdx hp
  exact h p.2 p.1 hfirst hlast

section

variable {e : Edit} {es : List Edit} {k : Nat} (c : Char)

theorem stand_in_kept (h : ∀ e ∈ es, ¬ Covers e k) : standIn es k c = [c] := by
  rw [standIn, if_neg]
  rintro ⟨e, he, hcovers⟩
  exact h e he hcovers

theorem stand_in_start (hspan : e.span.start < e.span.stop) (hb : Behind e.span.stop es) :
    standIn (e :: es) e.span.start c = e.text := by
  have hothers : es.filter (fun d => d.span.start = e.span.start) = [] := by
    apply List.filter_eq_nil_iff.2
    intro d hd
    have hstart := (hb d hd).1
    rw [decide_eq_true_eq]
    omega
  rw [standIn, if_pos ⟨e, by simp, Nat.le_refl _, hspan⟩, List.filter_cons_of_pos (by simp), hothers]
  simp

theorem stand_in_inside (h1 : e.span.start < k) (h2 : k < e.span.stop) (hb : Behind e.span.stop es) :
    standIn (e :: es) k c = [] := by
  rw [standIn, if_pos ⟨e, by simp, Nat.le_of_lt h1, h2⟩, List.filter_eq_nil_iff.2, List.flatMap_nil]
  intro d hd
  rw [decide_eq_true_eq]
  rcases List.mem_cons.1 hd with rfl | hd
  · exact Nat.ne_of_lt h1
  · have hstart := (hb d hd).1
    omega

theorem stand_in_behind (hspan : e.span.start < e.span.stop) (h : e.span.stop ≤ k) :
    standIn (e :: es) k c = standIn es k c := by
  have hstart : e.span.start ≠ k := by omega
  have hcovers : ¬ Covers e k := fun hk => by
    have := hk.2
    omega
  simp only [standIn, List.exists_mem_cons_iff, hcovers, false_or]
  rw [List.filter_cons_of_neg (by simpa using hstart)]

end

theorem together_none (i : Nat) (t : Text) : together i t [] = t := by
  calc (t.zipIdx i).flatMap (fun p => standIn [] p.2 p.1) = (t.zipIdx i).map (·.1) := by
        rw [List.map_eq_flatMap]
        exact List.flatMap_congr fun p _ => stand_in_kept _ (by simp)
    _ = t := List.zipIdx_map_fst i t

/-- In front of all spans the text is kept. -/
theorem together_keep (i : Nat) (u t : Text) {es : List Edit} (h : Behind (i + u.length) es) :
    together i (u ++ t) es = u ++ together (i + u.length) t es := by
  have hfront : together i u es = together i u [] := by
    apply together_congr
    intro k c _ hk
    rw [stand_in_kept c, stand_in_kept c (by simp)]
    intro e he hcovers
    have hstart := (h e he).1
    have := hcovers.1
    omega
  rw [together_append, hfront, together_none]

/-- A span is replaced, and the text behind it has only the edits that come behind. -/
theorem together_replace {u t : Text} {e : Edit} {es : List Edit}
    (hu : e.span.start + u.length = e.span.stop) (hspan : e.span.start < e.span.stop)
    (hb : Behind e.span.stop es) :
    together e.span.start (u ++ t) (e :: es) = e.text ++ together e.span.stop t es := by
  have hfront : together e.span.start u (e :: es) = e.text := by
    cases u with
    | nil =>
      rw [List.length_nil] at hu
      omega
    | cons c u =>
      rw [together, List.zipIdx_cons, List.flatMap_cons, stand_in_start c hspan hb,
        List.flatMap_eq_nil_iff.2, List.append_nil]
      intro p hp
      rw [List.length_cons] at hu
      obtain ⟨hfirst, hlast, _⟩ := List.mem_zipIdx hp
      exact stand_in_inside p.1 hfirst (by omega) hb
  have hback : together e.span.stop t (e :: es) = together e.span.stop t es :=
    together_congr fun k c hk _ => stand_in_behind c hspan hk
  rw [together_append, hfront, hu, hback]

/-- Gaps and replacements from the left are the edits made at once. -/
theorem splice_together {i : Nat} {t : Text} {es : List Edit} (h : Along i (i + t.length) es) :
    splice i t es = together i t es := by
  induction es generalizing i t with
  | nil => rw [together_none, splice]
  | cons e es ih =>
    obtain ⟨hstart, hspan, hrest⟩ := h
    obtain ⟨front, mid, back, rfl, hfront, hmid⟩ :=
      cut_span hstart (Nat.le_of_lt hspan) (along_le hrest)
    have hlength : i + (front ++ (mid ++ back)).length = e.span.stop + back.length := by
      simp only [List.length_append]
      omega
    rw [hlength] at hrest
    have hbehind : Behind (i + front.length) (e :: es) :=
      behind_cons (Nat.le_of_eq hfront) (Nat.le_of_lt hspan) (along_behind hrest)
    calc splice i (front ++ (mid ++ back)) (e :: es) =
          front ++ (e.text ++ splice e.span.stop back es) := splice_cut es hfront hmid
      _ = front ++ (e.text ++ together e.span.stop back es) := by rw [ih hrest]
      _ = front ++ together e.span.start (mid ++ back) (e :: es) := by
        rw [together_replace hmid hspan (along_behind hrest)]
      _ = together i (front ++ (mid ++ back)) (e :: es) := by
        rw [together_keep i front _ hbehind, hfront]

/-! The order in which edits are listed. -/

theorem overlaps_of_covers {a b : Edit} {k : Nat} (ha : Covers a k) (hb : Covers b k) :
    a.span.Overlaps b.span :=
  ⟨Nat.lt_of_le_of_lt ha.1 hb.2, Nat.lt_of_le_of_lt hb.1 ha.2⟩

/-- No two edits that lie apart start at one position. -/
theorem start_lone {n k : Nat} {es : List Edit} (hw : Within n es) (hd : Disjoint es) :
    (es.filter fun e => e.span.start = k).Pairwise fun _ _ => False := by
  have hcovers : ∀ e ∈ es.filter fun e => e.span.start = k, Covers e k := by
    intro e he
    obtain ⟨hmem, hk⟩ := List.mem_filter.1 he
    rw [decide_eq_true_eq] at hk
    have hspan := (hw e hmem).1
    exact ⟨by omega, by omega⟩
  apply List.Pairwise.imp_of_mem _ (List.Pairwise.filter _ hd)
  intro a b ha hb hab
  exact hab (overlaps_of_covers (hcovers a ha) (hcovers b hb))

theorem stand_in_perm {n : Nat} {es fs : List Edit} (h : fs.Perm es) (hw : Within n es)
    (hd : Disjoint es) (k : Nat) (c : Char) : standIn fs k c = standIn es k c := by
  have hfilter : fs.filter (fun e => e.span.start = k) = es.filter fun e => e.span.start = k :=
    List.Perm.eq_of_pairwise (fun _ _ _ _ hfalse => hfalse.elim)
      (start_lone (within_perm h hw) ((disjoint_perm h).2 hd)) (start_lone hw hd) (h.filter _)
  simp only [standIn, hfilter, h.mem_iff]

/-- Edits that do not overlap come to the text in which they are made at once. -/
theorem apply_all_disjoint {t : Text} {es : List Edit} (hw : Within t.length es) (hd : Disjoint es) :
    ∃ fs, fs.Perm es ∧ Ascending fs ∧ applyAll t es = .ok (splice 0 t fs) ∧
      splice 0 t fs = together 0 t es := by
  obtain ⟨u, hu⟩ := (apply_all_iff hw).2 hd
  obtain ⟨fs, hperm, hascending, rfl⟩ := apply_all_ok hw hu
  have halong : Along 0 (0 + t.length) fs := by
    apply along_of_ascending hascending (Nat.zero_le _)
    intro e he
    obtain ⟨hspan, hstop⟩ := within_perm hperm hw e he
    exact ⟨Nat.zero_le _, hspan, by omega⟩
  refine ⟨fs, hperm, hascending, hu, ?_⟩
  calc splice 0 t fs = together 0 t fs := splice_together halong
    _ = together 0 t es := together_congr fun k c _ _ => stand_in_perm hperm hw hd k c

/-- The order in which edits are listed changes neither the text nor the refusal. -/
theorem apply_all_perm {t : Text} {es fs : List Edit} (h : fs.Perm es) (hw : Within t.length es) :
    applyAll t fs = applyAll t es := by
  have hwf := within_perm h hw
  cases hes : applyAll t es with
  | ok u =>
    have hd := (apply_all_iff hw).1 ⟨u, hes⟩
    obtain ⟨_, _, _, hok, htext⟩ := apply_all_disjoint hw hd
    obtain ⟨_, _, _, hok', htext'⟩ := apply_all_disjoint hwf ((disjoint_perm h).2 hd)
    rw [← hes, hok, hok', htext, htext']
    congr 1
    exact together_congr fun k c _ _ => stand_in_perm h hw hd k c
  | error n =>
    rw [apply_all_error_iff hwf]
    simp only [starting_from_perm h]
    exact (apply_all_error_iff hw).1 hes

/-- Edits of non-empty spans of a text are refused just if two of them overlap, at the last position
from which on they do. Else the text that is returned is what is kept between the spans and the
replacements from left to right, and so the text in which all edits are made at once. -/
theorem apply_all_together {t : Text} {es : List Edit} (hw : Within t.length es) :
    ((∃ n, applyAll t es = .error n) ↔ ¬ Disjoint es) ∧
      (∀ n, applyAll t es = .error n ↔ IsGreatest {p | ¬ Disjoint (startingFrom p es)} n) ∧
      (Disjoint es → ∃ fs, fs.Perm es ∧ Ascending fs ∧ applyAll t es = .ok (splice 0 t fs) ∧
        splice 0 t fs = together 0 t es) := by
  refine ⟨?_, fun n => apply_all_error_iff hw, apply_all_disjoint hw⟩
  rw [← apply_all_iff hw]
  cases applyAll t es <;> simp

/-- A part left out, a part that touches it, and one that grows. -/
def touchingEdits : List Edit :=
  [⟨⟨1, 3⟩, []⟩, ⟨⟨4, 6⟩, ['x', 'y', 'z']⟩, ⟨⟨0, 1⟩, ['u']⟩]

/-- A fourth edit runs from the first of them into the second. -/
theorem touching_edits_together : Within 6 touchingEdits ∧
    applyAll ['a', 'b', 'c', 'd', 'e', 'f'] touchingEdits = .ok ['u', 'd', 'x', 'y', 'z'] ∧
      applyAll ['a', 'b', 'c', 'd', 'e', 'f'] (⟨⟨2, 5⟩, ['v']⟩ :: touchingEdits) = .error 2 := by
  have hwithin : Within 6 touchingEdits := by
    unfold Within
    decide
  have hcrossing : Within 6 (⟨⟨2, 5⟩, ['v']⟩ :: touchingEdits) := by
    unfold Within
    decide
  refine ⟨hwithin, ?_, ?_⟩
  · obtain ⟨_, _, hmade⟩ := apply_all_together (t := ['a', 'b', 'c', 'd', 'e', 'f']) hwithin
    obtain ⟨fs, _, _, happly, htext⟩ := hmade (by decide)
    rw [happly, htext]
    decide
  · obtain ⟨_, hrefused, _⟩ := apply_all_together (t := ['a', 'b', 'c', 'd', 'e', 'f']) hcrossing
    apply (hrefused 2).2
    constructor
    · exact (by decide : ¬ Disjoint (startingFrom 2 (⟨⟨2, 5⟩, ['v']⟩ :: touchingEdits)))
    · intro p hp
      by_contra hpast
      apply hp
      have hfew : (startingFrom p (⟨⟨2, 5⟩, ['v']⟩ :: touchingEdits)).Sublist
          (startingFrom 3 (⟨⟨2, 5⟩, ['v']⟩ :: touchingEdits)) := by
        apply List.monotone_filter_right
        intro e he
        rw [decide_eq_true_eq] at he ⊢
        omega
      exact List.Pairwise.sublist hfew
        (by decide : Disjoint (startingFrom 3 (⟨⟨2, 5⟩, ['v']⟩ :: touchingEdits)))

end Edit
end Restage
