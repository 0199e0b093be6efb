import Mathlib
import Restage.Text.Edit

/-!
Edits applied from the back and edits spliced from the left. For spans that lie one behind another
both give one text, in whatever order the edits are listed (`apply_all_splice`), and a splice goes
along a text part by part (`splice_keep`, `splice_replace`, `splice_parts`).
-/

set_option autoImplicit false

namespace Restage.Edit

/-- Each edit ends where the next one starts, or before. -/
def Ascending (es : List Edit) : Prop := es.Pairwise fun a b => a.span.stop ≤ b.span.start

/-- Every edit replaces at least one character, and only characters of a text so long. -/
def Within (n : Nat) (es : List Edit) : Prop :=
  ∀ e ∈ es, e.span.start < e.span.stop ∧ e.span.stop ≤ n

/-- No edit starts before a position, or stops before it starts. -/
def Behind (i : Nat) (es : List Edit) : Prop :=
  ∀ e ∈ es, i ≤ e.span.start ∧ e.span.start ≤ e.span.stop

theorem within_perm {n : Nat} {es fs : List Edit} (h : fs.Perm es) (hw : Within n es) : Within n fs :=
  fun e he => hw e (h.mem_iff.1 he)

theorem behind_weaken {i j : Nat} {es : List Edit} (h : Behind j es) (hi : i ≤ j) : Behind i es :=
  fun e he => ⟨Nat.le_trans hi (h e he).1, (h e he).2⟩

theorem behind_cons {i : Nat} {e : Edit} {es : List Edit} (h1 : i ≤ e.span.start)
    (h2 : e.span.start ≤ e.span.stop) (h : Behind e.span.stop es) : Behind i (e :: es) := by
  intro d hd
  rcases List.mem_cons.1 hd with rfl | hd
  · exact ⟨h1, h2⟩
  · exact behind_weaken h (Nat.le_trans h1 h2) d hd

theorem behind_tail {i : Nat} {e : Edit} {es : List Edit} (ha : Ascending (e :: es))
    (hb : Behind i (e :: es)) : Behind e.span.stop es :=
  fun d hd => ⟨(List.pairwise_cons.1 ha).1 d hd, (hb d (List.mem_cons_of_mem e hd)).2⟩

theorem length_apply (e : Edit) (t : Text) (h : e.span.start ≤ t.length) :
    e.span.start ≤ (e.apply t).length := by
  simp only [apply, List.length_append, List.length_take]
  omega

/-- An edit that ends where the one before it starts, or earlier, is made. -/
theorem apply_from_cons {limit : Option Nat} {e : Edit} (t : Text) (es : List Edit)
    (h : ∀ n, limit = some n → e.span.stop ≤ n) :
    applyFrom limit t (e :: es) = applyFrom (some e.span.start) (e.apply t) es := by
  cases limit with
  | none => rfl
  | some n => rw [applyFrom, if_neg (Nat.not_lt.2 (h n rfl))]

/-- An edit that ends behind the start of the one before it is refused. -/
theorem apply_from_refused {limit : Option Nat} {e : Edit} {n : Nat} (t : Text) (es : List Edit)
    (hlimit : limit = some n) (h : n < e.span.stop) :
    applyFrom limit t (e :: es) = .error e.span.start := by
  rw [hlimit, applyFrom, if_pos h]

/-- The last edit of a splice can be made first. -/
theorem splice_concat (i : Nat) (t : Text) (es : List Edit) (e : Edit)
    (ha : Ascending (es ++ [e])) (hb : Behind i (es ++ [e])) (hn : e.span.stop - i ≤ t.length) :
    splice i t (es ++ [e]) =
      splice i (t.take (e.span.start - i) ++ e.text ++ t.drop (e.span.stop - i)) es := by
  induction es generalizing i t with
  | nil => simp [splice]
  | cons d es ih =>
    have hd := hb d (by simp)
    have he := hb e (by simp)
    obtain ⟨hfirst, hrest⟩ := List.pairwise_cons.1 ha
    have hde := hfirst e (by simp)
    have hlen : (t.take (e.span.start - i)).length = e.span.start - i := by
      rw [List.length_take]; omega
    rw [List.cons_append, splice, splice, ih d.span.stop (t.drop (d.span.stop - i)) hrest
      (behind_tail ha hb) (by rw [List.length_drop]; omega)]
    have hleft : (t.take (e.span.start - i) ++ e.text ++ t.drop (e.span.stop - i)).take
        (d.span.start - i) = t.take (d.span.start - i) := by
      rw [List.append_assoc, List.take_append_of_le_length (by omega), List.take_take]
      congr 1
      omega
    have hright : (t.take (e.span.start - i) ++ e.text ++ t.drop (e.span.stop - i)).drop
        (d.span.stop - i) = (t.drop (d.span.stop - i)).take (e.span.start - d.span.stop) ++ e.text ++
          (t.drop (d.span.stop - i)).drop (e.span.stop - d.span.stop) := by
      rw [List.append_assoc, List.drop_append_of_le_length (by omega), List.drop_take,
        List.drop_drop, ← List.append_assoc]
      congr 3 <;> omega
    rw [hleft, hright]

theorem apply_from_reverse (es : List Edit) (limit : Option Nat) (t : Text)
    (ha : Ascending es) (hw : Within t.length es)
    (hl : ∀ n, limit = some n → ∀ e ∈ es, e.span.stop ≤ n) :
    applyFrom limit t es.reverse = .ok (splice 0 t es) := by
  induction es using List.reverseRecOn generalizing limit t with
  | nil => cases limit <;> rfl
  | append_singleton es e ih =>
    have he := hw e (by simp)
    have hbefore : ∀ d ∈ es, d.span.stop ≤ e.span.start :=
      fun d hd => (List.pairwise_append.1 ha).2.2 d hd e (by simp)
    rw [List.reverse_append, List.reverse_singleton, List.singleton_append,
      apply_from_cons t _ fun n hn => hl n hn e (by simp), ih _ _ (List.pairwise_append.1 ha).1]
    · rw [splice_concat 0 t es e ha _ (by simpa using he.2)]
      · simp [apply]
      · intro d hd
        exact ⟨Nat.zero_le _, Nat.le_of_lt (hw d hd).1⟩
    · intro d hd
      have hlen := length_apply e t (by omega)
      have hd' := hbefore d hd
      exact ⟨(hw d (by simp [hd])).1, by omega⟩
    · intro n hn d hd
      cases hn
      exact hbefore d hd

theorem later_trans (a b c : Edit) : later a b → later b c → later a c := by
  simp only [later, Bool.or_eq_true, Bool.and_eq_true, decide_eq_true_eq, beq_iff_eq]
  omega

theorem later_total (a b : Edit) : later a b || later b a := by
  simp only [later, Bool.or_eq_true, Bool.and_eq_true, decide_eq_true_eq, beq_iff_eq]
  omega

theorem ascending_later {es : List Edit} {n : Nat} (ha : Ascending es) (hw : Within n es) :
    es.reverse.Pairwise fun a b => later a b = true := by
  rw [List.pairwise_reverse]
  apply List.Pairwise.imp_of_mem _ ha
  intro a b hma hmb hab
  have h1 := hw a hma
  have h2 := hw b hmb
  simp only [later, Bool.or_eq_true, Bool.and_eq_true, decide_eq_true_eq, beq_iff_eq]
  omega

/-- One edit ends where the other one starts, or before. -/
def Apart (a b : Edit) : Prop := a.span.stop ≤ b.span.start ∨ b.span.stop ≤ a.span.start

theorem ascending_apart {es : List Edit} (ha : Ascending es) {a b : Edit} (hma : a ∈ es)
    (hmb : b ∈ es) (hne : a ≠ b) : Apart a b := by
  have : Std.Symm Apart := ⟨fun _ _ hab => hab.symm⟩
  have hapart : es.Pairwise Apart := ha.imp Or.inl
  exact hapart.forall hma hmb hne

/-- Two ascending edits that are each later than the other are one. -/
theorem later_antisymm {es : List Edit} {n : Nat} (ha : Ascending es) (hw : Within n es)
    {a b : Edit} (hma : a ∈ es) (hmb : b ∈ es) (hab : later a b) (hba : later b a) : a = b := by
  simp only [later, Bool.or_eq_true, Bool.and_eq_true, decide_eq_true_eq, beq_iff_eq] at hab hba
  by_contra hne
  have h1 := hw a hma
  have h2 := hw b hmb
  rcases ascending_apart ha hma hmb hne with hapart | hapart <;> omega

/-- Applying edits from the back is splicing them, for spans that lie one behind another. -/
theorem apply_all_splice {t : Text} {es fs : List Edit} (hp : fs.Perm es) (ha : Ascending es)
    (hw : Within t.length es) : applyAll t fs = .ok (splice 0 t es) := by
  have hsorted : fs.mergeSort later = es.reverse := by
    apply @List.Perm.eq_of_pairwise _ (fun a b => later a b = true)
    · intro a b hma hmb
      exact later_antisymm ha hw (hp.mem_iff.1 (List.mem_mergeSort.1 hma))
        (List.mem_reverse.1 hmb)
    · exact List.pairwise_mergeSort later_trans later_total fs
    · exact ascending_later ha hw
    · exact ((List.mergeSort_perm fs later).trans hp).trans (List.reverse_perm es).symm
  rw [applyAll, hsorted]
  exact apply_from_reverse es none t ha hw (by simp)

/-- Edits that can be applied in their order from the back end where the one before starts. -/
theorem apply_from_ascending {t u : Text} {es : List Edit} {limit : Option Nat}
    (hw : ∀ e ∈ es, e.span.start < e.span.stop) (h : applyFrom limit t es = .ok u) :
    Ascending es.reverse ∧ ∀ n, limit = some n → ∀ e ∈ es, e.span.stop ≤ n := by
  induction es generalizing limit t with
  | nil => exact ⟨List.Pairwise.nil, by simp⟩
  | cons e es ih =>
    have he := hw e (by simp)
    have hmade : ∀ n, limit = some n → e.span.stop ≤ n := by
      intro n hn
      by_contra hlt
      rw [apply_from_refused t es hn (Nat.lt_of_not_le hlt)] at h
      cases h
    rw [apply_from_cons t es hmade] at h
    obtain ⟨hascending, hbelow⟩ := ih (fun d hd => hw d (by simp [hd])) h
    refine ⟨?_, fun n hn d hd => ?_⟩
    · rw [List.reverse_cons, Ascending, List.pairwise_append]
      refine ⟨hascending, List.pairwise_singleton _ _, fun d hd x hx => ?_⟩
      rw [List.mem_singleton.1 hx]
      exact hbelow _ rfl d (List.mem_reverse.1 hd)
    · have hle := hmade n hn
      rcases List.mem_cons.1 hd with rfl | hd
      · exact hle
      · have := hbelow _ rfl d hd
        omega

/-- Edits that can be applied stand one behind another, and applying them is splicing them. -/
theorem apply_all_ok {t u : Text} {fs : List Edit} (hw : Within t.length fs)
    (h : applyAll t fs = .ok u) : ∃ es, es.Perm fs ∧ Ascending es ∧ u = splice 0 t es := by
  have hperm : (fs.mergeSort later).reverse.Perm fs :=
    (List.reverse_perm _).trans (List.mergeSort_perm fs later)
  have hsorted : ∀ e ∈ fs.mergeSort later, e.span.start < e.span.stop :=
    fun e he => (hw e (List.mem_mergeSort.1 he)).1
  obtain ⟨hascending, _⟩ := apply_from_ascending hsorted h
  refine ⟨_, hperm, hascending, ?_⟩
  have hsplice := apply_all_splice hperm.symm hascending (within_perm hperm hw)
  rw [h, Except.ok.injEq] at hsplice
  exact hsplice

/-- Edits of a stretch from one position to another, each behind the one before it. -/
def Along : Nat → Nat → List Edit → Prop
  | i, j, [] => i ≤ j
  | i, j, e :: es => i ≤ e.span.start ∧ e.span.start < e.span.stop ∧ Along e.span.stop j es

theorem along_le {i j : Nat} {es : List Edit} (h : Along i j es) : i ≤ j := by
  induction es generalizing i with
  | nil => exact h
  | cons e es ih =>
    obtain ⟨h1, h2, h3⟩ := h
    have := ih h3
    omega

theorem along_weaken {i i' j : Nat} {es : List Edit} (h : Along i j es) (hi : i' ≤ i) :
    Along i' j es := by
  cases es with
  | nil => exact Nat.le_trans hi h
  | cons e es => exact ⟨Nat.le_trans hi h.1, h.2⟩

theorem along_extend {i j k : Nat} {es : List Edit} (h : Along i j es) (hk : j ≤ k) :
    Along i k es := by
  induction es generalizing i with
  | nil => exact Nat.le_trans h hk
  | cons e es ih => exact ⟨h.1, h.2.1, ih h.2.2⟩

theorem along_append {i j k : Nat} {es fs : List Edit} (h1 : Along i j es) (h2 : Along j k fs) :
    Along i k (es ++ fs) := by
  induction es generalizing i with
  | nil => exact along_weaken h2 h1
  | cons e es ih => exact ⟨h1.1, h1.2.1, ih h1.2.2⟩

theorem along_mem {i j : Nat} {es : List Edit} (h : Along i j es) {e : Edit} (he : e ∈ es) :
    i ≤ e.span.start ∧ e.span.start < e.span.stop ∧ e.span.stop ≤ j := by
  induction es generalizing i with
  | nil => simp at he
  | cons d es ih =>
    obtain ⟨h1, h2, h3⟩ := h
    rcases List.mem_cons.1 he with rfl | he
    · exact ⟨h1, h2, along_le h3⟩
    · obtain ⟨h4, h5⟩ := ih h3 he
      exact ⟨by omega, h5⟩

theorem along_behind {i j : Nat} {es : List Edit} (h : Along i j es) : Behind i es :=
  fun _ he => ⟨(along_mem h he).1, Nat.le_of_lt (along_mem h he).2.1⟩

theorem along_within {i j : Nat} {es : List Edit} (h : Along i j es) : Within j es :=
  fun _ he => (along_mem h he).2

theorem along_ascending {i j : Nat} {es : List Edit} (h : Along i j es) : Ascending es := by
  induction es generalizing i with
  | nil => exact List.Pairwise.nil
  | cons e es ih =>
    exact List.Pairwise.cons (fun d hd => (along_mem h.2.2 hd).1) (ih h.2.2)

theorem along_of_ascending {i j : Nat} {es : List Edit} (ha : Ascending es) (hij : i ≤ j)
    (h : ∀ e ∈ es, i ≤ e.span.start ∧ e.span.start < e.span.stop ∧ e.span.stop ≤ j) : Along i j es := by
  induction es generalizing i with
  | nil => exact hij
  | cons e es ih =>
    obtain ⟨hfirst, hrest⟩ := List.pairwise_cons.1 ha
    obtain ⟨h1, h2, h3⟩ := h e (by simp)
    refine ⟨h1, h2, ih hrest h3 fun d hd => ?_⟩
    obtain ⟨_, hd2, hd3⟩ := h d (by simp [hd])
    exact ⟨hfirst d hd, hd2, hd3⟩

theorem along_parts {i k : Nat} {es fs : List Edit} {e : Edit} (h : Along i k (es ++ e :: fs)) :
    Along i e.span.start es ∧ Along e.span.stop k fs := by
  induction es generalizing i with
  | nil => exact ⟨h.1, h.2.2⟩
  | cons d es ih => exact ⟨⟨h.1, h.2.1, (ih h.2.2).1⟩, (ih h.2.2).2⟩

/-! A splice along the parts of a text. -/

/-- The text in front of a span, the span, and the text behind it. -/
theorem cut_span {i : Nat} {t : Text} {e : Edit} (h1 : i ≤ e.span.start)
    (h2 : e.span.start ≤ e.span.stop) (h3 : e.span.stop ≤ i + t.length) :
    ∃ front mid back, t = front ++ (mid ++ back) ∧ i + front.length = e.span.start ∧
      e.span.start + mid.length = e.span.stop := by
  refine ⟨t.take (e.span.start - i), (t.drop (e.span.start - i)).take (e.span.stop - e.span.start),
    (t.drop (e.span.start - i)).drop (e.span.stop - e.span.start), ?_, ?_, ?_⟩
  · rw [List.take_append_drop, List.take_append_drop]
  · rw [List.length_take]
    omega
  · rw [List.length_take, List.length_drop]
    omega

theorem splice_cut {i : Nat} {front mid back : Text} {e : Edit} (es : List Edit)
    (hfront : i + front.length = e.span.start) (hmid : e.span.start + mid.length = e.span.stop) :
    splice i (front ++ (mid ++ back)) (e :: es) =
      front ++ (e.text ++ splice e.span.stop back es) := by
  have hstart : e.span.start - i = front.length := by omega
  have hstop : e.span.stop - i = (front ++ mid).length := by
    rw [List.length_append]
    omega
  rw [splice, hstart, hstop, List.take_left, ← List.append_assoc front mid back, List.drop_left,
    List.append_assoc]

theorem splice_keep (i : Nat) (u t : Text) {es : List Edit} (h : Behind (i + u.length) es) :
    splice i (u ++ t) es = u ++ splice (i + u.length) t es := by
  cases es with
  | nil => rfl
  | cons e es =>
    have he := h e (by simp)
    rw [splice, splice, List.take_append, List.drop_append, List.take_of_length_le (by omega),
      List.drop_of_length_le (by omega)]
    simp [Nat.sub_sub]

theorem splice_replace (i : Nat) (u r t : Text) (es : List Edit) :
    splice i (u ++ t) (⟨⟨i, i + u.length⟩, r⟩ :: es) = r ++ splice (i + u.length) t es := by
  simp [splice]

/-- Edits on the two sides of a position are made on the two parts of the text. -/
theorem splice_split {i : Nat} {u v : Text} {front back : List Edit}
    (hf : Along i (i + u.length) front) (hb : Behind (i + u.length) back) :
    splice i (u ++ v) (front ++ back) = splice i u front ++ splice (i + u.length) v back := by
  induction front generalizing i u with
  | nil => exact splice_keep i u v hb
  | cons e front ih =>
    obtain ⟨h1, h2, h3⟩ := hf
    have hle := along_le h3
    have hrest : e.span.stop + (u.drop (e.span.stop - i)).length = i + u.length := by
      rw [List.length_drop]
      omega
    rw [List.cons_append, splice, splice, List.take_append_of_le_length (by omega),
      List.drop_append_of_le_length (by omega), ih (by rwa [hrest]) (by rwa [hrest]), hrest]
    simp

/-- What edits make of a text, on the two sides of one of them. -/
theorem splice_parts {t : Text} {e : Edit} {front back : List Edit}
    (h : Along 0 t.length (front ++ e :: back)) :
    splice 0 t (front ++ e :: back) = splice 0 (t.take e.span.start) front ++
      (e.text ++ splice e.span.stop (t.drop e.span.stop) back) := by
  obtain ⟨hstart, hspan, hstop⟩ := along_mem h (List.mem_append_right front (List.mem_cons_self ..))
  obtain ⟨hfront, hback⟩ := along_parts h
  have hlength : 0 + (t.take e.span.start).length = e.span.start := by
    rw [List.length_take]
    omega
  conv_lhs => rw [← List.take_append_drop e.span.start t]
  rw [splice_split (by rwa [hlength])
    (by rw [hlength]; exact behind_cons (Nat.le_refl _) (Nat.le_of_lt hspan) (along_behind hback)),
    hlength, splice, Nat.sub_self, List.take_zero, List.nil_append, List.drop_drop,
    Nat.add_sub_cancel' (Nat.le_of_lt hspan)]

end Restage.Edit
