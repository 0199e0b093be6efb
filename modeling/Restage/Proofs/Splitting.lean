import Restage.Proofs.Matching

/-!
Texts cut at characters of a class, and texts without the characters of a class at their ends.
`split_head` cuts off one part, `trim_between` names the part that trimming leaves.
-/

set_option autoImplicit false

namespace Restage.Text

theorem split_on_where (sep : Char) (t : Text) : splitOn sep t = splitWhere (· == sep) t := by
  induction t with
  | nil => rfl
  | cons c t ih =>
    rw [splitOn, splitWhere, ih]
    simp only [beq_iff_eq]

section

variable {p : Char → Bool} {u : Text} (hu : ∀ c ∈ u, p c = false)
include hu

theorem split_whole : splitWhere p u = [u] := by
  induction u with
  | nil => rfl
  | cons c u ih =>
    rw [splitWhere, if_neg (by simp [hu c]), ih fun d hd => hu d (by simp [hd])]

/-- The part before the first cut. -/
theorem split_head {c : Char} (hc : p c = true) (v : Text) :
    splitWhere p (u ++ c :: v) = u :: splitWhere p v := by
  induction u with
  | nil => rw [List.nil_append, splitWhere, if_pos hc]
  | cons d u ih =>
    rw [List.cons_append, splitWhere, if_neg (by simp [hu d]),
      ih fun e he => hu e (by simp [he])]

/-- A text without a cut in front changes the first part only. -/
theorem split_tail (v : Text) :
    ∃ w ws, splitWhere p v = w :: ws ∧ splitWhere p (u ++ v) = (u ++ w) :: ws := by
  have hsome : ∃ w ws, splitWhere p v = w :: ws := by
    cases v with
    | nil => exact ⟨[], [], rfl⟩
    | cons c v =>
      rw [splitWhere]
      split
      · exact ⟨[], _, rfl⟩
      · split
        · exact ⟨[c], [], rfl⟩
        · exact ⟨_, _, rfl⟩
  obtain ⟨w, ws, hw⟩ := hsome
  refine ⟨w, ws, hw, ?_⟩
  induction u with
  | nil => exact hw
  | cons d u ih =>
    rw [List.cons_append, splitWhere, if_neg (by simp [hu d]),
      ih fun e he => hu e (by simp [he])]
    rfl

end

theorem trim_infix (p : Char → Bool) (t : Text) : t.trim p <:+: t := by
  rw [trim]
  refine List.IsInfix.trans ?_ (List.dropWhile_suffix p).isInfix
  rw [← List.reverse_infix, List.reverse_reverse]
  exact (List.dropWhile_suffix p).isInfix

/-- What a trimming takes away stands at the ends. -/
theorem trim_parts (p : Char → Bool) (t : Text) : ∃ a b, t = a ++ (trim p t ++ b) ∧
    (∀ c ∈ a, p c = true) ∧ (∀ c ∈ b, p c = true) := by
  refine ⟨t.takeWhile p, ((t.dropWhile p).reverse.takeWhile p).reverse, ?_, ?_, ?_⟩
  · rw [trim, ← List.reverse_append, List.takeWhile_append_dropWhile, List.reverse_reverse,
      List.takeWhile_append_dropWhile]
  · exact fun c hc => List.all_eq_true.1 List.all_takeWhile c hc
  · exact fun c hc => List.all_eq_true.1 List.all_takeWhile c (List.mem_reverse.1 hc)

/-- Characters that are never taken away are still there. -/
theorem filter_trim {p q : Char → Bool} (hpq : ∀ c, p c = true → q c = false) (t : Text) :
    (trim p t).filter q = t.filter q := by
  obtain ⟨a, b, ht, ha, hb⟩ := trim_parts p t
  have hnone : ∀ u : Text, (∀ c ∈ u, p c = true) → u.filter q = [] := fun u hu =>
    List.filter_eq_nil_iff.2 fun c hc => by simp [hpq c (hu c hc)]
  have hfilter := congrArg (List.filter q) ht
  rw [List.filter_append, List.filter_append, hnone a ha, hnone b hb] at hfilter
  simpa using hfilter.symm

/-- A word of characters that are never taken away is still there. -/
theorem infix_trim {p : Char → Bool} {w t : Text} (hne : w ≠ []) (hw : ∀ c ∈ w, p c = false)
    (h : w <:+: t) : w <:+: trim p t := by
  obtain ⟨a, b, ht, ha, hb⟩ := trim_parts p t
  have hout : ∀ {u : Text}, (∀ c ∈ u, p c = true) → ∀ c ∈ w, c ∉ u := fun hu c hc hm => by
    have := hu c hm
    rw [hw c hc] at this
    exact Bool.noConfusion this
  rw [ht] at h
  obtain ⟨c, u, rfl⟩ := List.exists_cons_of_ne_nil hne
  have hright := infix_right_of_head (hout ha c (by simp)) h
  obtain ⟨v, d, hvd⟩ := List.eq_nil_or_concat (c :: u) |>.resolve_left (by simp)
  rw [hvd, List.concat_eq_append] at hright hout ⊢
  exact infix_left_of_last (hout hb d (by simp)) hright

theorem trim_between {p : Char → Bool} {a u b : Text} (ha : ∀ c ∈ a, p c = true)
    (hb : ∀ c ∈ b, p c = true) (hhead : u.head?.any (fun c => !p c) = true)
    (hlast : u.reverse.head?.any (fun c => !p c) = true) : trim p (a ++ (u ++ b)) = u := by
  have hall : ∀ {o : Option Char}, o.any (fun c => !p c) = true →
      o.all (fun c => !p c) = true := by
    intro o
    cases o <;> simp
  have hne : u ≠ [] := by
    rintro rfl
    simp at hhead
  have hhead' : (u ++ b).head?.all (fun c => !p c) = true := by
    obtain ⟨c, v, rfl⟩ := List.exists_cons_of_ne_nil hne
    exact hall hhead
  rw [trim, run_left ha hhead', List.reverse_append,
    run_left (fun c hc => hb c (List.mem_reverse.1 hc)) (hall hlast), List.reverse_reverse]

/-- A text whose characters all stay has ends that stay. -/
theorem ends_of_all {p : Char → Bool} {u : Text} (hne : u ≠ []) (hu : ∀ c ∈ u, p c = false) :
    u.head?.any (fun c => !p c) = true ∧ u.reverse.head?.any (fun c => !p c) = true := by
  have hends : ∀ v : Text, v ≠ [] → (∀ c ∈ v, p c = false) →
      v.head?.any (fun c => !p c) = true := by
    intro v hv hall
    obtain ⟨c, w, rfl⟩ := List.exists_cons_of_ne_nil hv
    simp [hall c]
  exact ⟨hends u hne hu,
    hends u.reverse (by simpa using hne) fun c hc => hu c (List.mem_reverse.1 hc)⟩

/-- Only the ends are trimmed. -/
theorem trim_of_ends {p : Char → Bool} {u : Text} (hhead : u.head?.any (fun c => !p c) = true)
    (hlast : u.reverse.head?.any (fun c => !p c) = true) : trim p u = u := by
  simpa using trim_between (a := []) (b := []) (by simp) (by simp) hhead hlast

/-! Parts and joins. -/

theorem split_parts {p : Char → Bool} {t u : Text} (h : u ∈ splitWhere p t) :
    ∀ c ∈ u, p c = false ∧ c ∈ t := by
  induction t generalizing u with
  | nil =>
    rw [splitWhere, List.mem_singleton] at h
    simp [h]
  | cons d t ih =>
    rw [splitWhere] at h
    split at h
    · rcases List.mem_cons.1 h with rfl | h
      · simp
      · exact fun c hc => ⟨(ih h c hc).1, List.mem_cons_of_mem _ (ih h c hc).2⟩
    · next hd =>
      obtain ⟨w, ws, hw, _⟩ := split_tail (p := p) (u := []) (by simp) t
      rw [hw] at h ih
      rcases List.mem_cons.1 h with rfl | h
      · intro c hc
        rcases List.mem_cons.1 hc with rfl | hc
        · exact ⟨by simpa using hd, by simp⟩
        · have := ih (u := w) (by simp) c hc
          exact ⟨this.1, List.mem_cons_of_mem _ this.2⟩
      · intro c hc
        have := ih (u := u) (by simp [h]) c hc
        exact ⟨this.1, List.mem_cons_of_mem _ this.2⟩

theorem split_on_parts {sep : Char} {t u : Text} (h : u ∈ splitOn sep t) :
    ∀ c ∈ u, c ≠ sep ∧ c ∈ t := by
  rw [split_on_where] at h
  exact fun c hc => ⟨by simpa using (split_parts h c hc).1, (split_parts h c hc).2⟩

theorem split_on_some (sep : Char) (t : Text) : splitOn sep t ≠ [] := by
  obtain ⟨w, ws, hw, _⟩ := split_tail (p := (· == sep)) (u := []) (by simp) t
  rw [split_on_where, hw]
  exact List.cons_ne_nil w ws

/-- Parts without the separator are found again in their join. -/
theorem split_on_join {sep : Char} {parts : List Text} (hsome : parts ≠ [])
    (h : ∀ u ∈ parts, ∀ c ∈ u, c ≠ sep) : splitOn sep (joinWith [sep] parts) = parts := by
  have hclear : ∀ u ∈ parts, ∀ c ∈ u, (c == sep) = false := fun u hu c hc => by
    simpa using h u hu c hc
  rw [split_on_where]
  induction parts with
  | nil => exact absurd rfl hsome
  | cons u us ih =>
    cases us with
    | nil => exact split_whole (hclear u (by simp))
    | cons w ws =>
      rw [joinWith, List.append_assoc, List.singleton_append,
        split_head (hclear u (by simp)) (by simp),
        ih (by simp) (fun v hv => h v (by simp [hv])) fun v hv => hclear v (by simp [hv])]

/-- Lines joined, with an end behind the last. -/
theorem join_lines {ls : List Text} (h : ls ≠ []) :
    joinWith ['\n'] ls ++ ['\n'] = ls.flatMap fun l => l ++ ['\n'] := by
  induction ls with
  | nil => exact absurd rfl h
  | cons l ls ih =>
    cases ls with
    | nil => simp [joinWith]
    | cons k ls =>
      rw [List.flatMap_cons, ← ih (by simp)]
      simp [joinWith]

theorem trim_end_plain {p : Char → Bool} {t : Text} (h : ∀ c ∈ t, p c = false) :
    trimEnd p t = t := by
  have hdrop : t.reverse.dropWhile p = t.reverse := by
    cases hr : t.reverse with
    | nil => rfl
    | cons c cs =>
      have hc : c ∈ t := by
        rw [← List.mem_reverse, hr]
        simp
      rw [List.dropWhile_cons_of_neg (by simp [h c hc])]
  rw [trimEnd, hdrop, List.reverse_reverse]

end Restage.Text
