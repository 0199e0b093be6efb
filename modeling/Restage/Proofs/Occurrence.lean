import Mathlib
import Restage.Text.Basic

/-!
Where a word can occur in a text that is put together from parts: not across a character that it
lacks, and not at either end of a part that lacks its first or its last character. The same holds of
two words with blanks between them (`Spells`).
-/

set_option autoImplicit false

namespace Restage.Text

theorem infix_right_of_head {c : Char} {w u v : Text} (hc : c ∉ u)
    (h : (c :: w) <:+: u ++ v) : (c :: w) <:+: v := by
  induction u with
  | nil => exact h
  | cons d u ih =>
    rw [List.cons_append, List.infix_cons_iff] at h
    rcases h with h | h
    · have hd : c = d := (List.cons_prefix_cons.1 h).1
      exact absurd (hd ▸ List.mem_cons_self) hc
    · exact ih (fun hm => hc (List.mem_cons_of_mem d hm)) h

theorem infix_left_of_last {c : Char} {w u v : Text} (hc : c ∉ v)
    (h : (w ++ [c]) <:+: u ++ v) : (w ++ [c]) <:+: u := by
  have hr := List.reverse_infix.2 h
  rw [List.reverse_append, List.reverse_append, List.reverse_singleton, List.singleton_append]
    at hr
  have hu := infix_right_of_head (by simpa using hc) hr
  rw [← List.reverse_infix]
  simpa using hu

/-- A word that ends in a character it has only once, in a text cut at the first such character. -/
theorem infix_cut {c : Char} {w u v : Text} (hw : c ∉ w) (hu : c ∉ u)
    (h : (w ++ [c]) <:+: u ++ c :: v) : w <:+ u ∨ (w ++ [c]) <:+: v := by
  obtain ⟨s, t, h⟩ := h
  have he : (s ++ w) ++ c :: t = u ++ c :: v := by simpa using h
  rcases List.append_eq_append_iff.1 he with ⟨x, rfl, hx⟩ | ⟨x, hx, hv⟩
  · cases x with
    | nil => exact Or.inl ⟨s, by simp⟩
    | cons d x =>
      have hd : c = d := (List.cons.inj hx).1
      exact absurd (by simp [hd]) hu
  · cases x with
    | nil => exact Or.inl ⟨s, by simpa using hx⟩
    | cons d x =>
      obtain ⟨hd, hv⟩ := List.cons.inj hv
      rcases List.append_eq_append_iff.1 hx with ⟨y, _, hy⟩ | ⟨y, _, hy⟩
      · exact absurd (by simp [hy, hd]) hw
      · cases y with
        | nil => exact absurd (by rw [← show d :: x = w by simpa using hy]; simp [hd]) hw
        | cons e y =>
          have hy' : x = y ++ w := (List.cons.inj hy).2
          exact Or.inr ⟨y, t, by simp [hv, hy']⟩

theorem prefix_of_not_mem {c : Char} {u s t : Text} (hc : c ∉ u) (h : u <+: s ++ c :: t) :
    u <+: s := by
  obtain ⟨r, h⟩ := h
  rcases List.append_eq_append_iff.1 h with ⟨x, rfl, _⟩ | ⟨x, hx, hr⟩
  · exact ⟨x, rfl⟩
  · cases x with
    | nil => exact ⟨[], by simpa using hx⟩
    | cons d x =>
      have hd : c = d := (List.cons.inj hr).1
      exact absurd (by rw [hx]; simp [hd]) hc

/-- A word does not reach across a character that it lacks. -/
theorem infix_across {c : Char} {w u v : Text} (hc : c ∉ w) (h : w <:+: u ++ c :: v) :
    w <:+: u ∨ w <:+: v := by
  induction u with
  | nil =>
    rcases List.infix_cons_iff.1 h with h | h
    · cases w with
      | nil => exact Or.inl (List.infix_refl [])
      | cons d w => exact absurd (List.cons_prefix_cons.1 h).1 (fun hd => hc (by simp [hd]))
    · exact Or.inr h
  | cons d u ih =>
    rcases List.infix_cons_iff.1 h with h | h
    · exact Or.inl (prefix_of_not_mem hc h).isInfix
    · rcases ih h with h | h
      · exact Or.inl (h.trans (List.suffix_cons d u).isInfix)
      · exact Or.inr h

/-! Two words with blanks between them. -/

/-- A text with a word and, behind blanks, another. -/
def Spells (w v t : Text) : Prop :=
  ∃ gap, (∀ c ∈ gap, isBlank c = true) ∧ w ++ (gap ++ v) <:+: t

section

variable {w v u t : Text}

theorem spells_within (hut : u <:+: t) (h : Spells w v u) : Spells w v t := by
  obtain ⟨gap, hgap, hin⟩ := h
  exact ⟨gap, hgap, hin.trans hut⟩

theorem spells_word (h : Spells w v t) : w <:+: t := by
  obtain ⟨gap, _, hin⟩ := h
  exact (List.prefix_append w _).isInfix.trans hin

/-- The words do not reach across a character that they lack. -/
theorem spells_cut {x : Char} (hw : x ∉ w) (hv : x ∉ v) (hx : isBlank x = false)
    (h : Spells w v (u ++ x :: t)) : Spells w v u ∨ Spells w v t := by
  obtain ⟨gap, hgap, hin⟩ := h
  have hlacks : x ∉ w ++ (gap ++ v) := by
    rw [List.mem_append, List.mem_append, not_or, not_or]
    exact ⟨hw, fun hm => by simp [hgap x hm] at hx, hv⟩
  exact (infix_across hlacks hin).imp (fun h => ⟨gap, hgap, h⟩) fun h => ⟨gap, hgap, h⟩

theorem spells_behind {c : Char} (hu : c ∉ u) (h : Spells (c :: w) v (u ++ t)) :
    Spells (c :: w) v t := by
  obtain ⟨gap, hgap, hin⟩ := h
  exact ⟨gap, hgap, infix_right_of_head hu hin⟩

/-- The first word does not begin in a line without it. -/
theorem spells_line (hline : '\n' ∉ w) (hne : w ≠ []) (hu : ¬ w <:+: u)
    (h : Spells w v (u ++ '\n' :: t)) : Spells w v t := by
  obtain ⟨gap, hgap, p, q, hpq⟩ := h
  rw [List.append_assoc p, List.append_assoc w] at hpq
  rcases List.append_eq_append_iff.1 hpq with ⟨y, hy, hrest⟩ | ⟨y, hy, hrest⟩
  · have hpre := prefix_of_not_mem hline ⟨(gap ++ v) ++ q, hrest⟩
    refine absurd ?_ hu
    rw [hy]
    exact hpre.isInfix.trans (List.suffix_append p y).isInfix
  · cases y with
    | nil =>
      obtain ⟨c, w, rfl⟩ := List.exists_cons_of_ne_nil hne
      exact absurd (List.cons.inj hrest).1 fun hc => hline (List.mem_cons.2 (Or.inl hc))
    | cons d y =>
      obtain ⟨_, hrest⟩ := List.cons.inj hrest
      exact ⟨gap, hgap, y, q, by rw [List.append_assoc, List.append_assoc]; exact hrest.symm⟩

end

theorem find_absent {s t : Text} (h : ¬ s <:+: t) : find? s t = none := by
  have hne : s ≠ [] := by
    rintro rfl
    exact h (List.nil_infix)
  induction t with
  | nil => simp [find?, hne]
  | cons c t ih =>
    have hstart : startsWith (c :: t) s = false := by
      rw [startsWith, Option.isSome_eq_false_iff, Option.isNone_iff_eq_none, Option.eq_none_iff_forall_ne_some]
      intro r hr
      exact h ⟨[], r, (after?_eq_some.1 hr).symm⟩
    rw [find?, if_neg (by simp [hstart]), ih fun hin => h (hin.trans (List.suffix_cons c t).isInfix)]
    rfl

/-- Nothing is erased where the part does not occur. -/
theorem erase_absent {t part : Text} (h : ¬ part <:+: t) : erase t part = t := by
  rw [erase, find_absent h]

end Restage.Text
