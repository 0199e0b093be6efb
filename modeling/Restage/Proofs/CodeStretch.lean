import Restage.Proofs.Matching
import Restage.Script.Bracket

/-!
Stretches of a script that are code throughout. On such a stretch the reading of braces depends on
its characters alone: `closeFrom` goes along text without braces, and a position is at the top
level when the braces before it balance (`mem_top_level`).
-/

set_option autoImplicit false

namespace Restage

theorem Text.window_middle (pre mid post : Text) :
    (pre ++ (mid ++ post)).window pre.length (pre.length + mid.length) =
      ⟨Text.endOf none pre, pre.length, mid⟩ := by
  unfold Text.window
  congr 1
  · cases pre using List.reverseRecOn with
    | nil => rfl
    | append_singleton pre c => simp
  · rw [← List.append_assoc, ← List.length_append, List.take_left, List.drop_left]

namespace Script

/-- The marks of a stretch of code. -/
def codeMarks (i : Nat) (u : Text) : List Marked := markedFrom i u (List.replicate u.length true)

@[simp] theorem code_marks_nil (i : Nat) : codeMarks i [] = [] := rfl

@[simp] theorem code_marks_cons (i : Nat) (c : Char) (u : Text) :
    codeMarks i (c :: u) = ⟨i, c, true⟩ :: codeMarks (i + 1) u := rfl

theorem code_marks_append (i : Nat) (u v : Text) :
    codeMarks i (u ++ v) = codeMarks i u ++ codeMarks (i + u.length) v := by
  induction u generalizing i with
  | nil => simp
  | cons c u ih => simp [ih, Nat.add_assoc, Nat.add_comm 1]

@[simp] theorem length_code_marks (i : Nat) (u : Text) : (codeMarks i u).length = u.length := by
  induction u generalizing i with
  | nil => rfl
  | cons c u ih => simp [ih]

theorem code_marks_code {i : Nat} {u : Text} {m : Marked} (h : m ∈ codeMarks i u) :
    m.code = true ∧ i ≤ m.index ∧ m.index < i + u.length := by
  induction u generalizing i with
  | nil => simp at h
  | cons c u ih =>
    rcases List.mem_cons.1 h with rfl | h
    · simp
    · obtain ⟨h1, h2, h3⟩ := ih h
      exact ⟨h1, by omega, by simp; omega⟩

/-! Stretches of the marks of a text. -/

theorem marked_from_append {i : Nat} {u v : Text} {bs cs : List Bool} (h : bs.length = u.length) :
    markedFrom i (u ++ v) (bs ++ cs) = markedFrom i u bs ++ markedFrom (i + u.length) v cs := by
  induction u generalizing i bs with
  | nil => simp [List.length_eq_zero_iff.1 h, markedFrom]
  | cons c u ih =>
    cases bs with
    | nil => simp at h
    | cons b bs =>
      simp [markedFrom, ih (by simpa using h), Nat.add_assoc, Nat.add_comm 1]

theorem length_marked_from {i : Nat} {u : Text} {bs : List Bool} (h : bs.length = u.length) :
    (markedFrom i u bs).length = u.length := by
  induction u generalizing i bs with
  | nil => rfl
  | cons c u ih =>
    cases bs with
    | nil => simp at h
    | cons b bs => simp [markedFrom, ih (by simpa using h)]

theorem marked_from_index {i : Nat} {u : Text} {bs : List Bool} {m : Marked}
    (h : m ∈ markedFrom i u bs) : i ≤ m.index ∧ m.index < i + u.length := by
  induction u generalizing i bs with
  | nil => simp [markedFrom] at h
  | cons c u ih =>
    cases bs with
    | nil => simp [markedFrom] at h
    | cons b bs =>
      rcases List.mem_cons.1 h with rfl | h
      · simp
      · obtain ⟨h1, h2⟩ := ih h
        exact ⟨by omega, by simp; omega⟩

/-- A stretch of a text whose characters are all code. -/
def CodeAt (t : Text) (i : Nat) (u : Text) : Prop :=
  ∃ pre post bs cs, t = pre ++ (u ++ post) ∧ i = pre.length ∧ bs.length = pre.length ∧
    cs.length = post.length ∧ codeMask t = bs ++ (List.replicate u.length true ++ cs)

theorem code_at_marked {t u : Text} {i : Nat} (h : CodeAt t i u) :
    ∃ before rest, marked t = before ++ (codeMarks i u ++ rest) ∧ before.length = i ∧
      (∀ m ∈ before, m.index < i) ∧ ∀ m ∈ rest, i + u.length ≤ m.index := by
  obtain ⟨pre, post, bs, cs, rfl, rfl, hb, hc, hm⟩ := h
  refine ⟨markedFrom 0 pre bs, markedFrom (pre.length + u.length) post cs, ?_,
    length_marked_from hb, fun m hmem => by simpa using (marked_from_index hmem).2,
    fun m hmem => (marked_from_index hmem).1⟩
  rw [marked, hm, marked_from_append hb, marked_from_append (by simp), Nat.zero_add]
  rfl

theorem code_at_part {t a b c : Text} {i : Nat} (h : CodeAt t i (a ++ (b ++ c))) :
    CodeAt t (i + a.length) b := by
  obtain ⟨pre, post, bs, cs, rfl, rfl, hb, hc, hm⟩ := h
  refine ⟨pre ++ a, c ++ post, bs ++ List.replicate a.length true,
    List.replicate c.length true ++ cs, by simp, by simp, by simp [hb], by simp [hc], ?_⟩
  rw [hm]
  simp [← List.replicate_append_replicate]

theorem code_at_all {t : Text} (h : codeMask t = List.replicate t.length true) : CodeAt t 0 t :=
  ⟨[], [], [], [], by simp, rfl, rfl, rfl, by simp [h]⟩

theorem code_within_stretch {t u : Text} {i : Nat} (h : CodeAt t i u) :
    codeWithin (marked t) i (i + u.length) = codeMarks i u := by
  obtain ⟨before, rest, hm, _, hb, hr⟩ := code_at_marked h
  have h1 : before.filter (fun m => m.code && i ≤ m.index && m.index < i + u.length) = [] := by
    rw [List.filter_eq_nil_iff]
    intro m hmem
    have := hb m hmem
    simp only [Bool.and_eq_true, decide_eq_true_eq]
    omega
  have h2 : rest.filter (fun m => m.code && i ≤ m.index && m.index < i + u.length) = [] := by
    rw [List.filter_eq_nil_iff]
    intro m hmem
    have := hr m hmem
    simp only [Bool.and_eq_true, decide_eq_true_eq]
    omega
  have h3 : (codeMarks i u).filter (fun m => m.code && i ≤ m.index && m.index < i + u.length) =
      codeMarks i u := by
    rw [List.filter_eq_self]
    intro m hmem
    obtain ⟨hc, hlo, hhi⟩ := code_marks_code hmem
    simp [hc, hlo, hhi]
  rw [codeWithin, hm, List.filter_append, List.filter_append, h1, h2, h3]
  simp

theorem drop_marked {t u : Text} {i : Nat} (h : CodeAt t i u) :
    ∃ rest, (marked t).drop i = codeMarks i u ++ rest := by
  obtain ⟨before, rest, hm, hi, _, _⟩ := code_at_marked h
  exact ⟨rest, by rw [hm, ← hi, List.drop_left]⟩

/-! Braces along a stretch. -/

theorem close_skip {u : Text} (ho : '{' ∉ u) (hc : '}' ∉ u) (d i : Nat) (ms : List Marked) :
    closeFrom d (codeMarks i u ++ ms) = closeFrom d ms := by
  induction u generalizing i with
  | nil => rfl
  | cons c u ih =>
    have h1 : c ≠ '{' := fun h => ho (by simp [h])
    have h2 : c ≠ '}' := fun h => hc (by simp [h])
    simp [closeFrom, h1, h2, ih (fun h => ho (by simp [h])) (fun h => hc (by simp [h]))]

/-- How many more braces a text opens than it closes. -/
def net : Text → Int
  | [] => 0
  | c :: cs => (if c = '{' then 1 else if c = '}' then -1 else 0) + net cs

theorem net_append (u v : Text) : net (u ++ v) = net u + net v := by
  induction u with
  | nil => simp [net]
  | cons c u ih => simp [net, ih, Int.add_assoc]

theorem net_plain {u : Text} (ho : '{' ∉ u) (hc : '}' ∉ u) : net u = 0 := by
  induction u with
  | nil => rfl
  | cons c u ih =>
    have h1 : c ≠ '{' := fun h => ho (by simp [h])
    have h2 : c ≠ '}' := fun h => hc (by simp [h])
    simp [net, h1, h2, ih (fun h => ho (by simp [h])) (fun h => hc (by simp [h]))]

theorem top_level_bound {d : Int} {i j : Nat} {u : Text} (h : j ∈ topLevelFrom d (codeMarks i u)) :
    i ≤ j := by
  induction u generalizing d i with
  | nil => simp [topLevelFrom] at h
  | cons c u ih =>
    simp only [code_marks_cons, topLevelFrom] at h
    split_ifs at h
    · have := ih h; omega
    · have := ih h; omega
    · rcases List.mem_cons.1 h with rfl | h
      · exact Nat.le_refl _
      · have := ih h; omega
    · have := ih h; omega

/-- A position is at the top level when the braces before it balance. -/
theorem mem_top_level {d : Int} {c : Char} (hc : c ≠ '{' ∧ c ≠ '}') (i : Nat) (u v : Text) :
    i + u.length ∈ topLevelFrom d (codeMarks i (u ++ c :: v)) ↔ d + net u = 0 := by
  induction u generalizing d i with
  | nil =>
    simp only [List.nil_append, code_marks_cons, topLevelFrom, hc.1, hc.2, if_false, net,
      List.length_nil, Nat.add_zero, Int.add_zero]
    split_ifs with hd
    · simp [hd]
    · exact iff_of_false (fun h => by have := top_level_bound h; omega) hd
  | cons e u ih =>
    have hlen : i + (e :: u).length = i + 1 + u.length := by simp; omega
    rw [hlen, List.cons_append, code_marks_cons, topLevelFrom, net]
    simp only
    split_ifs
    · rw [ih]; omega
    · rw [ih]; omega
    · rw [List.mem_cons, ih]
      constructor
      · rintro (h | h) <;> omega
      · intro h
        exact Or.inr (by omega)
    · rw [ih]; omega

theorem search_top_level (ms : List Marked) (p : Pattern) (t : Text) (start stop : Nat) :
    searchTopLevelIn ms p t start stop = (p.hits (t.window start stop)).find? fun h =>
      (topLevelFrom 0 (codeWithin ms start stop)).contains h.start := by
  rw [searchTopLevelIn]
  cases p.hits (t.window start stop) <;> rfl

end Script
end Restage
