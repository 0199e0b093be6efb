import Restage.Text.Lines
import Mathlib.Data.List.Chain

/-!
Where a text is cut into lines. Every line reads as one line again (`line_single`), and all but the
last end with a line end. Lines that end so keep apart when they are joined (`lines_joined`); one that
does not runs into the next (`lines_run_on`).
-/

set_option autoImplicit false

namespace Restage.Text

variable {c : Char} {l t u v : Text} {ls : List Text}

/-- A text that ends with the end of a line. -/
def closed (t : Text) : Bool := t.getLast?.any endsLine

theorem closed_cons (h : t ≠ []) : closed (c :: t) = closed t := by
  obtain ⟨d, ds, rfl⟩ := List.exists_cons_of_ne_nil h
  rw [closed, closed, List.getLast?_cons_cons]

/-- What stands in front of a text that ends a line does not matter. -/
theorem closed_behind (c : Char) (h : closed t = true) : closed (c :: t) = true := by
  have hsome : t ≠ [] := by
    rintro rfl
    exact Bool.false_ne_true h
  rw [closed_cons hsome, h]

theorem closed_append (h : u ≠ []) : closed (t ++ u) = closed u := by
  rw [closed, closed, List.getLast?_append, List.getLast?_eq_some_getLast h]
  rfl

theorem lines_first (c : Char) (t : Text) : ∃ l ls, lines (c :: t) = (c :: l) :: ls := by
  cases t with
  | nil => exact ⟨[], [], rfl⟩
  | cons d ds =>
    rw [lines]
    split
    · exact ⟨[], _, rfl⟩
    · cases lines (d :: ds) with
      | nil => exact ⟨[], [], rfl⟩
      | cons l ls => exact ⟨l, ls, rfl⟩

theorem lines_some (h : t ≠ []) : lines t ≠ [] := by
  obtain ⟨c, cs, rfl⟩ := List.exists_cons_of_ne_nil h
  obtain ⟨l, ls, hls⟩ := lines_first c cs
  simp [hls]

theorem lines_cons_open (hc : endsLine c = false) (t : Text) :
    lines (c :: t) = consLine c (lines t) := by
  cases t with
  | nil => rfl
  | cons d ds => rw [lines, if_neg (by simp [hc])]

/-! The lines of a text. -/

/-- A line is one line by itself. -/
theorem line_single (h : l ∈ lines t) : lines l = [l] := by
  fun_induction lines t generalizing l with
  | case1 => simp at h
  | case2 c => rw [List.mem_singleton.1 h]; rfl
  | case3 c d cs _ ih =>
    rcases List.mem_cons.1 h with rfl | h
    · rfl
    · exact ih h
  | case4 c d cs hgoes ih =>
    obtain ⟨m, ms, hms⟩ := lines_first d cs
    rw [hms] at h ih
    rcases List.mem_cons.1 h with rfl | h
    · rw [lines, if_neg hgoes, ih (l := d :: m) (by simp)]
      rfl
    · exact ih (by simp [h])

theorem line_some (h : l ∈ lines t) : l ≠ [] := by
  rintro rfl
  have := line_single h
  simp [lines] at this

/-- All lines but the last end with a line end. -/
theorem lines_closed (h : l ∈ (lines t).dropLast) : closed l = true := by
  fun_induction lines t generalizing l with
  | case1 => simp at h
  | case2 c => simp at h
  | case3 c d cs hends ih =>
    rw [List.dropLast_cons_of_ne_nil (lines_some (by simp))] at h
    rcases List.mem_cons.1 h with rfl | h
    · simp only [Bool.and_eq_true] at hends
      simpa [closed] using hends.1
    · exact ih h
  | case4 c d cs hgoes ih =>
    obtain ⟨m, ms, hms⟩ := lines_first d cs
    rw [hms] at h ih
    cases ms with
    | nil => simp [consLine] at h
    | cons k ms =>
      rw [consLine, List.dropLast_cons_of_ne_nil (by simp)] at h
      rw [List.dropLast_cons_of_ne_nil (by simp)] at ih
      rcases List.mem_cons.1 h with rfl | h
      · rw [closed_cons (by simp)]
        exact ih (by simp)
      · exact ih (by simp [h])

/-- The last line of a text ends as the text does. -/
theorem last_line_closed (h : lines t = ls ++ [l]) : closed l = closed t := by
  have hflat := flatten_lines t
  rw [h] at hflat
  simp only [List.flatten_append, List.flatten_cons, List.flatten_nil, List.append_nil] at hflat
  rw [← hflat, closed_append (line_some (t := t) (by simp [h]))]

/-- A line without a line end at its end has none at all. -/
theorem open_line (hsingle : lines l = [l]) (hopen : closed l = false) :
    ∀ c ∈ l, endsLine c = false := by
  induction l with
  | nil => simp
  | cons c l ih =>
    cases l with
    | nil => simpa [closed] using hopen
    | cons d l =>
      rw [lines] at hsingle
      rw [closed_cons (by simp)] at hopen
      obtain ⟨m, ms, hms⟩ := lines_first d l
      split at hsingle
      · simp [hms] at hsingle
      · next hgoes =>
        rw [hms, consLine] at hsingle
        simp only [List.cons.injEq, true_and] at hsingle
        have hrest := ih (by rw [hms, hsingle.1, hsingle.2]) hopen
        refine List.forall_mem_cons.2 ⟨?_, hrest⟩
        cases hends : endsLine c with
        | false => rfl
        | true =>
          have hfeed : d = '\n' := by simp_all
          exact absurd (hrest d (by simp)) (by rw [hfeed]; decide)

/-- A text in which no line after the first begins with a character. -/
theorem later_lines {x : Char} (h : t.IsChain fun c d => endsLine c = true → d ≠ x) :
    ∀ l ∈ (lines t).tail, l.head? ≠ some x := by
  fun_induction lines t with
  | case1 => simp
  | case2 c => simp
  | case3 c d cs hends ih =>
    rw [List.isChain_cons_cons] at h
    simp only [Bool.and_eq_true] at hends
    obtain ⟨m, ms, hms⟩ := lines_first d cs
    rw [hms] at ih ⊢
    rw [List.tail_cons]
    exact List.forall_mem_cons.2 ⟨by simpa using h.1 hends.1, ih h.2⟩
  | case4 c d cs _ ih =>
    rw [List.isChain_cons_cons] at h
    obtain ⟨m, ms, hms⟩ := lines_first d cs
    rw [hms] at ih ⊢
    exact ih h.2

/-! Lines of joined texts. -/

/-- Texts are cut apart where one ends a line, unless a line feed follows. -/
theorem lines_append (hu : closed u = true) (hv : v.head? ≠ some '\n') :
    lines (u ++ v) = lines u ++ lines v := by
  fun_induction lines u with
  | case1 => simp [closed] at hu
  | case2 c =>
    have hc : endsLine c = true := by simpa [closed] using hu
    cases v with
    | nil => rfl
    | cons d ds =>
      have hd : d ≠ '\n' := by simpa using hv
      rw [List.singleton_append, lines, if_pos (by simp [hc, hd])]
      rfl
  | case3 c d cs hends ih =>
    rw [closed_cons (by simp)] at hu
    have hrest := ih hu
    rw [List.cons_append] at hrest
    rw [List.cons_append, List.cons_append, lines, if_pos hends, hrest, List.cons_append]
  | case4 c d cs hgoes ih =>
    rw [closed_cons (by simp)] at hu
    have hrest := ih hu
    obtain ⟨m, ms, hms⟩ := lines_first d cs
    rw [hms, List.cons_append, List.cons_append] at hrest
    rw [List.cons_append, List.cons_append, lines, if_neg hgoes, hrest, hms]
    rfl

/-- A text without line ends runs into the first line of what follows. -/
theorem lines_run_on (hu : ∀ c ∈ u, endsLine c = false) (hv : lines v = l :: ls) :
    lines (u ++ v) = (u ++ l) :: ls := by
  induction u with
  | nil => exact hv
  | cons c u ih =>
    obtain ⟨hc, hu⟩ := List.forall_mem_cons.1 hu
    rw [List.cons_append, lines_cons_open hc, ih hu]
    rfl

/-- A text that is one line and does not begin with the line feed of another. -/
structure Row (l : Text) : Prop where
  single : lines l = [l]
  start : l.head? ≠ some '\n'

theorem head_flatten {x : Char} (hls : ∀ l ∈ ls, l.head? ≠ some x) (ht : t.head? ≠ some x) :
    (ls.flatten ++ t).head? ≠ some x := by
  induction ls with
  | nil => exact ht
  | cons l ls ih =>
    obtain ⟨hl, hlater⟩ := List.forall_mem_cons.1 hls
    cases l with
    | nil => exact ih hlater
    | cons c l => exact hl

/-- Lines that end with line ends keep apart. -/
theorem lines_rows (hls : ∀ l ∈ ls, Row l ∧ closed l = true) (hv : v.head? ≠ some '\n') :
    lines (ls.flatten ++ v) = ls ++ lines v := by
  induction ls with
  | nil => rfl
  | cons l ls ih =>
    obtain ⟨⟨hrow, hclosed⟩, hls⟩ := List.forall_mem_cons.1 hls
    rw [List.flatten_cons, List.append_assoc, lines_append hclosed
      (head_flatten (fun k hk => (hls k hk).1.start) hv), ih hls, hrow.single]
    rfl

/-- So do lines the last of which is left open. -/
theorem lines_joined (hrows : ∀ l ∈ ls, Row l) (hclosed : ∀ l ∈ ls.dropLast, closed l = true) :
    lines ls.flatten = ls := by
  rcases List.eq_nil_or_concat' ls with rfl | ⟨ks, k, rfl⟩
  · rfl
  · rw [List.dropLast_concat] at hclosed
    have hk := hrows k (by simp)
    rw [List.flatten_append, List.flatten_singleton, lines_rows
      (fun l hl => ⟨hrows l (by simp [hl]), hclosed l hl⟩) hk.start, hk.single]

end Restage.Text
