import Restage.Proofs.BraceLevels
import Restage.Proofs.SealedText
import Restage.Proofs.ShapeFileList
import Restage.Script.Cursor

/-!
The cursor and the point query. The literals of a script lie one behind the other (`literals_laid`), and
a position is code just if none of them covers it (`code_uncovered`). That is what the binary search
answers (`outside_iff`), and a scan with a cursor comes out at the same characters, wherever its stretch
begins and ends (`scan_code`).
-/

set_option autoImplicit false

namespace Restage.Script

/-- Spans between two positions, none of them empty, each behind those before it. -/
structure Laid (lo hi : Nat) (ss : List Span) : Prop where
  bounded : ∀ s ∈ ss, lo ≤ s.start ∧ s.start < s.stop ∧ s.stop ≤ hi
  apart : ss.Pairwise fun s r => s.stop ≤ r.start

/-- A position in one of the spans. -/
def Covered (ss : List Span) (i : Nat) : Prop := ∃ s ∈ ss, s.start ≤ i ∧ i < s.stop

/-! The literals of a script. -/

theorem lexemes_text {t : Text} {x : Lexeme} (h : x ∈ lexemes t) : x.text ≠ [] := by
  have hsettled : ∀ {st u}, x ∈ (settle (lexemesFrom st u)).1 → x.text ≠ [] := fun hx => by
    obtain ⟨y, hy, htext, _⟩ := settle_mem hx
    rw [htext]
    exact (lexeme_text hy).1
  unfold lexemes at h
  split at h
  · rcases List.mem_cons.1 h with rfl | h
    · exact List.cons_ne_nil _ _
    · exact hsettled h
  · exact hsettled h

theorem spans_laid {xs : List Lexeme} (h : ∀ x ∈ xs, x.text ≠ []) (i : Nat) :
    Laid i (i + (maskOf xs).length) (spansFrom i xs) := by
  induction xs generalizing i with
  | nil => exact ⟨by simp [spansFrom], by simp [spansFrom]⟩
  | cons x xs ih =>
    have hx : 0 < x.text.length := List.length_pos_iff.2 (h x (by simp))
    have hrest := ih (fun y hy => h y (by simp [hy])) (i + x.text.length)
    have hlength : (maskOf (x :: xs)).length = x.text.length + (maskOf xs).length := by
      rw [mask_cons, List.length_append, List.length_replicate]
    have hbounded : ∀ s ∈ spansFrom (i + x.text.length) xs,
        i + x.text.length ≤ s.start ∧ s.start < s.stop ∧ s.stop ≤ i + (maskOf (x :: xs)).length :=
      fun s hs => by
        have := hrest.bounded s hs
        omega
    rw [spansFrom]
    split
    · refine ⟨fun s hs => ?_, List.pairwise_cons.2 ⟨fun r hr => (hbounded r hr).1, hrest.apart⟩⟩
      rcases List.mem_cons.1 hs with rfl | hs
      · exact ⟨Nat.le_refl i, by simp only; omega, by simp only; omega⟩
      · have := hbounded s hs
        omega
    · refine ⟨fun s hs => ?_, hrest.apart⟩
      have := hbounded s hs
      omega

/-- The literals of a script are not empty, within the text, and one behind the other. -/
theorem literals_laid (t : Text) : Laid 0 t.length (literalSpans t) := by
  have hlaid := spans_laid (fun x (hx : x ∈ lexemes t) => lexemes_text hx) 0
  rwa [Nat.zero_add, ← codeMask, length_codeMask] at hlaid

theorem covered_cons {s : Span} {ss : List Span} {i : Nat} :
    Covered (s :: ss) i ↔ s.start ≤ i ∧ i < s.stop ∨ Covered ss i := by
  simp [Covered]

theorem mask_covered {xs : List Lexeme} (h : ∀ x ∈ xs, x.text ≠ []) (i k : Nat) :
    (maskOf xs).getD k true = false ↔ Covered (spansFrom i xs) (i + k) := by
  induction xs generalizing i k with
  | nil => simp [maskOf, spansFrom, Covered]
  | cons x xs ih =>
    have hne : ∀ y ∈ xs, y.text ≠ [] := fun y hy => h y (by simp [hy])
    rw [mask_cons, List.getD_eq_getElem?_getD, spansFrom]
    rcases Nat.lt_or_ge k x.text.length with hk | hk
    · have hlater : ¬ Covered (spansFrom (i + x.text.length) xs) (i + k) := by
        rintro ⟨s, hs, hstart, _⟩
        have := (spans_laid hne (i + x.text.length)).bounded s hs
        omega
      rw [List.getElem?_append_left (by simpa using hk), List.getElem?_replicate_of_lt hk]
      cases x.kind.isLiteral <;> simp [covered_cons, hlater, hk]
    · have hshift : i + k = i + x.text.length + (k - x.text.length) := by omega
      have hrest := ih hne (i + x.text.length) (k - x.text.length)
      rw [List.getD_eq_getElem?_getD, ← hshift] at hrest
      rw [List.getElem?_append_right (by simpa using hk), List.length_replicate, hrest]
      have hover : ¬ k < x.text.length := by omega
      cases x.kind.isLiteral <;> simp [covered_cons, hover]

/-- A position is code if no literal covers it. -/
theorem code_uncovered (t : Text) (i : Nat) : isCode t i = true ↔ ¬ Covered (literalSpans t) i := by
  have hmask := mask_covered (fun x (hx : x ∈ lexemes t) => lexemes_text hx) 0 i
  rw [Nat.zero_add] at hmask
  rw [literalSpans, ← hmask, isCode, codeMask, Bool.not_eq_false]

/-! The binary search. -/

section

variable {lo hi i : Nat} {ss : List Span}

/-- The search keeps a bound below which all numbers are at most `x`, and one from which none is. -/
theorem bisect_from_spec {xs : Array Nat} {x a b : Nat}
    (hsorted : ∀ j k, j ≤ k → k < xs.size → xs.getD j 0 ≤ xs.getD k 0) (hab : a ≤ b) (hb : b ≤ xs.size)
    (hbelow : ∀ j < a, xs.getD j 0 ≤ x) (habove : ∀ j, b ≤ j → j < xs.size → x < xs.getD j 0) :
    bisectFrom xs x a b ≤ xs.size ∧ (∀ j < bisectFrom xs x a b, xs.getD j 0 ≤ x) ∧
      ∀ j, bisectFrom xs x a b ≤ j → j < xs.size → x < xs.getD j 0 := by
  fun_induction bisectFrom xs x a b with
  | case1 a b hlt hx ih =>
    refine ih (by omega) (by omega) hbelow fun j hj hsize => ?_
    exact Nat.lt_of_lt_of_le hx (hsorted _ j hj hsize)
  | case2 a b hlt hx ih =>
    refine ih (by omega) hb (fun j hj => ?_) habove
    exact Nat.le_trans (hsorted j _ (by omega) (by omega)) (Nat.le_of_not_lt hx)
  | case3 a b hlt =>
    exact ⟨by omega, hbelow, fun j hj => habove j (by omega)⟩

theorem laid_starts (h : Laid lo hi ss) {j k : Nat} (hjk : j ≤ k) (hk : k < ss.length) :
    ss[j].start ≤ ss[k].start := by
  rcases Nat.eq_or_lt_of_le hjk with rfl | hlt
  · exact Nat.le_refl _
  · have hnext := List.pairwise_iff_getElem.1 h.apart j k (by omega) hk hlt
    have := h.bounded ss[j] (List.getElem_mem _)
    omega

/-- The spans that begin at a position or before it are so many of the first. -/
theorem begun_by_iff (h : Laid lo hi ss) (i : Nat) : begunBy ss i ≤ ss.length ∧
    ∀ j (hj : j < ss.length), j < begunBy ss i ↔ ss[j].start ≤ i := by
  have hget : ∀ j (hj : j < ss.length), (ss.map (·.start)).toArray.getD j 0 = ss[j].start :=
    fun j hj => by simp [hj]
  have hsize : (ss.map (·.start)).toArray.size = ss.length := by simp
  obtain ⟨hle, hbelow, habove⟩ := bisect_from_spec (x := i)
    (a := 0) (b := ss.length) (fun j k hjk (hk : k < (ss.map (·.start)).toArray.size) => by
      rw [hsize] at hk
      rw [hget j (by omega), hget k hk]
      exact laid_starts h hjk hk)
    (Nat.zero_le _) (Nat.le_of_eq hsize.symm) (by omega) (by omega)
  rw [← begunBy, hsize] at hle
  refine ⟨hle, fun j hj => ⟨fun hlt => ?_, fun hstart => ?_⟩⟩
  · rw [← hget j hj]
    exact hbelow j hlt
  · by_contra hnot
    have := habove j (by rw [← begunBy]; omega) (by omega)
    rw [hget j hj] at this
    omega

/-- The point query: a position is outside if no span covers it. -/
theorem outside_iff (h : Laid lo hi ss) (i : Nat) : outside ss i = true ↔ ¬ Covered ss i := by
  obtain ⟨hle, hbegun⟩ := begun_by_iff h i
  unfold outside
  split
  · next hzero =>
    refine iff_of_true rfl ?_
    rintro ⟨s, hs, hstart, _⟩
    obtain ⟨j, hj, rfl⟩ := List.getElem_of_mem hs
    have := (hbegun j hj).2 hstart
    omega
  · next n hn =>
    have hlast : n < ss.length := by omega
    have hstart := (hbegun n hlast).1 (by omega)
    rw [List.getElem?_eq_getElem hlast, Option.all_some, decide_eq_true_eq]
    constructor
    · rintro hover ⟨s, hs, hs', hstop⟩
      obtain ⟨j, hj, rfl⟩ := List.getElem_of_mem hs
      have hjn := (hbegun j hj).2 hs'
      rcases Nat.eq_or_lt_of_le (show j ≤ n by omega) with rfl | hlt
      · omega
      · have := List.pairwise_iff_getElem.1 h.apart j n hj hlast hlt
        omega
    · intro hnone
      by_contra hstop
      exact hnone ⟨ss[n], List.getElem_mem _, hstart, by omega⟩

/-- From the last span begun by a position on, the spans cover what all of them cover there. -/
theorem seeded_covered (h : Laid lo hi ss) {k : Nat} (hk : i ≤ k) :
    Covered (ss.drop (begunBy ss i - 1)) k ↔ Covered ss k := by
  obtain ⟨hle, hbegun⟩ := begun_by_iff h i
  refine ⟨fun ⟨s, hs, hin⟩ => ⟨s, List.mem_of_mem_drop hs, hin⟩, fun ⟨s, hs, hin⟩ => ?_⟩
  obtain ⟨j, hj, rfl⟩ := List.getElem_of_mem hs
  have hlate : begunBy ss i - 1 ≤ j := by
    by_contra hearly
    have hnext := List.pairwise_iff_getElem.1 h.apart j (begunBy ss i - 1) hj (by omega) (by omega)
    have := (hbegun (begunBy ss i - 1) (by omega)).1 (by omega)
    omega
  refine ⟨ss[j], ?_, hin⟩
  rw [List.mem_drop_iff_getElem]
  exact ⟨j - (begunBy ss i - 1), by omega, by simp [hlate]⟩

theorem laid_sublist {rs : List Span} (h : Laid lo hi ss) (hsub : rs.Sublist ss) : Laid lo hi rs :=
  ⟨fun s hs => h.bounded s (hsub.subset hs), h.apart.sublist hsub⟩

theorem pending_covered {k : Nat} (hk : i ≤ k) : Covered (pending i ss) k ↔ Covered ss k := by
  induction ss with
  | nil => rfl
  | cons s ss ih =>
    rw [pending, List.dropWhile_cons]
    split
    · next hover =>
      have hover : s.stop ≤ i := by simpa using hover
      have hmiss : ¬ (s.start ≤ k ∧ k < s.stop) := by omega
      rw [← pending, ih, covered_cons, or_iff_right hmiss]
    · rfl

end

/-! The scan. -/

section

variable {t : Text} {i stop : Nat}

theorem code_in_end (h : t.length ≤ i ∨ stop ≤ i) : codeIn t i stop = [] := by
  rw [codeIn, codeWithin, List.filter_eq_nil_iff]
  intro m hm
  obtain ⟨n, hn, rfl⟩ := List.getElem_of_mem hm
  have hindex := marked_index hn
  rw [length_marked] at hn
  simp only [Bool.and_eq_true, decide_eq_true_eq]
  omega

/-- The code of a stretch is its first character, if that is code, and the code behind it. -/
theorem code_in_step (hi : i < t.length) (hstop : i < stop) : codeIn t i stop =
    if isCode t i then ⟨i, t[i], true⟩ :: codeIn t (i + 1) stop else codeIn t (i + 1) stop := by
  have htail : codeWithin ((marked t).drop (i + 1)) i stop = codeIn t (i + 1) stop := by
    rw [code_in_drop]
    refine List.filter_congr fun m hm => ?_
    obtain ⟨n, hn, rfl⟩ := List.getElem_of_mem hm
    rw [List.length_drop] at hn
    rw [List.getElem_drop]
    have := marked_index (t := t) (n := i + 1 + n) (by omega)
    congr 2
    exact decide_eq_decide.2 (by omega)
  rw [code_in_drop, drop_marked_cons hi, codeWithin, List.filter_cons, ← codeWithin, htail]
  cases hcode : isCode t i <;> simp [hstop]

/-- A covered stretch has no code. -/
theorem code_in_skip {j : Nat} (hij : i ≤ j) (h : ∀ k, i ≤ k → k < j → isCode t k = false) :
    codeIn t i stop = codeIn t j stop := by
  induction hij with
  | refl => rfl
  | @step j hij ih =>
    rw [ih fun k hk hkj => h k hk (by omega)]
    by_cases hend : t.length ≤ j ∨ stop ≤ j
    · rw [code_in_end hend, code_in_end (by omega)]
    · rw [code_in_step (by omega) (by omega), if_neg (by simp [h j hij (by omega)])]

theorem drop_cons {c : Char} {cs : Text} (h : c :: cs = t.drop i) :
    ∃ hi : i < t.length, t[i] = c ∧ t.drop (i + 1) = cs := by
  have hi : i < t.length := by
    by_contra hend
    rw [List.drop_of_length_le (by omega)] at h
    exact List.cons_ne_nil _ _ h
  rw [List.drop_eq_getElem_cons hi, List.cons.injEq] at h
  exact ⟨hi, h.1.symm, h.2.symm⟩

/-- The cursor comes out at the code of what is left of a stretch, as long as the spans that are
still to come cover just what is no code there. -/
theorem scan_code_from {lo hi : Nat} {ss : List Span} {u : Text} (hlaid : Laid lo hi ss)
    (hu : u = t.drop i) (hcover : ∀ k, i ≤ k → (isCode t k = true ↔ ¬ Covered ss k)) :
    scanCodeFrom stop ss i u = (codeIn t i stop).map fun m => (m.index, m.char) := by
  fun_induction scanCodeFrom stop ss i u with
  | case1 ss i =>
    have hend : t.length ≤ i := List.drop_eq_nil_iff.1 hu.symm
    rw [code_in_end (Or.inl hend)]
    rfl
  | case2 ss i c cs hstop =>
    rw [code_in_end (Or.inr hstop)]
    rfl
  | case3 ss i c cs hstop hnone ih =>
    have hclear : ∀ k, i ≤ k → (isCode t k = true ↔ ¬ Covered [] k) := fun k hk => by
      rw [hcover k hk, ← pending_covered hk, hnone]
    obtain ⟨hi, rfl, hrest⟩ := drop_cons hu
    have hcode : isCode t i = true := (hclear i (Nat.le_refl i)).2 (by simp [Covered])
    rw [code_in_step hi (by omega), if_pos hcode, List.map_cons]
    rw [ih (laid_sublist hlaid (List.nil_sublist ss)) hrest.symm fun k hk => hclear k (by omega)]
  | case4 ss i c cs hstop s rest hpending hstart ih =>
    have hnext : ∀ k, i ≤ k → (isCode t k = true ↔ ¬ Covered (s :: rest) k) := fun k hk => by
      rw [hcover k hk, ← pending_covered hk, hpending]
    have hover := pending_head hpending
    have hskip : codeIn t i stop = codeIn t s.stop stop := by
      refine code_in_skip (Nat.le_of_lt hover) fun k hk hks => ?_
      rw [← Bool.not_eq_true, hnext k hk, not_not]
      exact ⟨s, List.mem_cons_self, by omega, hks⟩
    have hrest : (c :: cs).drop (s.stop - i) = t.drop s.stop := by
      rw [hu, List.drop_drop, Nat.add_sub_cancel' (Nat.le_of_lt hover)]
    rw [hskip]
    refine ih (laid_sublist hlaid ?_) hrest fun k hk => hnext k (by omega)
    rw [← hpending]
    exact List.dropWhile_sublist _
  | case5 ss i c cs hstop s rest hpending hstart ih =>
    have hlaid' : Laid lo hi (s :: rest) := by
      refine laid_sublist hlaid ?_
      rw [← hpending]
      exact List.dropWhile_sublist _
    have hnext : ∀ k, i ≤ k → (isCode t k = true ↔ ¬ Covered (s :: rest) k) := fun k hk => by
      rw [hcover k hk, ← pending_covered hk, hpending]
    -- the spans behind the first one begin behind it, and so behind the position
    have hclear : ¬ Covered (s :: rest) i := by
      rintro ⟨r, hr, hr', _⟩
      rcases List.mem_cons.1 hr with rfl | hr
      · exact hstart hr'
      · have := (List.pairwise_cons.1 hlaid'.apart).1 r hr
        have := pending_head hpending
        omega
    obtain ⟨hi, rfl, hrest⟩ := drop_cons hu
    rw [code_in_step hi (by omega), if_pos ((hnext i (Nat.le_refl i)).2 hclear), List.map_cons]
    rw [ih hlaid' hrest.symm fun k hk => hnext k (by omega)]

/-- A scan yields the code of its stretch. -/
theorem scan_code (t : Text) (start : Nat) (stop : Option Int) :
    scanCode t start stop = (codeIn t start (stopWithin t stop)).map fun m => (m.index, m.char) := by
  have hlaid := literals_laid t
  refine scan_code_from (laid_sublist hlaid (List.drop_sublist _ _)) rfl fun k hk => ?_
  rw [seeded_covered hlaid hk, code_uncovered]

theorem mem_marked {m : Marked} :
    m ∈ marked t ↔ t[m.index]? = some m.char ∧ isCode t m.index = m.code := by
  constructor
  · intro hm
    obtain ⟨n, hn, rfl⟩ := List.getElem_of_mem hm
    have hlength : n < t.length := by rwa [length_marked] at hn
    have hget := marked_get hlength
    rw [List.getElem?_eq_getElem hn, Option.some.injEq] at hget
    rw [hget]
    exact ⟨List.getElem?_eq_getElem hlength, rfl⟩
  · rintro ⟨hchar, hcode⟩
    obtain ⟨hlength, hchar⟩ := List.getElem?_eq_some_iff.1 hchar
    refine List.mem_of_getElem? (i := m.index) ?_
    rw [marked_get hlength, hchar, hcode]

theorem code_in_iff {k : Nat} {c : Char} :
    (k, c) ∈ (codeIn t i stop).map (fun m => (m.index, m.char)) ↔
      i ≤ k ∧ k < stop ∧ t[k]? = some c ∧ isCode t k = true := by
  simp only [codeIn, codeWithin, List.mem_map, List.mem_filter, Bool.and_eq_true, decide_eq_true_eq,
    Prod.mk.injEq]
  constructor
  · rintro ⟨m, ⟨hm, ⟨hcode, hstart⟩, hstop⟩, rfl, rfl⟩
    obtain ⟨hchar, hmark⟩ := mem_marked.1 hm
    exact ⟨hstart, hstop, hchar, hmark.trans hcode⟩
  · rintro ⟨hstart, hstop, hchar, hcode⟩
    exact ⟨⟨k, c, true⟩, ⟨mem_marked.2 ⟨hchar, hcode⟩, ⟨rfl, hstart⟩, hstop⟩, rfl, rfl⟩

theorem code_in_ascending (t : Text) (i stop : Nat) :
    ((codeIn t i stop).map fun m => (m.index, m.char)).Pairwise fun p q => p.1 < q.1 := by
  rw [List.pairwise_map]
  refine List.Pairwise.sublist List.filter_sublist (List.pairwise_iff_getElem.2 ?_)
  intro j k hj hk hjk
  rw [marked_index hj, marked_index hk]
  exact hjk

theorem stop_within_iff {k : Nat} {stop : Option Int} (hk : k < t.length) :
    k < stopWithin t stop ↔ ∀ e ∈ stop, (k : Int) < e := by
  cases stop with
  | none => simpa [stopWithin] using hk
  | some e =>
    simp only [stopWithin, Option.mem_some_iff, forall_eq']
    omega

/-- Both parts of a template and the string in its substitution, the last two side by side. -/
example : literalSpans "\x60a$\x7bb + 'c'\x7dd\x60".toList = [⟨0, 4⟩, ⟨8, 11⟩, ⟨11, 14⟩] := by
  decide +kernel

end

end Restage.Script
