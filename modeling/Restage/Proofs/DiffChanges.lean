import Restage.Diff.Unified
import Restage.Proofs.DiffBlocks
import Restage.Proofs.LineCuts

/-!
The hunks of a diff. The changes of two lists go on from one another and reach both ends; the hunks
are made of them and leave out only stretches that are alike (`hunks_cut`). A line that does not end,
the last of a text, stands in the last change of the last hunk if in any (`hunks_end`).
-/

set_option autoImplicit false

namespace Restage.Diff

variable {xs ys : List Text} {i j k n m a b : Nat} {c : Change} {cs : List Change}

/-! Changes. -/

/-- A change that stands in both lists and is what its tag says. -/
structure Fits (xs ys : List Text) (c : Change) : Prop where
  left : c.left.start ≤ c.left.stop ∧ c.left.stop ≤ xs.length
  right : c.right.start ≤ c.right.stop ∧ c.right.stop ≤ ys.length
  equal : c.tag = .equal → ∃ n, c.left.stop = c.left.start + n ∧
    c.right.stop = c.right.start + n ∧ Alike xs ys c.left.start c.right.start n
  delete : c.tag = .delete → c.right.start = c.right.stop
  insert : c.tag = .insert → c.left.start = c.left.stop
  replace : c.tag = .replace → c.left.start < c.left.stop ∧ c.right.start < c.right.stop

/-- The change of a stretch that stays. -/
def kept (a b n : Nat) : Change := ⟨.equal, ⟨a, a + n⟩, ⟨b, b + n⟩⟩

theorem kept_fits (h : Alike xs ys a b n) : Fits xs ys (kept a b n) where
  left := ⟨Nat.le_add_right a n, h.left⟩
  right := ⟨Nat.le_add_right b n, h.right⟩
  equal _ := ⟨n, rfl, rfl, h⟩
  delete h := nomatch h
  insert h := nomatch h
  replace h := nomatch h

theorem fits_equal (h : Fits xs ys c) (htag : c.tag = .equal) :
    ∃ a b n, c = kept a b n ∧ Alike xs ys a b n := by
  obtain ⟨n, hleft, hright, halike⟩ := h.equal htag
  obtain ⟨tag, ⟨a, a'⟩, ⟨b, b'⟩⟩ := c
  simp only at htag hleft hright halike
  subst htag hleft hright
  exact ⟨a, b, n, rfl, halike⟩

theorem kept_last (a b n : Nat) :
    (⟨.equal, lastOf context ⟨a, a + n⟩, lastOf context ⟨b, b + n⟩⟩ : Change) =
      kept (a + (n - context)) (b + (n - context)) (n - (n - context)) := by
  simp only [kept, lastOf, Change.mk.injEq, Span.mk.injEq, true_and]
  omega

theorem kept_first (a b n : Nat) :
    (⟨.equal, firstOf context ⟨a, a + n⟩, firstOf context ⟨b, b + n⟩⟩ : Change) =
      kept a b (min n context) := by
  simp only [kept, firstOf, Change.mk.injEq, Span.mk.injEq, true_and]
  omega

theorem gap_fits {left right : Span} (hl : left.start ≤ left.stop ∧ left.stop ≤ xs.length)
    (hr : right.start ≤ right.stop ∧ right.stop ≤ ys.length) :
    Fits xs ys ⟨tagOf left right, left, right⟩ := by
  by_cases hx : left.start < left.stop
  · by_cases hy : right.start < right.stop
    · rw [tagOf, if_pos hx, if_pos hy]
      exact ⟨hl, hr, nofun, nofun, nofun, fun _ => ⟨hx, hy⟩⟩
    · rw [tagOf, if_pos hx, if_neg hy]
      exact ⟨hl, hr, nofun, fun _ => by simp only; omega, nofun, nofun⟩
  · rw [tagOf, if_neg hx]
    exact ⟨hl, hr, nofun, nofun, fun _ => by simp only; omega, nofun⟩

/-- Changes that go on from one another, from two positions up to two others. -/
def Runs (xs ys : List Text) : Nat → Nat → List Change → Nat → Nat → Prop
  | i, j, [], n, m => i = n ∧ j = m ∧ n ≤ xs.length ∧ m ≤ ys.length
  | i, j, c :: cs, n, m => c.left.start = i ∧ c.right.start = j ∧ Fits xs ys c ∧
      Runs xs ys c.left.stop c.right.stop cs n m

theorem runs_one (h : Fits xs ys c) :
    Runs xs ys c.left.start c.right.start [c] c.left.stop c.right.stop :=
  ⟨rfl, rfl, h, rfl, rfl, h.left.2, h.right.2⟩

theorem runs_append {ds : List Change} : Runs xs ys i j (cs ++ ds) n m ↔
    ∃ i' j', Runs xs ys i j cs i' j' ∧ Runs xs ys i' j' ds n m := by
  induction cs generalizing i j with
  | nil =>
    constructor
    · intro h
      refine ⟨i, j, ⟨rfl, rfl, ?_⟩, h⟩
      cases ds with
      | nil => exact ⟨h.1 ▸ h.2.2.1, h.2.1 ▸ h.2.2.2⟩
      | cons d ds =>
        obtain ⟨rfl, rfl, hfits, -⟩ := h
        exact ⟨Nat.le_trans hfits.left.1 hfits.left.2, Nat.le_trans hfits.right.1 hfits.right.2⟩
    · rintro ⟨i', j', ⟨rfl, rfl, -⟩, h⟩
      exact h
  | cons c cs ih => simp only [List.cons_append, Runs, ih, ← exists_and_left, and_assoc]

theorem runs_bounds (h : Runs xs ys i j cs n m) : i ≤ xs.length ∧ j ≤ ys.length := by
  obtain ⟨i', j', hnil, -⟩ := runs_append.1 (show Runs xs ys i j ([] ++ cs) n m from h)
  obtain ⟨rfl, rfl, hbounds⟩ := hnil
  exact hbounds

theorem gap_runs {b : Block} (hi : i ≤ b.left) (hj : j ≤ b.right) (hleft : b.left ≤ xs.length)
    (hright : b.right ≤ ys.length) : Runs xs ys i j (gapBefore i j b) b.left b.right := by
  rw [gapBefore]
  split
  · exact runs_one (gap_fits ⟨hi, hleft⟩ ⟨hj, hright⟩)
  · next hnone => exact ⟨by omega, by omega, hleft, hright⟩

theorem changes_from_run {bs : List Block} (h : Ordered xs ys i j bs xs.length ys.length) :
    Runs xs ys i j (changesFrom i j (bs ++ [⟨xs.length, ys.length, 0⟩])) xs.length ys.length := by
  induction bs generalizing i j with
  | nil =>
    have hgap := gap_runs (b := ⟨xs.length, ys.length, 0⟩) h.1 h.2 (Nat.le_refl _) (Nat.le_refl _)
    simpa [changesFrom] using hgap
  | cons b bs ih =>
    obtain ⟨hi, hj, hsize, halike, hrest⟩ := h
    have hgap := gap_runs hi hj (Nat.le_trans (Nat.le_add_right _ _) halike.left)
      (Nat.le_trans (Nat.le_add_right _ _) halike.right)
    rw [List.cons_append, changesFrom, if_neg (by omega)]
    exact runs_append.2 ⟨_, _, runs_append.2 ⟨_, _, hgap, runs_one (kept_fits halike)⟩, ih hrest⟩

/-- The changes of two lists reach from their beginnings to their ends. -/
theorem changes_run (xs ys : List Text) :
    Runs xs ys 0 0 (changes xs ys) xs.length ys.length :=
  changes_from_run (blocks_ordered xs ys)

/-! Hunks leave out what is alike. -/

/-- Hunks in order, with stretches before, between and behind them that are alike. -/
def Cuts (xs ys : List Text) : Nat → Nat → List (List Change) → Nat → Nat → Prop
  | i, j, [], n, m => ∃ k, i + k = n ∧ j + k = m ∧ Alike xs ys i j k
  | i, j, h :: hs, n, m => ∃ k i' j', Alike xs ys i j k ∧ Runs xs ys (i + k) (j + k) h i' j' ∧
      Cuts xs ys i' j' hs n m

theorem cuts_earlier {hs : List (List Change)} (hk : Alike xs ys i j k)
    (h : Cuts xs ys (i + k) (j + k) hs n m) : Cuts xs ys i j hs n m := by
  cases hs with
  | nil =>
    obtain ⟨l, hn, hm, hl⟩ := h
    exact ⟨k + l, by omega, by omega, alike_append hk hl⟩
  | cons c cs =>
    obtain ⟨l, i', j', hl, hruns, hrest⟩ := h
    refine ⟨k + l, i', j', alike_append hk hl, ?_, hrest⟩
    rwa [← Nat.add_assoc, ← Nat.add_assoc]

theorem cuts_later {hs : List (List Change)} (h : Cuts xs ys i j hs n m)
    (hk : Alike xs ys n m k) : Cuts xs ys i j hs (n + k) (m + k) := by
  induction hs generalizing i j with
  | nil =>
    obtain ⟨l, rfl, rfl, hl⟩ := h
    exact ⟨l + k, by omega, by omega, alike_append hl hk⟩
  | cons c cs ih =>
    obtain ⟨l, i', j', hl, hruns, hrest⟩ := h
    exact ⟨l, i', j', hl, hruns, ih hrest⟩

theorem cuts_append {hs gs : List (List Change)} (h : Cuts xs ys i j (hs ++ gs) n m) :
    ∃ i' j', Cuts xs ys i j hs i' j' ∧ Cuts xs ys i' j' gs n m := by
  induction hs generalizing i j with
  | nil =>
    refine ⟨i, j, ⟨0, rfl, rfl, ?_⟩, h⟩
    cases gs with
    | nil =>
      obtain ⟨k, -, -, hk⟩ := h
      exact alike_take hk (Nat.zero_le k)
    | cons g gs =>
      obtain ⟨k, -, -, hk, -⟩ := h
      exact alike_take hk (Nat.zero_le k)
  | cons h₁ hs ih =>
    obtain ⟨k, i', j', hk, hruns, hrest⟩ := h
    obtain ⟨i₂, j₂, hhs, hgs⟩ := ih hrest
    exact ⟨i₂, j₂, ⟨k, i', j', hk, hruns, hhs⟩, hgs⟩

/-- A hunk without a change is a stretch that is alike. -/
theorem quiet_alike {h : List Change} (hquiet : isHunk h = false) (hruns : Runs xs ys i j h n m) :
    ∃ k, i + k = n ∧ j + k = m ∧ Alike xs ys i j k := by
  match h, hruns with
  | [], ⟨hi, hj, hn, hm⟩ =>
    subst hi hj
    exact ⟨0, rfl, rfl, alike_none hn hm⟩
  | [c], ⟨hi, hj, hfits, hn, hm, _⟩ =>
    obtain ⟨a, b, k, rfl, halike⟩ := fits_equal hfits (by simpa [isHunk] using hquiet)
    subst hi hj
    exact ⟨k, hn, hm, halike⟩
  | _ :: _ :: _, _ => exact nomatch hquiet

theorem cuts_filter {hs : List (List Change)} (h : Cuts xs ys i j hs n m) :
    Cuts xs ys i j (hs.filter isHunk) n m := by
  induction hs generalizing i j with
  | nil => exact h
  | cons g gs ih =>
    obtain ⟨k, i', j', hk, hruns, hrest⟩ := h
    rw [List.filter_cons]
    split
    · exact ⟨k, i', j', hk, hruns, ih hrest⟩
    · next hquiet =>
      obtain ⟨l, rfl, rfl, hl⟩ := quiet_alike (by simpa using hquiet) hruns
      exact cuts_earlier hk (cuts_earlier hl (ih hrest))

/-- The context at the end of a stretch that stays. -/
theorem kept_end_runs (h : Alike xs ys a b n) : Runs xs ys (a + (n - context)) (b + (n - context))
    [kept (a + (n - context)) (b + (n - context)) (n - (n - context))] (a + n) (b + n) := by
  have hruns := runs_one (kept_fits (alike_drop h (Nat.sub_le n context)))
  simp only [kept] at hruns ⊢
  rwa [show a + (n - context) + (n - (n - context)) = a + n by omega,
    show b + (n - context) + (n - (n - context)) = b + n by omega] at hruns ⊢

theorem hunks_from_cut (done : List Change) {i' j' : Nat} (hdone : Runs xs ys i j done.reverse i' j')
    (hcs : Runs xs ys i' j' cs n m) : Cuts xs ys i j (hunksFrom done cs) n m := by
  induction cs generalizing i j i' j' done with
  | nil =>
    obtain ⟨rfl, rfl, hn, hm⟩ := hcs
    obtain ⟨hi, hj⟩ := runs_bounds hdone
    exact ⟨0, i', j', alike_none hi hj, hdone, 0, rfl, rfl, alike_none hn hm⟩
  | cons c cs ih =>
    have hboth := hcs
    obtain ⟨rfl, rfl, hfits, hrest⟩ := hcs
    rw [hunksFrom]
    split
    · next hlong =>
      obtain ⟨a, b, n, rfl, halike⟩ := fits_equal hfits hlong.1
      have hsize : 2 * context < n := by simpa [kept] using hlong.2
      have hcontext : context = 3 := rfl
      obtain ⟨hi, hj⟩ := runs_bounds hdone
      -- The hunk at hand ends in the stretch and the next one begins in it.
      rw [List.reverse_cons, kept, kept_first, kept_last, Nat.min_eq_right (by omega)]
      refine ⟨0, a + context, b + context, alike_none hi hj,
        runs_append.2 ⟨_, _, hdone, runs_one (kept_fits (alike_take halike (by omega)))⟩, ?_⟩
      have hgap := alike_drop (alike_take halike (m := n - context) (by omega)) (m := context)
        (by omega)
      refine cuts_earlier hgap ?_
      rw [show a + context + (n - context - context) = a + (n - context) by omega,
        show b + context + (n - context - context) = b + (n - context) by omega]
      exact ih _ (kept_end_runs halike) hrest
    · rw [← List.singleton_append] at hboth
      obtain ⟨i', j', hone, hcs⟩ := runs_append.1 hboth
      refine ih _ ?_ hcs
      rw [List.reverse_cons]
      exact runs_append.2 ⟨_, _, hdone, hone⟩

theorem trim_first_runs (h : Runs xs ys i j cs n m) :
    ∃ k, Alike xs ys i j k ∧ Runs xs ys (i + k) (j + k) (trimFirst cs) n m := by
  obtain ⟨hi, hj⟩ := runs_bounds h
  unfold trimFirst
  split
  · next l r cs =>
    obtain ⟨rfl, rfl, hfits, hrest⟩ := h
    obtain ⟨a, b, n, hc, halike⟩ := fits_equal hfits rfl
    obtain ⟨rfl, rfl⟩ : l = ⟨a, a + n⟩ ∧ r = ⟨b, b + n⟩ := by simpa [kept] using hc
    refine ⟨n - context, alike_take halike (by omega), ?_⟩
    rw [kept_last]
    exact runs_append.2 ⟨_, _, kept_end_runs halike, hrest⟩
  · exact ⟨0, alike_none hi hj, h⟩

/-- What trimming the last change leaves of it. -/
def trimmed (c : Change) : Change :=
  match c with
  | ⟨.equal, l, r⟩ => ⟨.equal, firstOf context l, firstOf context r⟩
  | c => c

theorem trim_last_append (cs : List Change) (c : Change) :
    trimLast (cs ++ [c]) = cs ++ [trimmed c] := by
  obtain ⟨tag, l, r⟩ := c
  rw [trimLast, List.getLast?_concat]
  cases tag with
  | equal => simp [trimmed]
  | _ => rfl

theorem trim_last_runs (h : Runs xs ys i j cs n m) :
    ∃ n' m' k, Runs xs ys i j (trimLast cs) n' m' ∧ n' + k = n ∧ m' + k = m ∧
      Alike xs ys n' m' k := by
  have hwhole : ∃ n' m' k, Runs xs ys i j cs n' m' ∧ n' + k = n ∧ m' + k = m ∧
      Alike xs ys n' m' k := by
    obtain ⟨n', m', -, hnil⟩ := runs_append.1 (show Runs xs ys i j (cs ++ []) n m by simpa using h)
    exact ⟨n, m, 0, h, rfl, rfl, alike_none hnil.2.2.1 hnil.2.2.2⟩
  rcases List.eq_nil_or_concat' cs with rfl | ⟨cs, c, rfl⟩
  · exact hwhole
  · rw [trim_last_append]
    by_cases htag : c.tag = .equal
    · obtain ⟨i', j', hcs, rfl, rfl, hfits, rfl, rfl, -⟩ := runs_append.1 h
      obtain ⟨a, b, n, rfl, halike⟩ := fits_equal hfits htag
      rw [show trimmed (kept a b n) = kept a b (min n context) from kept_first a b n]
      have hfirst := kept_fits (alike_take halike (m := min n context) (Nat.min_le_left _ _))
      refine ⟨a + min n context, b + min n context, n - min n context,
        runs_append.2 ⟨_, _, hcs, runs_one hfirst⟩, ?_, ?_, alike_drop halike (by omega)⟩
      · simp only [kept]; omega
      · simp only [kept]; omega
    · obtain ⟨tag, l, r⟩ := c
      cases tag with
      | equal => exact absurd rfl htag
      | _ => exact hwhole

/-- The hunks leave out only what is alike in both lists. -/
theorem hunks_cut (xs ys : List Text) : Cuts xs ys 0 0 (hunks xs ys) xs.length ys.length := by
  obtain ⟨k, hk, hfirst⟩ := trim_first_runs (changes_run xs ys)
  obtain ⟨n, m, l, hruns, hn, hm, hl⟩ := trim_last_runs hfirst
  obtain ⟨hi, hj⟩ := runs_bounds hruns
  have hcut := hunks_from_cut [] ⟨rfl, rfl, hi, hj⟩ hruns
  rw [← hn, ← hm]
  exact cuts_filter (cuts_later (cuts_earlier hk hcut) hl)

/-! Where a line may be left open. -/

/-- A change all lines of which end. -/
def Firm (xs ys : List Text) (c : Change) : Prop :=
  ∀ l ∈ changeLines xs ys c, Text.closed l = true

theorem mem_lines_of {mark : Char} {s : Span} {l : Text} (h : l ∈ linesOf mark xs s) :
    ∃ k x, s.start ≤ k ∧ k < s.stop ∧ xs[k]? = some x ∧ l = mark :: x := by
  rw [linesOf, List.mem_map] at h
  obtain ⟨x, hx, rfl⟩ := h
  obtain ⟨k, hk⟩ := List.mem_iff_getElem?.1 hx
  rw [List.getElem?_drop, List.getElem?_take] at hk
  split at hk
  · next hlt => exact ⟨s.start + k, x, Nat.le_add_right _ _, hlt, hk, rfl⟩
  · simp at hk

theorem lines_of_mono {mark : Char} {r s : Span} {l : Text} (h : l ∈ linesOf mark xs r)
    (hstart : s.start ≤ r.start) (hstop : r.stop ≤ s.stop) : l ∈ linesOf mark xs s := by
  obtain ⟨k, x, hk, hk', hx, rfl⟩ := mem_lines_of h
  refine List.mem_map_of_mem (List.mem_iff_getElem?.2 ⟨k - s.start, ?_⟩)
  rw [List.getElem?_drop, List.getElem?_take, if_pos (by omega),
    show s.start + (k - s.start) = k by omega, hx]

theorem firm_part (h : Firm xs ys (kept a b n)) {a' b' n' : Nat} (ha : a ≤ a')
    (hn : a' + n' ≤ a + n) : Firm xs ys (kept a' b' n') :=
  fun l hl => h l (lines_of_mono (r := ⟨a', a' + n'⟩) (s := ⟨a, a + n⟩) hl ha hn)

/-- All lines of a text end, but the last. -/
def Ended (xs : List Text) : Prop := ∀ l ∈ xs.dropLast, Text.closed l = true

theorem ended_line {mark : Char} {x : Text} (h : Ended xs) (hx : xs[k]? = some x)
    (hk : k + 1 < xs.length) : Text.closed (mark :: x) = true := by
  have hinner : xs.dropLast[k]? = some x := by rw [List.getElem?_dropLast, if_pos (by omega), hx]
  exact Text.closed_behind mark (h x (List.mem_of_getElem? hinner))

theorem ended_lines {mark : Char} {s : Span} (h : Ended xs) (hs : s.stop < xs.length) :
    ∀ l ∈ linesOf mark xs s, Text.closed l = true := by
  intro l hl
  obtain ⟨k, x, -, hk, hx, rfl⟩ := mem_lines_of hl
  exact ended_line h hx (by omega)

/-- Changes are left only before one of the ends. -/
theorem changes_before {bs : List Block} (h : Ordered xs ys i j bs xs.length ys.length)
    (hsome : changesFrom i j (bs ++ [⟨xs.length, ys.length, 0⟩]) ≠ []) :
    i < xs.length ∨ j < ys.length := by
  cases bs with
  | nil =>
    by_contra hnone
    exact hsome (by simp [changesFrom, gapBefore, hnone])
  | cons b bs =>
    obtain ⟨hi, -, hsize, halike, -⟩ := h
    have := halike.left
    exact Or.inl (by omega)

section

variable (hx : Ended xs) (hy : Ended ys)
include hx hy

/-- A change before the last lines of both texts is firm. -/
theorem inner_firm (hleft : c.left.stop < xs.length) (hright : c.right.stop < ys.length) :
    Firm xs ys c := by
  unfold Firm changeLines
  split
  · exact ended_lines hx hleft
  · exact ended_lines hx hleft
  · exact ended_lines hy hright
  · exact List.forall_mem_append.2 ⟨ended_lines hx hleft, ended_lines hy hright⟩

/-- A stretch that stays is firm before the last line of either text. -/
theorem kept_firm (h : Alike xs ys a b n) (hinner : a + n < xs.length ∨ b + n < ys.length) :
    Firm xs ys (kept a b n) := by
  intro l hl
  obtain ⟨k, x, hk, hk', hline, rfl⟩ := mem_lines_of (s := ⟨a, a + n⟩) hl
  simp only at hk hk'
  have hsame := h.same (k - a) (by omega)
  rw [show a + (k - a) = k by omega, hline] at hsame
  rcases hinner with hinner | hinner
  · exact ended_line hx hline (by omega)
  · exact ended_line hy hsame.symm (by omega)

theorem changes_from_firm {bs : List Block} (h : Ordered xs ys i j bs xs.length ys.length) :
    ∀ c ∈ (changesFrom i j (bs ++ [⟨xs.length, ys.length, 0⟩])).dropLast, Firm xs ys c := by
  induction bs generalizing i j with
  | nil =>
    rw [List.nil_append, changesFrom, if_pos rfl, changesFrom, gapBefore]
    split <;> simp
  | cons b bs ih =>
    obtain ⟨-, -, hsize, halike, hrest⟩ := h
    have hleft := halike.left
    have hright := halike.right
    have hgap : ∀ c ∈ gapBefore i j b, Firm xs ys c := by
      intro c hc
      rw [gapBefore] at hc
      split at hc
      · rw [List.mem_singleton.1 hc]
        exact inner_firm hx hy (by simp only; omega) (by simp only; omega)
      · simp at hc
    rw [List.cons_append, changesFrom, if_neg (by omega)]
    by_cases hlast : changesFrom (b.left + b.size) (b.right + b.size)
        (bs ++ [⟨xs.length, ys.length, 0⟩]) = []
    · rw [hlast, List.append_nil, List.dropLast_concat]
      exact hgap
    · rw [List.dropLast_append_of_ne_nil hlast]
      refine List.forall_mem_append.2 ⟨List.forall_mem_append.2 ⟨hgap, ?_⟩, ih hrest⟩
      intro c hc
      rw [List.mem_singleton.1 hc]
      exact kept_firm hx hy halike (changes_before hrest hlast)

end

theorem trim_first_last (hcs : ∀ d ∈ cs, Firm xs ys d) (hruns : Runs xs ys i j (cs ++ [c]) n m) :
    ∃ ds d, trimFirst (cs ++ [c]) = ds ++ [d] ∧ (∀ d ∈ ds, Firm xs ys d) ∧ d.tag = c.tag ∧
      d.left.stop = c.left.stop ∧ d.right.stop = c.right.stop := by
  have hwhole : ∃ ds d, cs ++ [c] = ds ++ [d] ∧ (∀ d ∈ ds, Firm xs ys d) ∧ d.tag = c.tag ∧
      d.left.stop = c.left.stop ∧ d.right.stop = c.right.stop := ⟨cs, c, rfl, hcs, rfl, rfl, rfl⟩
  cases cs with
  | nil =>
    obtain ⟨tag, l, r⟩ := c
    cases tag with
    | equal => exact ⟨[], _, rfl, nofun, rfl, rfl, rfl⟩
    | _ => exact hwhole
  | cons d ds =>
    obtain ⟨hd, hds⟩ := List.forall_mem_cons.1 hcs
    obtain ⟨-, -, hfits, -⟩ := hruns
    obtain ⟨tag, l, r⟩ := d
    cases tag with
    | equal =>
      obtain ⟨a, b, n, hc, -⟩ := fits_equal hfits rfl
      obtain ⟨rfl, rfl⟩ : l = ⟨a, a + n⟩ ∧ r = ⟨b, b + n⟩ := by simpa [kept] using hc
      refine ⟨kept (a + (n - context)) (b + (n - context)) (n - (n - context)) :: ds, c, ?_,
        List.forall_mem_cons.2 ⟨firm_part hd (by omega) (by omega), hds⟩, rfl, rfl, rfl⟩
      rw [List.cons_append, trimFirst, kept_last, List.cons_append]
    | _ => exact hwhole

/-- A change at which no hunk is cut. -/
def Short (c : Change) : Prop := ¬ (c.tag = .equal ∧ 2 * context < c.left.stop - c.left.start)

theorem trimmed_short (c : Change) : Short (trimmed c) := by
  obtain ⟨tag, l, r⟩ := c
  rintro ⟨htag, hlong⟩
  cases tag with
  | equal => simp only [trimmed, firstOf, context] at hlong; omega
  | _ => exact nomatch htag

theorem trimmed_tag (c : Change) : (trimmed c).tag = c.tag := by
  obtain ⟨tag, l, r⟩ := c
  cases tag <;> rfl

theorem trimmed_change (h : c.tag ≠ .equal) : trimmed c = c := by
  obtain ⟨tag, l, r⟩ := c
  cases tag with
  | equal => exact absurd rfl h
  | _ => rfl

/-- The last change ends the last hunk, and all before it is firm if its changes are. -/
theorem hunks_from_last (done : List Change) {i' j' : Nat} (hc : Short c)
    (hdone : ∀ d ∈ done, Firm xs ys d) (hcs : ∀ d ∈ cs, Firm xs ys d)
    (hruns : Runs xs ys i' j' cs n m) :
    ∃ hs h, hunksFrom done (cs ++ [c]) = hs ++ [h ++ [c]] ∧
      ∀ g ∈ hs ++ [h], ∀ d ∈ g, Firm xs ys d := by
  induction cs generalizing done i' j' with
  | nil =>
    refine ⟨[], done.reverse, ?_, by simpa using hdone⟩
    rw [List.nil_append, hunksFrom, if_neg hc, hunksFrom, List.reverse_cons]
    rfl
  | cons d ds ih =>
    obtain ⟨hd, hds⟩ := List.forall_mem_cons.1 hcs
    obtain ⟨-, -, hfits, hrest⟩ := hruns
    rw [List.cons_append, hunksFrom]
    split
    · next hlong =>
      obtain ⟨a, b, n, rfl, -⟩ := fits_equal hfits hlong.1
      rw [kept, kept_first, kept_last]
      have hfirst : Firm xs ys (kept a b (min n context)) :=
        firm_part hd (Nat.le_refl a) (by omega)
      have hlast : Firm xs ys
          (kept (a + (n - context)) (b + (n - context)) (n - (n - context))) :=
        firm_part hd (by omega) (by omega)
      obtain ⟨hs, h, heq, hfirm⟩ := ih _ (List.forall_mem_singleton.2 hlast) hds hrest
      refine ⟨(kept a b (min n context) :: done).reverse :: hs, h, by rw [heq, List.cons_append], ?_⟩
      rw [List.cons_append]
      refine List.forall_mem_cons.2 ⟨fun d hd => ?_, hfirm⟩
      exact List.forall_mem_cons.2 ⟨hfirst, hdone⟩ d (List.mem_reverse.1 hd)
    · exact ih _ (List.forall_mem_cons.2 ⟨hd, hdone⟩) hds hrest

/-- Whether the last change of two lists replaces lines. -/
def EndsReplaced (xs ys : List Text) : Prop :=
  (changes xs ys).getLast?.map (·.tag) = some .replace

/-- How hunks end: all changes are firm, or all but the last, which reaches the ends of both texts if
it is no stretch that stays. -/
theorem hunks_end (hx : Ended xs) (hy : Ended ys) :
    ((∀ h ∈ hunks xs ys, ∀ d ∈ h, Firm xs ys d) ∧ ¬ EndsReplaced xs ys) ∨
    ∃ hs h c, hunks xs ys = hs ++ [h ++ [c]] ∧ (∀ g ∈ hs ++ [h], ∀ d ∈ g, Firm xs ys d) ∧
      (c.tag = .replace ↔ EndsReplaced xs ys) ∧
      (c.tag ≠ .equal → c.left.stop = xs.length ∧ c.right.stop = ys.length) := by
  have hfirm := changes_from_firm hx hy (blocks_ordered xs ys)
  have hruns := changes_run xs ys
  rw [EndsReplaced, hunks]
  rw [← changes] at hfirm
  generalize changes xs ys = cs at hfirm hruns
  rcases List.eq_nil_or_concat' cs with rfl | ⟨cs, c, rfl⟩
  · exact Or.inl ⟨nofun, nofun⟩
  · rw [List.dropLast_concat] at hfirm
    rw [List.getLast?_concat]
    obtain ⟨ds, d, heq, hds, htag, hleft, hright⟩ := trim_first_last hfirm hruns
    obtain ⟨k, -, htrimmed⟩ := trim_first_runs hruns
    obtain ⟨-, -, -, -, -, -, hn, hm, -⟩ := runs_append.1 hruns
    rw [heq] at htrimmed
    obtain ⟨_, _, hbefore, -⟩ := runs_append.1 htrimmed
    -- Trimming leaves the last change its tag and makes it too short for a cut.
    obtain ⟨hs, h, hhunks, hhs⟩ :=
      hunks_from_last [] (trimmed_short d) nofun hds hbefore
    rw [heq, trim_last_append, hhunks, List.filter_append, List.filter_singleton]
    have hall : ∀ g ∈ hs.filter isHunk ++ [h], ∀ d ∈ g, Firm xs ys d := fun g hg =>
      hhs g ((List.filter_sublist.append_right [h]).subset hg)
    cases hkeep : isHunk (h ++ [trimmed d]) with
    | true =>
      refine Or.inr ⟨hs.filter isHunk, h, trimmed d, rfl, hall, ?_, fun hchange => ?_⟩
      · rw [trimmed_tag, htag]
        simp
      · rw [trimmed_tag] at hchange
        rw [trimmed_change hchange, hleft, hright]
        exact ⟨hn, hm⟩
    | false =>
      have hequal : c.tag = .equal := by
        cases h with
        | nil => simpa [isHunk, trimmed_tag, htag] using hkeep
        | cons g gs => cases gs <;> exact nomatch hkeep
      refine Or.inl ⟨?_, by simp [hequal]⟩
      simp only [cond_false, List.append_nil]
      exact fun g hg => hall g (by simp [hg])

end Restage.Diff
