import Restage.Diff.Match

/-!
The blocks of two lists of lines stand in both of them, in order and apart (`blocks_ordered`). Which
of the common stretches is taken for a block does not matter for that: every stretch that the search
looks at stands in both lists, and the two searches beside a block keep to their sides of it.
-/

set_option autoImplicit false

namespace Restage.Diff

variable {xs ys : List Text} {i j k n m alo ahi blo bhi : Nat}

/-- The lines from `i` on in one list and from `j` on in the other are alike, `n` of them. -/
structure Alike (xs ys : List Text) (i j n : Nat) : Prop where
  left : i + n ≤ xs.length
  right : j + n ≤ ys.length
  same : ∀ k < n, xs[i + k]? = ys[j + k]?

theorem alike_none (hi : i ≤ xs.length) (hj : j ≤ ys.length) : Alike xs ys i j 0 :=
  ⟨hi, hj, fun k hk => absurd hk (Nat.not_lt_zero k)⟩

theorem alike_append (h : Alike xs ys i j n) (h' : Alike xs ys (i + n) (j + n) m) :
    Alike xs ys i j (n + m) where
  left := by have := h'.left; omega
  right := by have := h'.right; omega
  same k hk := by
    rcases Nat.lt_or_ge k n with hkn | hkn
    · exact h.same k hkn
    · have hsame := h'.same (k - n) (by omega)
      rwa [show i + n + (k - n) = i + k by omega, show j + n + (k - n) = j + k by omega] at hsame

theorem alike_take (h : Alike xs ys i j n) (hm : m ≤ n) : Alike xs ys i j m :=
  ⟨by have := h.left; omega, by have := h.right; omega, fun k hk => h.same k (by omega)⟩

theorem alike_drop (h : Alike xs ys i j n) (hm : m ≤ n) :
    Alike xs ys (i + m) (j + m) (n - m) where
  left := by have := h.left; omega
  right := by have := h.right; omega
  same k hk := by
    rw [Nat.add_assoc, Nat.add_assoc]
    exact h.same (m + k) (by omega)

theorem alike_one {x : Text} (hi : xs[i]? = some x) (hj : ys[j]? = some x) :
    Alike xs ys i j 1 where
  left := (List.getElem?_eq_some_iff.1 hi).1
  right := (List.getElem?_eq_some_iff.1 hj).1
  same k hk := by
    obtain rfl : k = 0 := by omega
    rw [Nat.add_zero, Nat.add_zero, hi, hj]

theorem alike_slice (h : Alike xs ys i j n) : (xs.drop i).take n = (ys.drop j).take n := by
  refine List.ext_getElem? fun k => ?_
  rw [List.getElem?_take, List.getElem?_take]
  split
  · next hk => rw [List.getElem?_drop, List.getElem?_drop, h.same k hk]
  · rfl

/-! The search for the longest stretch. -/

theorem mem_positions {line : Text} {ls : List Text} (h : j ∈ positions line i ls) :
    ∃ k, j = i + k ∧ ls[k]? = some line := by
  induction ls generalizing i with
  | nil => simp [positions] at h
  | cons l ls ih =>
    have hlater (h : j ∈ positions line (i + 1) ls) :
        ∃ k, j = i + k ∧ (l :: ls)[k]? = some line := by
      obtain ⟨k, rfl, hk⟩ := ih h
      exact ⟨k + 1, by omega, hk⟩
    rw [positions] at h
    split at h
    · next hl =>
      rcases List.mem_cons.1 h with rfl | h
      · exact ⟨0, rfl, congrArg some hl⟩
      · exact hlater h
    · exact hlater h

/-- A line begins a stretch only where it stands. -/
theorem candidates_alike {ps : List Nat} (h : (candidates xs ys)[i]? = some ps) (hj : j ∈ ps) :
    Alike xs ys i j 1 := by
  rw [candidates, List.getElem?_map, Option.map_eq_some_iff] at h
  obtain ⟨x, hx, rfl⟩ := h
  simp only at hj
  split at hj
  · simp at hj
  · obtain ⟨k, rfl, hk⟩ := mem_positions hj
    rw [Nat.zero_add]
    exact alike_one hx hk

/-- A stretch of two ranges that stands in both lists. -/
structure Inside (xs ys : List Text) (alo ahi blo bhi : Nat) (b : Block) : Prop where
  left_start : alo ≤ b.left
  left_stop : b.left + b.size ≤ ahi
  right_start : blo ≤ b.right
  right_stop : b.right + b.size ≤ bhi
  alike : Alike xs ys b.left b.right b.size

theorem inside_wider {b : Block} (h : Inside xs ys alo ahi blo bhi b) {hi : Nat} (hhi : ahi ≤ hi) :
    Inside xs ys alo hi blo bhi b :=
  { h with left_stop := Nat.le_trans h.left_stop hhi }

/-- A stretch of `k` lines ends right before line `i` of one list, and with line `j` of the other. -/
structure EndsAt (xs ys : List Text) (alo blo bhi i j k : Nat) : Prop where
  left : alo + k ≤ i
  right : blo + k ≤ j + 1
  stop : j < bhi
  alike : Alike xs ys (i - k) (j + 1 - k) k

theorem ends_at_longer (h : EndsAt xs ys alo blo bhi i j k)
    (hline : Alike xs ys i (j + 1) 1) (hj : j + 1 < bhi) :
    EndsAt xs ys alo blo bhi (i + 1) (j + 1) (k + 1) where
  left := by have := h.left; omega
  right := by have := h.right; omega
  stop := hj
  alike := by
    have hleft := h.left
    have hright := h.right
    rw [show i + 1 - (k + 1) = i - k by omega, show j + 1 + 1 - (k + 1) = j + 1 - k by omega]
    refine alike_append h.alike ?_
    rwa [show i - k + k = i by omega, show j + 1 - k + k = j + 1 by omega]

theorem ends_at_first (hlo : alo ≤ i) (hline : Alike xs ys i j 1) (hj : blo ≤ j) (hj' : j < bhi) :
    EndsAt xs ys alo blo bhi (i + 1) j 1 :=
  ⟨by omega, by omega, hj', hline⟩

def EndsAll (xs ys : List Text) (alo blo bhi i : Nat) (ends : List (Nat × Nat)) : Prop :=
  ∀ e ∈ ends, EndsAt xs ys alo blo bhi i e.1 e.2

theorem lookup_mem {ends : List (Nat × Nat)} (h : ends.lookup j = some k) : (j, k) ∈ ends := by
  obtain ⟨l₁, l₂, rfl, -⟩ := List.lookup_eq_some_iff.1 h
  simp

/-- One more line of the left list: the stretches that end with it. -/
theorem extend_ends {ends : List (Nat × Nat)} {ps : List Nat}
    (hends : EndsAll xs ys alo blo bhi i ends) (hlo : alo ≤ i)
    (hps : ∀ j ∈ ps, Alike xs ys i j 1) :
    EndsAll xs ys alo blo bhi (i + 1) (extend ends blo bhi ps) := by
  intro e he
  rw [extend, List.mem_map] at he
  obtain ⟨j, hj, rfl⟩ := he
  simp only [List.mem_filter, Bool.and_eq_true, decide_eq_true_eq] at hj
  obtain ⟨hj, hlower, hupper⟩ := hj
  have hline := hps j hj
  cases j with
  | zero => exact ends_at_first hlo hline hlower hupper
  | succ j =>
    simp only [Nat.add_one_ne_zero, if_false, Nat.add_sub_cancel]
    -- A stretch that ended right before in both lists goes on.
    cases hlookup : ends.lookup j with
    | none => exact ends_at_first hlo hline hlower hupper
    | some k => exact ends_at_longer (hends _ (lookup_mem hlookup)) hline hupper

theorem better_inside {ends : List (Nat × Nat)} {best : Block}
    (hends : EndsAll xs ys alo blo bhi (i + 1) ends)
    (hbest : Inside xs ys alo (i + 1) blo bhi best) :
    Inside xs ys alo (i + 1) blo bhi (better i best ends) := by
  induction ends generalizing best with
  | nil => exact hbest
  | cons e ends ih =>
    refine ih (fun e he => hends e (by simp [he])) ?_
    obtain ⟨hleft, hright, hstop, halike⟩ := hends e (by simp)
    simp only
    split
    · exact ⟨by simp only; omega, by simp only; omega, by simp only; omega, by simp only; omega,
        halike⟩
    · exact hbest

/-- The candidates of the lines from `i` on, up to `ahi`. -/
def LinesFrom (xs ys : List Text) (ahi i : Nat) (rest : List (List Nat)) : Prop :=
  ∀ k ps, rest[k]? = some ps → i + k < ahi ∧ ∀ j ∈ ps, Alike xs ys (i + k) j 1

theorem longest_from_inside {rest : List (List Nat)} {ends : List (Nat × Nat)} {best : Block}
    (hrest : LinesFrom xs ys ahi i rest) (hlo : alo ≤ i) (hhi : i ≤ ahi)
    (hends : EndsAll xs ys alo blo bhi i ends) (hbest : Inside xs ys alo i blo bhi best) :
    Inside xs ys alo ahi blo bhi (longestFrom blo bhi i ends best rest) := by
  induction rest generalizing i ends best with
  | nil => exact inside_wider hbest hhi
  | cons ps rest ih =>
    obtain ⟨hi, hps⟩ := hrest 0 ps rfl
    have hnext := extend_ends hends hlo hps
    refine ih (fun k qs hk => ?_) (by omega) hi hnext
      (better_inside hnext (inside_wider hbest (by omega)))
    rw [show i + 1 + k = i + (k + 1) by omega]
    exact hrest (k + 1) qs hk

theorem alike_of_getElem? (hi : i < xs.length)
    (h : xs.toArray[i]? = ys.toArray[j]?) : Alike xs ys i j 1 := by
  rw [List.getElem?_toArray, List.getElem?_toArray] at h
  have hx := List.getElem?_eq_getElem hi
  exact alike_one hx (h ▸ hx)

theorem grow_left_inside {fuel : Nat} {b : Block} (h : Inside xs ys alo ahi blo bhi b) :
    Inside xs ys alo ahi blo bhi (growLeft xs.toArray ys.toArray alo blo fuel b) := by
  induction fuel generalizing b with
  | zero => exact h
  | succ fuel ih =>
    rw [growLeft]
    split
    · next hgrows =>
      obtain ⟨hleft, hright, hline⟩ := hgrows
      obtain ⟨hls, hle, hrs, hre, halike⟩ := h
      have hl := halike.left
      have hr := halike.right
      have hone := alike_of_getElem? (by omega) hline
      refine ih ⟨by simp only; omega, by simp only; omega, by simp only; omega,
        by simp only; omega, ?_⟩
      simp only
      rw [Nat.add_comm b.size 1]
      refine alike_append hone ?_
      rwa [show b.left - 1 + 1 = b.left by omega, show b.right - 1 + 1 = b.right by omega]
    · exact h

theorem grow_right_inside {fuel : Nat} {b : Block} (h : Inside xs ys alo ahi blo bhi b)
    (hx : ahi ≤ xs.length) :
    Inside xs ys alo ahi blo bhi (growRight xs.toArray ys.toArray ahi bhi fuel b) := by
  induction fuel generalizing b with
  | zero => exact h
  | succ fuel ih =>
    rw [growRight]
    split
    · next hgrows =>
      obtain ⟨hleft, hright, hline⟩ := hgrows
      have hone := alike_of_getElem? (Nat.lt_of_lt_of_le hleft hx) hline
      exact ih { h with
        left_stop := hleft
        right_stop := hright
        alike := alike_append h.alike hone }
    · exact h

theorem longest_inside (hx : ahi ≤ xs.length) (hy : bhi ≤ ys.length) (ha : alo ≤ ahi)
    (hb : blo ≤ bhi) : Inside xs ys alo ahi blo bhi
      (longest xs.toArray ys.toArray (candidates xs ys) alo ahi blo bhi) := by
  refine grow_right_inside (grow_left_inside ?_) hx
  refine longest_from_inside (fun k ps hk => ?_) (Nat.le_refl _) ha (by simp [EndsAll])
    ⟨Nat.le_refl _, Nat.le_refl _, Nat.le_refl _, hb, alike_none (Nat.le_trans ha hx) (Nat.le_trans hb hy)⟩
  rw [List.getElem?_drop, List.getElem?_take] at hk
  split at hk
  · next hlt => exact ⟨hlt, fun j hj => candidates_alike hk hj⟩
  · simp at hk

/-! All blocks. -/

/-- Blocks in order, from two positions on and up to two others. -/
def Ordered (xs ys : List Text) : Nat → Nat → List Block → Nat → Nat → Prop
  | i, j, [], n, m => i ≤ n ∧ j ≤ m
  | i, j, b :: bs, n, m => i ≤ b.left ∧ j ≤ b.right ∧ 0 < b.size ∧
      Alike xs ys b.left b.right b.size ∧
      Ordered xs ys (b.left + b.size) (b.right + b.size) bs n m

theorem ordered_earlier {bs : List Block} {i' j' : Nat} (h : Ordered xs ys i j bs n m)
    (hi : i' ≤ i) (hj : j' ≤ j) : Ordered xs ys i' j' bs n m := by
  cases bs with
  | nil => exact ⟨Nat.le_trans hi h.1, Nat.le_trans hj h.2⟩
  | cons b bs => exact ⟨Nat.le_trans hi h.1, Nat.le_trans hj h.2.1, h.2.2⟩

theorem ordered_append {bs cs : List Block} {i' j' : Nat} (h : Ordered xs ys i j bs i' j')
    (h' : Ordered xs ys i' j' cs n m) : Ordered xs ys i j (bs ++ cs) n m := by
  induction bs generalizing i j with
  | nil => exact ordered_earlier h' h.1 h.2
  | cons b bs ih => exact ⟨h.1, h.2.1, h.2.2.1, h.2.2.2.1, ih h.2.2.2.2⟩

theorem blocks_in_ordered (fuel : Nat) (hx : ahi ≤ xs.length) (hy : bhi ≤ ys.length)
    (ha : alo ≤ ahi) (hb : blo ≤ bhi) : Ordered xs ys alo blo
      (blocksIn xs.toArray ys.toArray (candidates xs ys) fuel alo ahi blo bhi) ahi bhi := by
  induction fuel generalizing alo ahi blo bhi with
  | zero => exact ⟨ha, hb⟩
  | succ fuel ih =>
    have hlongest := longest_inside hx hy ha hb
    rw [blocksIn]
    generalize longest xs.toArray ys.toArray (candidates xs ys) alo ahi blo bhi = b at hlongest ⊢
    obtain ⟨hls, hle, hrs, hre, halike⟩ := hlongest
    split
    · exact ⟨ha, hb⟩
    · next hsome =>
      have hbefore : Ordered xs ys alo blo (if alo < b.left ∧ blo < b.right then
          blocksIn xs.toArray ys.toArray (candidates xs ys) fuel alo b.left blo b.right else [])
          b.left b.right := by
        split
        · exact ih (by omega) (by omega) hls hrs
        · exact ⟨hls, hrs⟩
      have hafter : Ordered xs ys (b.left + b.size) (b.right + b.size)
          (if b.left + b.size < ahi ∧ b.right + b.size < bhi then
            blocksIn xs.toArray ys.toArray (candidates xs ys) fuel (b.left + b.size) ahi
              (b.right + b.size) bhi else []) ahi bhi := by
        split
        · exact ih hx hy hle hre
        · exact ⟨hle, hre⟩
      have hblock : Ordered xs ys b.left b.right [b] (b.left + b.size) (b.right + b.size) :=
        ⟨Nat.le_refl _, Nat.le_refl _, by omega, halike, Nat.le_refl _, Nat.le_refl _⟩
      exact ordered_append (ordered_append hbefore hblock) hafter

theorem join_blocks_ordered {bs : List Block} (h : Ordered xs ys i j bs n m) :
    Ordered xs ys i j (joinBlocks bs) n m := by
  induction bs generalizing i j with
  | nil => exact h
  | cons b bs ih =>
    obtain ⟨hi, hj, hsize, halike, hrest⟩ := h
    have hjoined := ih hrest
    rw [joinBlocks]
    split
    · next hnone =>
      rw [hnone] at hjoined
      exact ⟨hi, hj, hsize, halike, hjoined⟩
    · next c cs hsome =>
      rw [hsome] at hjoined
      split
      · next htouch =>
        obtain ⟨-, -, -, hnext, hcs⟩ := hjoined
        rw [← htouch.1, ← htouch.2] at hnext hcs
        refine ⟨hi, hj, by simp only; omega, alike_append halike hnext, ?_⟩
        simp only
        rwa [← Nat.add_assoc, ← Nat.add_assoc]
      · exact ⟨hi, hj, hsize, halike, hjoined⟩

theorem blocks_ordered (xs ys : List Text) :
    Ordered xs ys 0 0 (blocks xs ys) xs.length ys.length :=
  join_blocks_ordered (blocks_in_ordered _ (Nat.le_refl _) (Nat.le_refl _) (Nat.zero_le _) (Nat.zero_le _))

end Restage.Diff
