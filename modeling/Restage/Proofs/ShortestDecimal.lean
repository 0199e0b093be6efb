import Restage.Proofs.NearestBinary

/-!
The shortest decimal digits of a binary number. They lie between the halves next to that number
(`shortest_inside`): a point of a decimal grid is taken only when it does, and the grid of
seventeen digits always has one.
-/

set_option autoImplicit false

namespace Restage.Binary64

/-- Scaling divides the quotient by a power of ten. -/
theorem scale_ten_ratio (num : Nat) {den : Nat} (hden : 0 < den) (k : Int) :
    0 < (scaleTen num den k).2 ∧
      ((scaleTen num den k).1 : ℚ) / (scaleTen num den k).2 = num / den / 10 ^ k := by
  have hden' : (den : ℚ) ≠ 0 := by positivity
  rw [scaleTen]
  by_cases hk : k < 0
  · rw [if_pos hk]
    refine ⟨hden, ?_⟩
    push_cast
    rw [ten_to_cast (by omega), zpow_neg]
    field_simp
  · rw [if_neg hk]
    refine ⟨Nat.mul_pos hden (ten_to_pos k), ?_⟩
    push_cast
    rw [ten_to_cast (by omega)]
    field_simp

/-- A quarter of the last place as a quotient of naturals. -/
theorem quarter_ratio (q : Int) :
    let parts : Nat × Nat := if q - 2 < 0 then (1, twoTo (2 - q)) else (twoTo (q - 2), 1)
    0 < parts.2 ∧ (parts.1 : ℚ) / parts.2 = 2 ^ (q - 2) := by
  intro parts
  by_cases hq : q - 2 < 0
  · simp only [parts, if_pos hq]
    refine ⟨two_to_pos _, ?_⟩
    rw [two_to_cast (by omega), ← neg_sub 2 q, zpow_neg]
    simp
  · simp only [parts, if_neg hq]
    exact ⟨by norm_num, by rw [two_to_cast (by omega)]; simp⟩

/-- Whether a grid point lies between the halves, in integers. -/
theorem inside_grid {m a b x : Nat} {q k : Int} (hb : 0 < b)
    (hratio : (a / b : ℚ) = 2 ^ (q - 2) / 10 ^ k) :
    (if m % 2 = 0 then
        decide ((interval m q).1 * a ≤ x * b) && decide (x * b ≤ (interval m q).2 * a)
      else decide ((interval m q).1 * a < x * b) && decide (x * b < (interval m q).2 * a)) = true ↔
      Inside m q (x * 10 ^ k) := by
  have hb' : (0 : ℚ) < b := by exact_mod_cast hb
  have hten : (0 : ℚ) < 10 ^ k := by positivity
  have hunit : (2 : ℚ) ^ (q - 2) = a * 10 ^ k / b := by
    field_simp at hratio
    field_simp
    linarith
  have hle : ∀ y z : Nat, y * a ≤ z * b ↔ (y : ℚ) * 2 ^ (q - 2) ≤ z * 10 ^ k := fun y z => by
    rw [hunit, ← mul_div_assoc, div_le_iff₀ hb', ← mul_assoc, mul_right_comm (z : ℚ),
      mul_le_mul_iff_left₀ hten]
    exact_mod_cast Iff.rfl
  have hge : ∀ y z : Nat, z * b ≤ y * a ↔ (z : ℚ) * 10 ^ k ≤ y * 2 ^ (q - 2) := fun y z => by
    rw [hunit, ← mul_div_assoc, le_div_iff₀ hb', ← mul_assoc, mul_right_comm (z : ℚ),
      mul_le_mul_iff_left₀ hten]
    exact_mod_cast Iff.rfl
  rw [Inside]
  split
  · simp only [Bool.and_eq_true, decide_eq_true_eq, hle, hge]
  · simp only [Bool.and_eq_true, decide_eq_true_eq, ← not_le, hle, hge]

/-- A grid either gives a point between the halves, or has none next to the number. -/
theorem grid_point_cases (m : Nat) (q k : Int) :
    (∃ d, gridPoint? m q k = some d ∧ Inside m q (d * 10 ^ k)) ∨
      gridPoint? m q k = none ∧ ∃ down : Nat, (down * 10 ^ k : ℚ) ≤ m * 2 ^ q ∧
        (m * 2 ^ q : ℚ) < (down + 1 : Nat) * 10 ^ k ∧ ¬ Inside m q (down * 10 ^ k) ∧
        ¬ Inside m q ((down + 1 : Nat) * 10 ^ k) := by
  obtain ⟨hquarter, hunit⟩ := quarter_ratio q
  simp only [gridPoint?]
  generalize (if q - 2 < 0 then ((1 : Nat), twoTo (2 - q)) else (twoTo (q - 2), 1)) = parts at *
  obtain ⟨hb, hratio⟩ := scale_ten_ratio parts.1 hquarter k
  rw [hunit] at hratio
  generalize (scaleTen parts.1 parts.2 k).1 = a at *
  generalize (scaleTen parts.1 parts.2 k).2 = b at *
  have hvalue : (m * 2 ^ q : ℚ) = (4 * m * a : Nat) / b * 10 ^ k := by
    have hten : (10 : ℚ) ^ k ≠ 0 := by positivity
    push_cast
    rw [mul_div_assoc, hratio, zpow_sub₀ (by norm_num)]
    field_simp
    norm_num
  have hb' : (0 : ℚ) < b := by exact_mod_cast hb
  have hlow : ((4 * m * a / b : Nat) * 10 ^ k : ℚ) ≤ m * 2 ^ q := by
    rw [hvalue]
    gcongr
    exact Nat.cast_div_le
  have hhigh : (m * 2 ^ q : ℚ) < (4 * m * a / b + 1 : Nat) * 10 ^ k := by
    rw [hvalue]
    gcongr
    rw [div_lt_iff₀ hb']
    exact_mod_cast Nat.lt_mul_of_div_lt (Nat.lt_succ_self _) hb
  generalize 4 * m * a / b = down at *
  have hdown := inside_grid (m := m) (x := down) hb hratio
  have hup := inside_grid (m := m) (x := down + 1) hb hratio
  generalize (if m % 2 = 0 then
      decide ((interval m q).1 * a ≤ down * b) && decide (down * b ≤ (interval m q).2 * a)
    else decide ((interval m q).1 * a < down * b) && decide (down * b < (interval m q).2 * a)) =
    downIn at *
  generalize (if m % 2 = 0 then decide ((interval m q).1 * a ≤ (down + 1) * b) &&
      decide ((down + 1) * b ≤ (interval m q).2 * a)
    else decide ((interval m q).1 * a < (down + 1) * b) &&
      decide ((down + 1) * b < (interval m q).2 * a)) = upIn at *
  cases downIn with
  | true =>
    have hdown := hdown.1 rfl
    cases upIn with
    | true =>
      have hup := hup.1 rfl
      refine Or.inl ⟨_, rfl, ?_⟩
      split
      · exact hdown
      · split
        · exact hup
        · split
          · exact hdown
          · exact hup
    | false => exact Or.inl ⟨_, rfl, hdown⟩
  | false =>
    cases upIn with
    | true => exact Or.inl ⟨_, rfl, hup.1 rfl⟩
    | false =>
      exact Or.inr ⟨rfl, down, hlow, hhigh, fun h => by simpa using hdown.2 h,
        fun h => by simpa using hup.2 h⟩

theorem lower_half {m : Nat} (hm : 0 < m) (q : Int) :
    ((interval m q).1 : ℚ) = 4 * m - 2 ∨ m = 2 ^ 52 ∧ ((interval m q).1 : ℚ) = 4 * m - 1 := by
  rw [interval]
  split
  · next h =>
    refine Or.inr ⟨h.1, ?_⟩
    rw [Nat.cast_sub (by omega)]
    push_cast
    ring
  · refine Or.inl ?_
    rw [Nat.cast_sub (by omega)]
    push_cast
    ring

/-- Where both neighbours are outside, a step of the grid is as long as the interval. -/
theorem interval_below_step {m down : Nat} {q k : Int} (hm : 0 < m)
    (hlow : (down * 10 ^ k : ℚ) ≤ m * 2 ^ q) (hhigh : (m * 2 ^ q : ℚ) < (down + 1 : Nat) * 10 ^ k)
    (hdown : ¬ Inside m q (down * 10 ^ k)) (hup : ¬ Inside m q ((down + 1 : Nat) * 10 ^ k)) :
    ((interval m q).2 - (interval m q).1 : ℚ) * 2 ^ (q - 2) ≤ 10 ^ k := by
  have htwo : (0 : ℚ) < 2 ^ q := by positivity
  have hquarter : (2 : ℚ) ^ (q - 2) = 2 ^ q / 4 := by
    rw [zpow_sub₀ (by norm_num)]
    norm_num
  have hlo : ((interval m q).1 * 2 ^ (q - 2) : ℚ) < m * 2 ^ q := by
    rw [hquarter]
    rcases lower_half hm q with h | ⟨_, h⟩ <;> rw [h] <;> nlinarith
  have hhi : (m * 2 ^ q : ℚ) < (interval m q).2 * 2 ^ (q - 2) := by
    have : ((interval m q).2 : ℚ) = 4 * m + 2 := by simp [interval]
    rw [this, hquarter]
    nlinarith
  have hleft : (down * 10 ^ k : ℚ) ≤ (interval m q).1 * 2 ^ (q - 2) := by
    by_contra hlt
    refine hdown ?_
    rw [Inside]
    split
    · exact ⟨by linarith, by linarith⟩
    · exact ⟨by linarith, by linarith⟩
  have hright : ((interval m q).2 * 2 ^ (q - 2) : ℚ) ≤ (down + 1 : Nat) * 10 ^ k := by
    by_contra hlt
    refine hup ?_
    rw [Inside]
    split
    · exact ⟨by linarith, by linarith⟩
    · exact ⟨by linarith, by linarith⟩
  push_cast at hright
  linarith

/-- A grid as fine as seventeen digits has a point between the halves. -/
theorem grid_point_found {m : Nat} {q k : Int} (hm : 0 < m) (hdigits : m < 2 ^ 53)
    (hfine : (10 : ℚ) ^ k * 10 ^ 16 ≤ m * 2 ^ q) : ∃ d, gridPoint? m q k = some d := by
  rcases grid_point_cases m q k with ⟨d, hd, _⟩ | ⟨_, down, hlow, hhigh, hdown, hup⟩
  · exact ⟨d, hd⟩
  · exfalso
    have htwo : (0 : ℚ) < 2 ^ q := by positivity
    have hstep := interval_below_step hm hlow hhigh hdown hup
    have hhi : ((interval m q).2 : ℚ) = 4 * m + 2 := by simp [interval]
    rw [hhi, zpow_sub₀ (by norm_num)] at hstep
    rcases lower_half hm q with h | ⟨hpower, h⟩
    · -- the interval is a whole last place, and the number has less than 10 ^ 16 of them
      have hm' : (m : ℚ) < 2 ^ 53 := by exact_mod_cast hdigits
      rw [h] at hstep
      have : (2 : ℚ) ^ q * 10 ^ 16 ≤ m * 2 ^ q := by linarith
      nlinarith
    · have hm' : (m : ℚ) = 2 ^ 52 := by
        rw [hpower]
        norm_num
      rw [hm'] at hfine
      rw [h] at hstep
      nlinarith

/-! The decimal exponent. The estimate `30103 / 100000` of a logarithm is good enough for every
exponent of the format. -/

theorem estimate_up : ∀ n < 1100, 10 ^ (n * 30103 / 100000) ≤ 5 * 2 ^ n := by decide +kernel

theorem estimate_down : ∀ n < 1100, 2 ^ (n + 1) ≤ 10 ^ ((n * 30103 + 99999) / 100000 + 1) := by
  decide +kernel

theorem estimate_below {l : Int} (hlow : -1100 < l) (hhigh : l < 1100) :
    (10 : ℚ) ^ (Int.fdiv (l * 30103) 100000 - 1) ≤ 2 ^ (l - 1) := by
  rw [Int.fdiv_eq_ediv_of_nonneg _ (by norm_num)]
  rcases le_total 0 l with h | h
  · obtain ⟨n, rfl⟩ := Int.eq_ofNat_of_zero_le h
    have hn : ((10 ^ (n * 30103 / 100000) : Nat) : ℚ) ≤ (5 * 2 ^ n : Nat) := by
      exact_mod_cast estimate_up n (by omega)
    have he : ((n : Int) * 30103 / 100000) = ((n * 30103 / 100000 : Nat) : Int) := by omega
    rw [he, zpow_sub₀ (by norm_num), zpow_sub₀ (by norm_num), zpow_natCast, zpow_natCast]
    push_cast at hn
    linarith
  · obtain ⟨n, hn⟩ := Int.eq_ofNat_of_zero_le (neg_nonneg.2 h)
    obtain rfl : l = -(n : Int) := by omega
    have hdown : ((2 ^ (n + 1) : Nat) : ℚ) ≤ (10 ^ ((n * 30103 + 99999) / 100000 + 1) : Nat) := by
      exact_mod_cast estimate_down n (by omega)
    have he : -(n : Int) * 30103 / 100000 - 1 =
        -(((n * 30103 + 99999) / 100000 + 1 : Nat) : Int) := by omega
    have hl : -(n : Int) - 1 = -((n + 1 : Nat) : Int) := by omega
    rw [he, hl, zpow_neg, zpow_neg, zpow_natCast, zpow_natCast]
    push_cast at hdown
    exact inv_anti₀ (by positivity) hdown

theorem decimal_exponent_below {num den : Nat} (hnum : 0 < num) (hden : 0 < den)
    (hlow : -1100 < (Nat.log2 num : Int) - Nat.log2 den)
    (hhigh : (Nat.log2 num : Int) - Nat.log2 den < 1100) :
    (10 : ℚ) ^ decimalExponent num den ≤ num / den := by
  have hleast : ∀ k : Int, (scaleTen num den k).2 ≤ (scaleTen num den k).1 →
      (10 : ℚ) ^ k ≤ num / den := fun k h => by
    obtain ⟨hb, hratio⟩ := scale_ten_ratio num hden k
    have hb' : (0 : ℚ) < (scaleTen num den k).2 := by exact_mod_cast hb
    have hten : (0 : ℚ) < 10 ^ k := by positivity
    rw [← one_le_div₀ hten, ← hratio, one_le_div₀ hb']
    exact_mod_cast h
  have hestimate := estimate_below hlow hhigh
  have hlog := (log_two_estimate hnum hden).1
  simp only [decimalExponent, decide_eq_true_eq]
  split
  · next h => exact hleast _ h
  · split
    · next h => exact hleast _ h
    · exact hestimate.trans hlog.le

theorem search_grid_inside {m : Nat} {q top : Int} {fuel n : Nat}
    (h : ∃ i < fuel, ∃ d, gridPoint? m q (top + 1 - (n + i : Nat)) = some d) :
    Inside m q ((searchGrid m q top fuel n).1 * 10 ^ (searchGrid m q top fuel n).2) := by
  induction fuel generalizing n with
  | zero =>
    obtain ⟨i, hi, _⟩ := h
    exact absurd hi (Nat.not_lt_zero i)
  | succ fuel ih =>
    obtain ⟨i, hi, hfound⟩ := h
    rw [searchGrid]
    rcases grid_point_cases m q (top + 1 - n) with ⟨d, hd, hinside⟩ | ⟨hnone, _⟩
    · rw [hd]
      exact hinside
    · rw [hnone]
      cases i with
      | zero =>
        obtain ⟨d, hd⟩ := hfound
        rw [Nat.add_zero, hnone] at hd
        simp at hd
      | succ i =>
        refine ih ⟨i, by omega, ?_⟩
        rwa [Nat.add_right_comm, Nat.add_assoc]

theorem log_two_shift {m : Nat} (hm : 0 < m) (n : Nat) : Nat.log2 (m * 2 ^ n) = Nat.log2 m + n := by
  have hlow := Nat.log2_self_le (n := m) hm.ne'
  have hhigh := Nat.lt_log2_self (n := m)
  rw [Nat.log2_eq_iff (Nat.mul_pos hm (by positivity)).ne', pow_add, Nat.add_right_comm,
    pow_add _ _ n]
  exact ⟨Nat.mul_le_mul_right _ hlow, Nat.mul_lt_mul_of_pos_right hhigh (by positivity)⟩

/-- The shortest digits of a number lie between the halves next to it. -/
theorem shortest_inside {m : Nat} {q : Int} (hm : 0 < m) (h : Canonical m q) :
    Inside m q ((shortest m q).1 * 10 ^ (shortest m q).2) := by
  obtain ⟨hleast, hgreatest, hdigits, _⟩ := h
  have hlog : Nat.log2 m < 53 := (Nat.log2_lt hm.ne').2 hdigits
  rw [leastExponent] at hleast
  rw [greatestExponent] at hgreatest
  have hparts : ∀ a b : Nat, 0 < a → 0 < b → (a / b : ℚ) = m * 2 ^ q →
      (Nat.log2 a : Int) - Nat.log2 b = Nat.log2 m + q →
      Inside m q ((searchGrid m q (decimalExponent a b) 17 1).1 *
        10 ^ (searchGrid m q (decimalExponent a b) 17 1).2) := fun a b ha hb hvalue hl => by
    have hbelow := decimal_exponent_below ha hb (by omega) (by omega)
    refine search_grid_inside ⟨16, by norm_num, grid_point_found hm hdigits ?_⟩
    rw [← hvalue]
    refine le_trans (le_of_eq ?_) hbelow
    rw [← zpow_natCast, ← zpow_add₀ (by norm_num)]
    congr 1
    push_cast
    ring
  rw [shortest]
  by_cases hq : q < 0
  · simp only [if_pos hq]
    refine hparts m (twoTo (-q)) hm (two_to_pos _) ?_ ?_
    · rw [two_to_cast (by omega), zpow_neg]
      simp
    · rw [show twoTo (-q) = 2 ^ (-q).toNat from rfl, Nat.log2_two_pow]
      omega
  · simp only [if_neg hq]
    refine hparts (m * twoTo q) 1 (Nat.mul_pos hm (two_to_pos _)) one_pos ?_ ?_
    · push_cast
      rw [two_to_cast (by omega), div_one]
    · rw [show twoTo q = 2 ^ q.toNat from rfl, log_two_shift hm, show Nat.log2 1 = 0 from rfl]
      omega

/-! Decimal numbers. -/

theorem of_decimal_canonical {negative s : Bool} {digits m : Nat} {e q : Int}
    (h : ofDecimal negative digits e = finite s m q) : Canonical m q := by
  rw [ofDecimal] at h
  split at h
  · injection h with _ hm hq
    exact hm ▸ hq ▸ canonical_zero
  · split at h
    · simp at h
    · split at h
      · injection h with _ hm hq
        exact hm ▸ hq ▸ canonical_zero
      · split at h
        · exact of_ratio_canonical (ten_to_pos _) h
        · exact of_ratio_canonical one_pos h

theorem cube_below_ten {n : Int} (hn : 0 ≤ n) : (2 : ℚ) ^ (3 * n) ≤ 10 ^ n := by
  obtain ⟨n, rfl⟩ := Int.eq_ofNat_of_zero_le hn
  rw [zpow_mul, zpow_natCast, zpow_natCast]
  gcongr
  norm_num

/-- No finite number comes near the magnitudes that are not looked at. -/
theorem inside_magnitude {m : Nat} {q : Int} (hm : 0 < m) (h : Canonical m q) {x : ℚ}
    (hinside : Inside m q x) : (10 : ℚ) ^ (-400 : Int) < x ∧ x < 10 ^ (400 : Int) := by
  obtain ⟨hleast, hgreatest, hdigits, _⟩ := h
  rw [leastExponent] at hleast
  rw [greatestExponent] at hgreatest
  have hpower : (2 : ℚ) ^ (1075 : Int) < 10 ^ (400 : Int) :=
    (zpow_lt_zpow_right₀ (by norm_num) (by norm_num)).trans_le
      (cube_below_ten (n := 400) (by norm_num))
  have hlo : (2 : ℚ) ≤ (interval m q).1 := by
    have hone : (1 : ℚ) ≤ m := by exact_mod_cast hm
    rcases lower_half hm q with h | ⟨_, h⟩ <;> rw [h] <;> linarith
  have hhi : ((interval m q).2 : ℚ) ≤ 2 ^ (55 : Int) := by
    have hm' : (m : ℚ) + 1 ≤ 2 ^ 53 := by exact_mod_cast hdigits
    have : ((interval m q).2 : ℚ) = 4 * m + 2 := by simp [interval]
    rw [this]
    norm_num at hm' ⊢
    linarith
  have hlow : (2 : ℚ) ^ (-1075 : Int) ≤ (interval m q).1 * 2 ^ (q - 2) :=
    calc (2 : ℚ) ^ (-1075 : Int) = 2 * 2 ^ (-1076 : Int) := by
          rw [← zpow_one_add₀ (by norm_num), show (1 + -1076 : Int) = -1075 from rfl]
      _ ≤ (interval m q).1 * 2 ^ (q - 2) :=
          mul_le_mul hlo (zpow_le_zpow_right₀ (by norm_num) (by omega)) (by positivity)
            (by linarith)
  have hhigh : ((interval m q).2 * 2 ^ (q - 2) : ℚ) ≤ 2 ^ (1075 : Int) :=
    calc ((interval m q).2 * 2 ^ (q - 2) : ℚ) ≤ 2 ^ (55 : Int) * 2 ^ (q - 2) := by gcongr
      _ = 2 ^ (55 + (q - 2)) := by rw [← zpow_add₀ (by norm_num)]
      _ ≤ 2 ^ (1075 : Int) := zpow_le_zpow_right₀ (by norm_num) (by omega)
  have hbetween : (interval m q).1 * 2 ^ (q - 2) ≤ x ∧ x ≤ (interval m q).2 * 2 ^ (q - 2) := by
    rw [Inside] at hinside
    split at hinside
    · exact hinside
    · exact ⟨hinside.1.le, hinside.2.le⟩
  refine ⟨lt_of_lt_of_le ?_ (hlow.trans hbetween.1), lt_of_le_of_lt (hbetween.2.trans hhigh) hpower⟩
  rw [zpow_neg, zpow_neg]
  exact inv_strictAnti₀ (by positivity) hpower

/-- The number of decimal digits bounds a number. -/
theorem decimal_bounds {n : Nat} (hn : 0 < n) :
    (10 : ℚ) ^ ((Text.decimal n).length - 1 : Int) ≤ n ∧
      (n : ℚ) < 10 ^ ((Text.decimal n).length : Int) := by
  have hlength : 0 < (Text.decimal n).length := Nat.length_toDigits_pos
  have hbound : ∀ k, 0 < k → ((Text.decimal n).length ≤ k ↔ n < 10 ^ k) := fun k hk =>
    Nat.length_toDigits_le_iff (by norm_num) hk
  generalize (Text.decimal n).length = l at *
  obtain ⟨k, rfl⟩ : ∃ k, l = k + 1 := ⟨l - 1, by omega⟩
  have hhigh : n < 10 ^ (k + 1) := (hbound _ hlength).1 le_rfl
  have hlow : 10 ^ k ≤ n := by
    rcases Nat.eq_zero_or_pos k with rfl | hk
    · exact hn
    · exact not_lt.1 fun h => absurd ((hbound k hk).2 h) (by omega)
  push_cast
  rw [add_sub_cancel_right, zpow_natCast]
  exact ⟨by exact_mod_cast hlow, by exact_mod_cast hhigh⟩

/-- A decimal number between the halves next to a binary number is read as that number. -/
theorem of_decimal_inside {negative : Bool} {m digits : Nat} {q e : Int} (hm : 0 < m)
    (h : Canonical m q) (hdigits : 0 < digits) (hinside : Inside m q (digits * 10 ^ e)) :
    ofDecimal negative digits e = finite negative m q := by
  obtain ⟨hsmall, hlarge⟩ := inside_magnitude hm h hinside
  obtain ⟨hlow, hhigh⟩ := decimal_bounds hdigits
  have hten : (0 : ℚ) < 10 ^ e := by positivity
  have hsize : -400 < (Text.decimal digits).length + e := by
    have : (10 : ℚ) ^ (-400 : Int) < 10 ^ ((Text.decimal digits).length + e) := by
      rw [zpow_add₀ (by norm_num)]
      exact hsmall.trans (by gcongr)
    exact (zpow_lt_zpow_iff_right₀ (by norm_num)).1 this
  have hsize' : (Text.decimal digits).length - 1 + e < 400 := by
    have : (10 : ℚ) ^ ((Text.decimal digits).length - 1 + e) < 10 ^ (400 : Int) := by
      rw [zpow_add₀ (by norm_num)]
      exact lt_of_le_of_lt (by gcongr) hlarge
    exact (zpow_lt_zpow_iff_right₀ (by norm_num)).1 this
  rw [ofDecimal, if_neg hdigits.ne', if_neg (by omega), if_neg (by omega)]
  split
  · refine of_ratio_inside hdigits (ten_to_pos _) h ?_
    rw [ten_to_cast (by omega), zpow_neg, div_inv_eq_mul]
    exact hinside
  · refine of_ratio_inside (Nat.mul_pos hdigits (ten_to_pos _)) one_pos h ?_
    push_cast
    rw [ten_to_cast (by omega), div_one]
    exact hinside

/-- Taking zeros off the end keeps the value. -/
theorem strip_zeros_value (fuel : Nat) {d : Nat} (hd : 0 < d) (k : Int) :
    0 < (stripZeros fuel d k).1 ∧
      ((stripZeros fuel d k).1 * 10 ^ (stripZeros fuel d k).2 : ℚ) = d * 10 ^ k := by
  induction fuel generalizing d k with
  | zero => exact ⟨hd, rfl⟩
  | succ fuel ih =>
    rw [stripZeros]
    split
    · next h =>
      obtain ⟨hpos, hvalue⟩ := ih (d := d / 10) (by omega) (k + 1)
      refine ⟨hpos, hvalue.trans ?_⟩
      have hten : ((d / 10 : Nat) * 10 : ℚ) = d := by exact_mod_cast Nat.div_mul_cancel (by omega)
      rw [zpow_add_one₀ (by norm_num), ← hten]
      ring
    · exact ⟨hd, rfl⟩

end Restage.Binary64
