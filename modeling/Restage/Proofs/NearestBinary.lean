import Mathlib
import Restage.Number.Binary64

/-!
Rounding of quotients to binary numbers. `ofRatio` depends on the value of a quotient only, its
results are canonical (`of_ratio_canonical`), and it gives a canonical number for every value
between that number's neighbouring halves (`of_ratio_inside`).
-/

set_option autoImplicit false

namespace Restage.Binary64

theorem two_to_cast {q : Int} (hq : 0 ≤ q) : (twoTo q : ℚ) = 2 ^ q := by
  obtain ⟨n, rfl⟩ := Int.eq_ofNat_of_zero_le hq
  simp [twoTo]

theorem ten_to_cast {k : Int} (hk : 0 ≤ k) : (tenTo k : ℚ) = 10 ^ k := by
  obtain ⟨n, rfl⟩ := Int.eq_ofNat_of_zero_le hk
  simp [tenTo]

theorem two_to_pos (q : Int) : 0 < twoTo q := Nat.pow_pos (by norm_num)

theorem ten_to_pos (k : Int) : 0 < tenTo k := Nat.pow_pos (by norm_num)

/-- Scaling divides the quotient by a power of two. -/
theorem scale_two_ratio (num : Nat) {den : Nat} (hden : 0 < den) (q : Int) :
    0 < (scaleTwo num den q).2 ∧
      ((scaleTwo num den q).1 : ℚ) / (scaleTwo num den q).2 = num / den / 2 ^ q := by
  have hden' : (den : ℚ) ≠ 0 := by positivity
  rw [scaleTwo]
  by_cases hq : q < 0
  · rw [if_pos hq]
    refine ⟨hden, ?_⟩
    push_cast
    rw [two_to_cast (by omega), zpow_neg]
    field_simp
  · rw [if_neg hq]
    refine ⟨Nat.mul_pos hden (two_to_pos q), ?_⟩
    push_cast
    rw [two_to_cast (by omega)]
    field_simp

/-- A number is nearest to an integer, which is even where two are equally near. -/
def Nearest (x : ℚ) (m : Nat) : Prop := |x - m| ≤ 1 / 2 ∧ (|x - m| = 1 / 2 → m % 2 = 0)

theorem round_div_bounds (a b : Nat) : a / b ≤ roundDiv a b ∧ roundDiv a b ≤ a / b + 1 := by
  simp only [roundDiv]
  split
  · omega
  · split
    · omega
    · split <;> omega

theorem round_div_nearest {a b m : Nat} (hb : 0 < b) (h : Nearest (a / b : ℚ) m) :
    roundDiv a b = m := by
  have hb' : (0 : ℚ) < b := by exact_mod_cast hb
  obtain ⟨hnear, heven⟩ := h
  have hdiv : b * (a / b) + a % b = a := Nat.div_add_mod a b
  have hmod : a % b < b := Nat.mod_lt a hb
  rw [abs_le] at hnear
  have hscaled : (a / b : ℚ) * b = a := by field_simp
  -- all in units of the denominator, so that only integers are compared
  have hlow : 2 * (m * b) ≤ 2 * a + b := by
    have : (2 * (m * b) : ℚ) ≤ 2 * a + b := by nlinarith
    exact_mod_cast this
  have hhigh : 2 * a ≤ 2 * (m * b) + b := by
    have : (2 * a : ℚ) ≤ 2 * (m * b) + b := by nlinarith
    exact_mod_cast this
  have htie : 2 * a = 2 * (m * b) + b ∨ 2 * (m * b) = 2 * a + b → m % 2 = 0 := by
    intro h
    apply heven
    rcases h with h | h
    · have h' : (2 * a : ℚ) = 2 * (m * b) + b := by exact_mod_cast h
      have hx : (a / b : ℚ) - m = 1 / 2 := by
        field_simp
        linarith
      rw [hx]
      norm_num
    · have h' : (2 * (m * b) : ℚ) = 2 * a + b := by exact_mod_cast h
      have hx : (a / b : ℚ) - m = -(1 / 2) := by
        field_simp
        linarith
      rw [hx]
      norm_num
  simp only [roundDiv]
  generalize a / b = c at hdiv ⊢
  generalize a % b = r at hdiv hmod ⊢
  have hc : c ≤ m := by
    by_contra hlt
    have := Nat.mul_le_mul_right b (Nat.succ_le_of_lt (Nat.lt_of_not_le hlt))
    rw [Nat.succ_mul, Nat.mul_comm c b] at this
    omega
  have hm : m ≤ c + 1 := by
    by_contra hlt
    have := Nat.mul_le_mul_right b (Nat.succ_le_of_lt (Nat.lt_of_not_le hlt))
    rw [Nat.succ_mul, Nat.succ_mul, Nat.mul_comm c b] at this
    omega
  rcases (show m = c ∨ m = c + 1 by omega) with rfl | rfl
  · rw [Nat.mul_comm m b] at hlow hhigh htie
    split_ifs <;> omega
  · rw [Nat.mul_comm (c + 1) b, Nat.mul_succ] at hlow hhigh htie
    split_ifs <;> omega

theorem ratio_pos {num den : Nat} (hnum : 0 < num) (hden : 0 < den) : (0 : ℚ) < num / den := by
  positivity

theorem log_two_eq {x : ℚ} (hx : 0 < x) {e : Int} (hlow : (2 : ℚ) ^ e ≤ x)
    (hhigh : x < 2 ^ (e + 1)) : Int.log 2 x = e := by
  have h1 : e ≤ Int.log 2 x := (Int.zpow_le_iff_le_log (by norm_num) hx).1 (by exact_mod_cast hlow)
  have h2 : Int.log 2 x < e + 1 :=
    (Int.lt_zpow_iff_log_lt (by norm_num) hx).1 (by exact_mod_cast hhigh)
  omega

/-- The logarithm of a number, from bounds in units of a power of two. -/
theorem log_two_units {x : ℚ} (hx : 0 < x) {e q : Int} (hlow : (2 : ℚ) ^ e ≤ x / 2 ^ q)
    (hhigh : x / 2 ^ q < 2 ^ (e + 1)) : Int.log 2 x = e + q := by
  have htwo : (0 : ℚ) < 2 ^ q := by positivity
  rw [le_div_iff₀ htwo, ← zpow_add₀ (by norm_num)] at hlow
  rw [div_lt_iff₀ htwo, ← zpow_add₀ (by norm_num)] at hhigh
  exact log_two_eq hx hlow (by rwa [add_right_comm])

/-- The binary logarithms of the parts give that of a quotient or one more. -/
theorem log_two_estimate {num den : Nat} (hnum : 0 < num) (hden : 0 < den) :
    (2 : ℚ) ^ ((Nat.log2 num : Int) - Nat.log2 den - 1) < num / den ∧
      (num / den : ℚ) < 2 ^ ((Nat.log2 num : Int) - Nat.log2 den + 1) := by
  have hlow : ∀ {n : Nat}, 0 < n → (2 : ℚ) ^ (Nat.log2 n : Int) ≤ n := fun {n} hn => by
    have := Nat.log2_self_le (n := n) (by omega)
    exact_mod_cast this
  have hhigh : ∀ n : Nat, (n : ℚ) < 2 ^ ((Nat.log2 n : Int) + 1) := fun n => by
    have := Nat.lt_log2_self (n := n)
    exact_mod_cast this
  have hden' : (0 : ℚ) < den := by exact_mod_cast hden
  constructor
  · rw [lt_div_iff₀ hden']
    calc (2 : ℚ) ^ ((Nat.log2 num : Int) - Nat.log2 den - 1) * den
        < 2 ^ ((Nat.log2 num : Int) - Nat.log2 den - 1) * 2 ^ ((Nat.log2 den : Int) + 1) := by
          gcongr
          exact hhigh den
      _ = 2 ^ (Nat.log2 num : Int) := by
          rw [← zpow_add₀ (by norm_num)]
          congr 1
          ring
      _ ≤ num := hlow hnum
  · rw [div_lt_iff₀ hden']
    calc (num : ℚ) < 2 ^ ((Nat.log2 num : Int) + 1) := hhigh num
      _ = 2 ^ ((Nat.log2 num : Int) - Nat.log2 den + 1) * 2 ^ (Nat.log2 den : Int) := by
          rw [← zpow_add₀ (by norm_num)]
          congr 1
          ring
      _ ≤ 2 ^ ((Nat.log2 num : Int) - Nat.log2 den + 1) * den := by
          gcongr
          exact hlow hden

/-- The exponent of a quotient is a function of its value. -/
theorem exponent_of_value {num den : Nat} (hnum : 0 < num) (hden : 0 < den) :
    exponentOf num den = max leastExponent (Int.log 2 (num / den : ℚ) - 52) := by
  obtain ⟨hlow, hhigh⟩ := log_two_estimate hnum hden
  have hx := ratio_pos hnum hden
  obtain ⟨hb, hratio⟩ := scale_two_ratio num hden ((Nat.log2 num : Int) - Nat.log2 den)
  simp only [exponentOf]
  generalize hl : (Nat.log2 num : Int) - Nat.log2 den = l at *
  have hb' : (0 : ℚ) < (scaleTwo num den l).2 := by exact_mod_cast hb
  have hless : (scaleTwo num den l).1 < (scaleTwo num den l).2 ↔ (num / den : ℚ) < 2 ^ l := by
    rw [← div_lt_one₀ (by positivity : (0 : ℚ) < 2 ^ l), ← hratio, div_lt_one₀ hb']
    exact_mod_cast Iff.rfl
  by_cases h : (scaleTwo num den l).1 < (scaleTwo num den l).2
  · rw [if_pos h, log_two_eq hx hlow.le (by simpa using hless.1 h)]
    congr 1
    ring
  · rw [if_neg h, log_two_eq hx (not_lt.1 fun hlt => h (hless.2 hlt)) hhigh]

/-- What the finite numbers of the format satisfy: 53 digits unless the exponent is the least. -/
structure Canonical (m : Nat) (q : Int) : Prop where
  least : leastExponent ≤ q
  greatest : q ≤ greatestExponent
  digits : m < 2 ^ 53
  normal : 2 ^ 52 ≤ m ∨ q = leastExponent

theorem canonical_zero : Canonical 0 leastExponent :=
  ⟨by decide, by decide, by decide, Or.inr rfl⟩

/-- The quotient that is rounded has at most 53 digits, and fewer only at the least exponent. -/
theorem scaled_bounds {num den : Nat} (hnum : 0 < num) (hden : 0 < den) :
    leastExponent ≤ exponentOf num den ∧
      (num / den / 2 ^ exponentOf num den : ℚ) < 2 ^ (53 : Int) ∧
      (exponentOf num den = leastExponent ∨
        (2 : ℚ) ^ (52 : Int) ≤ num / den / 2 ^ exponentOf num den) := by
  have hx := ratio_pos hnum hden
  rw [exponent_of_value hnum hden]
  generalize (num / den : ℚ) = x at hx
  have hlow : (2 : ℚ) ^ Int.log 2 x ≤ x := by exact_mod_cast Int.zpow_log_le_self (by norm_num) hx
  have hhigh : x < (2 : ℚ) ^ (Int.log 2 x + 1) := by
    exact_mod_cast Int.lt_zpow_succ_log_self (b := 2) (by norm_num) x
  refine ⟨le_max_left _ _, ?_, ?_⟩
  · rw [div_lt_iff₀ (by positivity), ← zpow_add₀ (by norm_num)]
    refine hhigh.trans_le (zpow_le_zpow_right₀ (by norm_num) ?_)
    have := le_max_right leastExponent (Int.log 2 x - 52)
    omega
  · rcases le_total (Int.log 2 x - 52) leastExponent with h | h
    · exact Or.inl (max_eq_left h)
    · refine Or.inr ?_
      rw [max_eq_right h, le_div_iff₀ (by positivity), ← zpow_add₀ (by norm_num)]
      rwa [show (52 : Int) + (Int.log 2 x - 52) = Int.log 2 x by ring]

/-- Rounding gives canonical numbers. -/
theorem of_ratio_canonical {negative s : Bool} {num den m : Nat} {q : Int} (hden : 0 < den)
    (h : ofRatio negative num den = finite s m q) : Canonical m q := by
  rw [ofRatio] at h
  split at h
  · injection h with _ hm hq
    exact hm ▸ hq ▸ canonical_zero
  · next hzero =>
    obtain ⟨hleast, hhigh, hlow⟩ := scaled_bounds (Nat.pos_of_ne_zero hzero) hden
    obtain ⟨hb, hratio⟩ := scale_two_ratio num hden (exponentOf num den)
    simp only at h
    generalize exponentOf num den = e at *
    rw [← hratio] at hhigh hlow
    generalize (scaleTwo num den e).1 = a at *
    generalize (scaleTwo num den e).2 = b at *
    obtain ⟨hdown, hup⟩ := round_div_bounds a b
    have hb' : (0 : ℚ) < b := by exact_mod_cast hb
    have hdigits : a / b < 2 ^ 53 := by
      rw [Nat.div_lt_iff_lt_mul hb]
      rw [div_lt_iff₀ hb'] at hhigh
      exact_mod_cast hhigh
    have hnormal : e = leastExponent ∨ 2 ^ 52 ≤ a / b := hlow.imp_right fun hlow => by
      rw [Nat.le_div_iff_mul_le hb]
      rw [le_div_iff₀ hb'] at hlow
      exact_mod_cast hlow
    have htwo : twoTo 53 = 2 ^ 53 := rfl
    have htwo' : twoTo 52 = 2 ^ 52 := rfl
    rw [htwo, htwo'] at h
    by_cases hcarry : roundDiv a b = 2 ^ 53
    · simp only [hcarry, if_true] at h
      split at h
      · simp at h
      · injection h with _ hm hq
        subst hm hq
        exact ⟨by omega, by omega, by norm_num, Or.inl le_rfl⟩
    · simp only [hcarry, if_false] at h
      split at h
      · simp at h
      · injection h with _ hm hq
        subst hm hq
        exact ⟨hleast, by omega, by omega, hnormal.symm.imp_left hdown.trans'⟩

/-- The values between the halves next to `m * 2 ^ q`: the lower one is nearer where the exponent
changes, and both count where `m` is even. -/
def Inside (m : Nat) (q : Int) (x : ℚ) : Prop :=
  let lo : ℚ := (interval m q).1 * 2 ^ (q - 2)
  let hi : ℚ := (interval m q).2 * 2 ^ (q - 2)
  if m % 2 = 0 then lo ≤ x ∧ x ≤ hi else lo < x ∧ x < hi

theorem of_ratio_of_nearest {negative : Bool} {num den m : Nat} {q : Int} (hnum : 0 < num)
    (hden : 0 < den) (hexponent : exponentOf num den = q) (hq : q ≤ greatestExponent)
    (hm : m < 2 ^ 53) (hnear : Nearest (num / den / 2 ^ q) m) :
    ofRatio negative num den = finite negative m q := by
  obtain ⟨hb, hratio⟩ := scale_two_ratio num hden q
  have hround : roundDiv (scaleTwo num den q).1 (scaleTwo num den q).2 = m :=
    round_div_nearest hb (hratio ▸ hnear)
  have hcarry : m ≠ twoTo 53 := fun h => by
    rw [h, show twoTo 53 = 2 ^ 53 from rfl] at hm
    exact absurd hm (lt_irrefl _)
  simp only [ofRatio, if_neg hnum.ne', hexponent, hround, if_neg hcarry]
  rw [if_neg (by omega)]

/-- A quotient that rounds up to the next power of two. -/
theorem of_ratio_of_carry {negative : Bool} {num den : Nat} {q : Int} (hnum : 0 < num)
    (hden : 0 < den) (hexponent : exponentOf num den = q - 1) (hq : q ≤ greatestExponent)
    (hnear : Nearest (num / den / 2 ^ (q - 1)) (2 ^ 53)) :
    ofRatio negative num den = finite negative (2 ^ 52) q := by
  obtain ⟨hb, hratio⟩ := scale_two_ratio num hden (q - 1)
  have hround : roundDiv (scaleTwo num den (q - 1)).1 (scaleTwo num den (q - 1)).2 = twoTo 53 :=
    round_div_nearest hb (hratio ▸ hnear)
  simp only [ofRatio, if_neg hnum.ne', hexponent, hround, if_true, sub_add_cancel]
  rw [if_neg (by omega)]
  rfl

theorem inside_nearest {m : Nat} {q : Int} {x : ℚ} (hx : 0 < x) (h : Inside m q x) :
    Nearest (x / 2 ^ q) m := by
  have hpow : (2 : ℚ) ^ (q - 2) = 2 ^ q / 4 := by
    rw [zpow_sub₀ (by norm_num)]
    norm_num
  have htwo : (0 : ℚ) < 2 ^ q := by positivity
  obtain ⟨y, rfl⟩ : ∃ y, x = y * 2 ^ q := ⟨x / 2 ^ q, by field_simp⟩
  have hy : 0 < y := pos_of_mul_pos_left hx htwo.le
  rw [mul_div_assoc, div_self htwo.ne', mul_one]
  have hlow : (4 * m - 2 : ℚ) ≤ (interval m q).1 := by
    have : 4 * m ≤ (interval m q).1 + 2 := by
      rw [interval]
      split <;> omega
    have : (4 * m : ℚ) ≤ (interval m q).1 + 2 := by exact_mod_cast this
    linarith
  have hhigh : ((interval m q).2 : ℚ) = 4 * m + 2 := by simp [interval]
  have hscale : ∀ a : ℚ, a * 2 ^ (q - 2) = a / 4 * 2 ^ q := fun a => by
    rw [hpow]
    ring
  rw [Inside] at h
  simp only [hscale, hhigh, mul_le_mul_iff_left₀ htwo, mul_lt_mul_iff_left₀ htwo] at h
  rw [Nearest, abs_le]
  split at h
  · next heven => exact ⟨⟨by linarith, by linarith⟩, fun _ => heven⟩
  · refine ⟨⟨by linarith, by linarith⟩, fun habs => ?_⟩
    have : |y - m| < 1 / 2 := abs_lt.2 ⟨by linarith, by linarith⟩
    exact absurd habs this.ne

/-- Just below a power of two the exponent is one less, and rounding carries. -/
theorem of_ratio_below_power {negative : Bool} {num den : Nat} {q : Int} (hnum : 0 < num)
    (hden : 0 < den) (hleast : leastExponent < q) (hgreatest : q ≤ greatestExponent)
    (hinside : Inside (2 ^ 52) q (num / den)) (hlow : (num / den / 2 ^ q : ℚ) < 4503599627370496) :
    ofRatio negative num den = finite negative (2 ^ 52) q := by
  have htwo : (0 : ℚ) < 2 ^ q := by positivity
  have hquarter : (4503599627370496 - 1 / 4 : ℚ) ≤ num / den / 2 ^ q := by
    have hlo : (interval (2 ^ 52) q).1 = 18014398509481983 := by
      rw [interval, if_pos ⟨rfl, hleast⟩]
      norm_num
    rw [Inside, if_pos (by norm_num), hlo, zpow_sub₀ (by norm_num)] at hinside
    rw [le_div_iff₀ htwo]
    norm_num at hinside ⊢
    linarith [hinside.1]
  have hdouble : (num / den / 2 ^ (q - 1) : ℚ) = 2 * (num / den / 2 ^ q) := by
    rw [zpow_sub₀ (by norm_num), zpow_one]
    field_simp
  have hlog : Int.log 2 (num / den : ℚ) = 51 + q := by
    refine log_two_units (ratio_pos hnum hden) ?_ ?_
    · norm_num at hquarter ⊢
      linarith
    · norm_num
      exact hlow
  refine of_ratio_of_carry hnum hden ?_ hgreatest ?_
  · rw [exponent_of_value hnum hden, hlog]
    omega
  · rw [hdouble, Nearest, abs_le]
    push_cast
    norm_num at hquarter ⊢
    exact ⟨by linarith, by linarith⟩

/-- A value between the halves next to a canonical number rounds to that number. -/
theorem of_ratio_inside {negative : Bool} {num den m : Nat} {q : Int} (hnum : 0 < num)
    (hden : 0 < den) (hcanonical : Canonical m q) (hinside : Inside m q (num / den)) :
    ofRatio negative num den = finite negative m q := by
  obtain ⟨hleast, hgreatest, hdigits, hnormal⟩ := hcanonical
  have hx := ratio_pos hnum hden
  have hnear := inside_nearest hx hinside
  obtain ⟨hbelow, habove⟩ := abs_le.1 hnear.1
  have htwo : (0 : ℚ) < 2 ^ q := by positivity
  have hhigh : (num / den / 2 ^ q : ℚ) < 2 ^ (53 : Int) := by
    have hm : (m : ℚ) + 1 ≤ 2 ^ 53 := by exact_mod_cast hdigits
    norm_num at hm ⊢
    linarith
  by_cases hlow : (4503599627370496 : ℚ) ≤ num / den / 2 ^ q
  · refine of_ratio_of_nearest hnum hden ?_ hgreatest hdigits hnear
    have hlog := log_two_units hx (e := 52) (by norm_num; exact hlow)
      (by norm_num at hhigh ⊢; exact hhigh)
    rw [exponent_of_value hnum hden, hlog]
    omega
  · rw [not_le] at hlow
    rcases eq_or_ne q leastExponent with rfl | hq
    · refine of_ratio_of_nearest hnum hden ?_ hgreatest hdigits hnear
      have hlog : Int.log 2 (num / den : ℚ) < 52 + leastExponent := by
        refine (Int.lt_zpow_iff_log_lt (by norm_num) hx).1 ?_
        rw [div_lt_iff₀ htwo] at hlow
        push_cast
        rw [zpow_add₀ (by norm_num)]
        norm_num
        exact hlow
      rw [exponent_of_value hnum hden]
      omega
    · have hpower : m = 2 ^ 52 := by
        have h1 : (m : ℚ) < 4503599627370497 := by linarith
        have h2 : m < 4503599627370497 := by exact_mod_cast h1
        have h3 := hnormal.resolve_right hq
        omega
      subst hpower
      exact of_ratio_below_power hnum hden (lt_of_le_of_ne hleast (Ne.symm hq)) hgreatest hinside
        hlow

end Restage.Binary64
