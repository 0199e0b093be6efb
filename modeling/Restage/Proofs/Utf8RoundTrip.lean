import Mathlib
import Restage.Files.Utf8

/-!
A text that is written as UTF-8 and read back is the same text (`decode_encode`), up to its line
ends when these are unified (`unify_mem`, `infix_of_unified`).
-/

set_option autoImplicit false

namespace Restage.Utf8

/-! One character. -/

/-- A form whose tail fits its first byte is read whole, whatever stands behind it. -/
theorem form_tail {b : UInt8} {tail : Bytes} (rest : Bytes)
    (hlength : following b = some tail.length)
    (hsecond : ∀ c ∈ tail.head?, secondFits b c = true)
    (htail : ∀ c ∈ tail, isContinuation c = true) :
    form b (tail ++ rest) =
      .ok (tail.foldl (fun v c => v * 64 + c.toNat % 64) (leadBits tail.length b), tail.length) := by
  cases tail with
  | nil =>
    simp [form, hlength]
  | cons c cs =>
    have hfits : secondFits b c = true := hsecond c rfl
    have hcs : ∀ d ∈ cs, isContinuation d = true := fun d hd => htail d (by simp [hd])
    have htake : (c :: (cs ++ rest).takeWhile isContinuation).take (c :: cs).length = c :: cs := by
      rw [List.takeWhile_append_of_pos hcs]
      simp
    simp only [form, hlength, List.cons_append, hfits, if_true, htake]

theorem toNat_byte {n : Nat} (h : n < 256) : n.toUInt8.toNat = n := by
  simp only [Nat.toUInt8, UInt8.toNat_ofNat']
  omega

theorem following_byte {n : Nat} (h : n < 256) : following n.toUInt8 =
    if n < 0x80 then some 0
    else if 0xC2 ≤ n ∧ n ≤ 0xDF then some 1
    else if 0xE0 ≤ n ∧ n ≤ 0xEF then some 2
    else if 0xF0 ≤ n ∧ n ≤ 0xF4 then some 3
    else none := by
  have hn := toNat_byte h
  simp only [following, UInt8.lt_iff_toNat_lt, UInt8.le_iff_toNat_le, hn, Bool.and_eq_true,
    decide_eq_true_eq]
  rfl

theorem continuation_byte {n : Nat} (h : n < 64) : isContinuation (0x80 + n).toUInt8 = true := by
  have hn : (0x80 + n).toUInt8.toNat = 0x80 + n := toNat_byte (by omega)
  simp only [isContinuation, UInt8.le_iff_toNat_le, hn, Bool.and_eq_true, decide_eq_true_eq]
  constructor
  · show 128 ≤ _
    omega
  · show _ ≤ 191
    omega

/-- The bounds that a first byte sets for the six bits of the second. -/
def SecondBits (b n : Nat) : Prop :=
  (b = 0xE0 → 0x20 ≤ n) ∧ (b = 0xED → n < 0x20) ∧ (b = 0xF0 → 0x10 ≤ n) ∧ (b = 0xF4 → n < 0x10)

theorem second_byte {b n : Nat} (hb : b < 256) (h : n < 64) (hbits : SecondBits b n) :
    secondFits b.toUInt8 (0x80 + n).toUInt8 = true := by
  obtain ⟨he0, hed, hf0, hf4⟩ := hbits
  have hbyte := toNat_byte hb
  have hn : (0x80 + n).toUInt8.toNat = 0x80 + n := toNat_byte (by omega)
  simp only [secondFits, continuation_byte h, Bool.true_and, Bool.and_eq_true, Bool.or_eq_true,
    bne_iff_ne, ne_eq, ← UInt8.toNat_inj, UInt8.le_iff_toNat_le, UInt8.lt_iff_toNat_lt, hn, hbyte,
    decide_eq_true_eq]
  refine ⟨⟨⟨?_, ?_⟩, ?_⟩, ?_⟩
  · show ¬ b = 224 ∨ 160 ≤ 128 + n
    omega
  · show ¬ b = 237 ∨ 128 + n < 160
    omega
  · show ¬ b = 240 ∨ 144 ≤ 128 + n
    omega
  · show ¬ b = 244 ∨ 128 + n < 144
    omega

/-- A first byte and the bytes that carry six bits each are read as the number they spell. -/
theorem form_bits {b : Nat} {ds : List Nat} (hb : b < 256) (hds : ∀ d ∈ ds, d < 64)
    (hlength : following b.toUInt8 = some ds.length) (hsecond : ∀ d ∈ ds.head?, SecondBits b d)
    (rest : Bytes) : form b.toUInt8 (ds.map (fun d => (0x80 + d).toUInt8) ++ rest) =
      .ok (ds.foldl (fun v d => v * 64 + d) (leadBits ds.length b.toUInt8), ds.length) := by
  have hfold : ∀ v, (ds.map fun d => (0x80 + d).toUInt8).foldl
      (fun v c => v * 64 + c.toNat % 64) v = ds.foldl (fun v d => v * 64 + d) v := by
    intro v
    rw [List.foldl_map]
    refine List.foldl_ext _ _ _ fun v d hd => ?_
    have := hds d hd
    rw [toNat_byte (by omega)]
    omega
  rw [form_tail rest (by rw [hlength, List.length_map]), List.length_map, hfold]
  · intro c hc
    rw [List.head?_map, Option.mem_def, Option.map_eq_some_iff] at hc
    obtain ⟨d, hd, rfl⟩ := hc
    exact second_byte hb (hds d (List.mem_of_mem_head? hd)) (hsecond d hd)
  · intro c hc
    obtain ⟨d, hd, rfl⟩ := List.mem_map.1 hc
    exact continuation_byte (hds d hd)

/-- What a character is written as is read as its code point. -/
theorem form_char (c : Char) (rest : Bytes) : ∃ b tail, encodeChar c = b :: tail ∧
    form b (tail ++ rest) = .ok (c.toNat, tail.length) := by
  have hvalid : c.toNat < 0xD800 ∨ (0xDFFF < c.toNat ∧ c.toNat < 0x110000) := c.valid
  unfold encodeChar
  generalize c.toNat = n at hvalid ⊢
  by_cases h1 : n < 0x80
  · refine ⟨n.toUInt8, [], by simp only [h1, if_true], ?_⟩
    have hlead : following n.toUInt8 = some 0 := by rw [following_byte (by omega), if_pos h1]
    have := @form_bits n [] (by omega) (by simp) hlead (by simp) rest
    simpa [leadBits, toNat_byte (show n < 256 by omega)] using this
  · by_cases h2 : n < 0x800
    · refine ⟨(0xC0 + n / 64).toUInt8, [(0x80 + n % 64).toUInt8],
        by simp only [h1, h2, if_true, if_false], ?_⟩
      have hlead : following (0xC0 + n / 64).toUInt8 = some 1 := by
        rw [following_byte (by omega), if_neg (by omega), if_pos (by omega)]
      have hform := @form_bits _ [n % 64] (by omega) (by simp; omega) hlead
        (by simp [SecondBits]; omega) rest
      refine hform.trans ?_
      simp only [List.foldl_cons, List.foldl_nil, List.length_cons, List.length_nil, leadBits,
        toNat_byte (show 0xC0 + n / 64 < 256 by omega)]
      congr 2
      omega
    · by_cases h3 : n < 0x10000
      · refine ⟨(0xE0 + n / 4096).toUInt8,
          [(0x80 + n / 64 % 64).toUInt8, (0x80 + n % 64).toUInt8],
          by simp only [h1, h2, h3, if_true, if_false], ?_⟩
        have hlead : following (0xE0 + n / 4096).toUInt8 = some 2 := by
          rw [following_byte (by omega), if_neg (by omega), if_neg (by omega), if_pos (by omega)]
        have hform := @form_bits _ [n / 64 % 64, n % 64] (by omega) (by simp; omega) hlead
          (by simp [SecondBits]; omega) rest
        refine hform.trans ?_
        simp only [List.foldl_cons, List.foldl_nil, List.length_cons, List.length_nil, leadBits,
          toNat_byte (show 0xE0 + n / 4096 < 256 by omega)]
        congr 2
        omega
      · refine ⟨(0xF0 + n / 262144).toUInt8, [(0x80 + n / 4096 % 64).toUInt8,
          (0x80 + n / 64 % 64).toUInt8, (0x80 + n % 64).toUInt8],
          by simp only [h1, h2, h3, if_false], ?_⟩
        have hlead : following (0xF0 + n / 262144).toUInt8 = some 3 := by
          rw [following_byte (by omega), if_neg (by omega), if_neg (by omega), if_neg (by omega),
            if_pos (by omega)]
        have hform := @form_bits _ [n / 4096 % 64, n / 64 % 64, n % 64] (by omega)
          (by simp; omega) hlead (by simp [SecondBits]; omega) rest
        refine hform.trans ?_
        simp only [List.foldl_cons, List.foldl_nil, List.length_cons, List.length_nil, leadBits,
          toNat_byte (show 0xF0 + n / 262144 < 256 by omega)]
        congr 2
        omega

/-! Texts. -/

theorem decode_skip (i : Nat) (bs rest : Bytes) :
    decodeFrom i bs.length (bs ++ rest) = decodeFrom (i + bs.length) 0 rest := by
  induction bs generalizing i with
  | nil => rfl
  | cons b bs ih =>
    rw [List.length_cons, List.cons_append, decodeFrom, ih (i + 1), Nat.add_right_comm,
      Nat.add_assoc]

theorem decode_from_encode (t : Text) (i : Nat) : decodeFrom i 0 (encode t) = .ok t := by
  induction t generalizing i with
  | nil => rfl
  | cons c t ih =>
    obtain ⟨b, tail, hchar, hform⟩ := form_char c (encode t)
    have hencode : encode (c :: t) = b :: (tail ++ encode t) := by
      show encodeChar c ++ encode t = _
      rw [hchar, List.cons_append]
    rw [hencode, decodeFrom, hform]
    simp only
    rw [decode_skip, ih, Char.ofNat_toNat]
    rfl

theorem decode_encode (t : Text) : decode (encode t) = .ok t := decode_from_encode t 0

/-! Line ends. -/

theorem unify_plain {t : Text} (h : '\r' ∉ t) : unifyLineEnds t = t := by
  induction t with
  | nil => rfl
  | cons c t ih =>
    have hc : c ≠ '\r' := fun hc => h (by simp [hc])
    have ht : '\r' ∉ t := fun ht => h (by simp [ht])
    rw [unifyLineEnds.eq_3 _ _ (by rintro _ rfl _; exact hc rfl), if_neg hc, ih ht]

/-- No carriage return is left. -/
theorem return_unified (t : Text) : '\r' ∉ unifyLineEnds t := by
  induction t using unifyLineEnds.induct with
  | case1 => simp [unifyLineEnds]
  | case2 cs ih =>
    rw [unifyLineEnds]
    simpa using ih
  | case3 c cs hcs ih =>
    rw [unifyLineEnds.eq_3 _ _ hcs, List.mem_cons, not_or]
    refine ⟨?_, ih⟩
    split
    · decide
    · next hc => exact Ne.symm hc

/-- A word without line ends that begins a text with unified line ends begins the text itself. -/
theorem prefix_of_unified {w t : Text} (hw : '\n' ∉ w) (h : w <+: unifyLineEnds t) : w <+: t := by
  induction w generalizing t with
  | nil => exact List.nil_prefix
  | cons d w ih =>
    have hd : d ≠ '\n' := fun hd => hw (by simp [hd])
    fun_cases unifyLineEnds t with
    | case1 => simp [unifyLineEnds] at h
    | case2 cs =>
      rw [unifyLineEnds] at h
      exact absurd (List.cons_prefix_cons.1 h).1 hd
    | case3 c cs hcs =>
      rw [unifyLineEnds.eq_3 _ _ hcs] at h
      obtain ⟨hc, h⟩ := List.cons_prefix_cons.1 h
      split at hc
      · exact absurd hc hd
      · rw [hc]
        exact List.cons_prefix_cons.2 ⟨rfl, ih (fun hm => hw (by simp [hm])) h⟩

/-- A word without line ends occurs in a text with unified line ends only if it does in the text
itself. -/
theorem infix_of_unified {w t : Text} (hw : '\n' ∉ w) (h : w <:+: unifyLineEnds t) : w <:+: t := by
  induction t using unifyLineEnds.induct with
  | case1 => exact h
  | case2 cs ih =>
    rw [unifyLineEnds] at h
    rcases List.infix_cons_iff.1 h with h | h
    · cases w with
      | nil => exact List.nil_infix
      | cons d w => exact absurd (by simp [(List.cons_prefix_cons.1 h).1]) hw
    · exact (ih h).trans (List.infix_append' ['\r', '\n'] cs [] |>.trans (by simp))
  | case3 c cs hcs ih =>
    rw [unifyLineEnds.eq_3 _ _ hcs] at h
    rcases List.infix_cons_iff.1 h with hp | h
    · refine (prefix_of_unified hw (t := c :: cs) ?_).isInfix
      rw [unifyLineEnds.eq_3 _ _ hcs]
      exact hp
    · exact (ih h).trans (List.suffix_cons c cs).isInfix

end Restage.Utf8
