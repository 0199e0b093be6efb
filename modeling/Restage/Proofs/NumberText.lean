import Restage.Json.Parser
import Restage.Json.Printer
import Restage.Proofs.ShortestDecimal

/-!
Numbers written and read. The text of a canonical number, with anything behind it that does not go
on with the number, reads back as that number (`finite_text_reads`), and so does the text of an
integer (`int_text_reads`).
-/

set_option autoImplicit false

namespace Restage

open Json

/-! Decimal digits. -/

namespace Text

theorem decimal_digits {n : Nat} {c : Char} (h : c ∈ decimal n) : isDigit c = true := by
  have := Nat.isDigit_of_mem_toDigits (by norm_num) (by norm_num) h
  simp only [Char.isDigit, Bool.and_eq_true, decide_eq_true_eq] at this
  simp only [isDigit, Bool.and_eq_true, decide_eq_true_eq]
  exact this

theorem decimal_head {n : Nat} (hn : 0 < n) : ∃ c cs, decimal n = c :: cs ∧ c ≠ '0' := by
  induction n using Nat.strong_induction_on with
  | _ n ih =>
    rw [decimal, Nat.toDigits_eq_if (by norm_num)]
    split
    · next h =>
      refine ⟨_, [], rfl, ?_⟩
      interval_cases n <;> decide
    · obtain ⟨c, cs, hcs, hc⟩ := ih (n / 10) (by omega) (by omega)
      rw [decimal] at hcs
      exact ⟨c, cs ++ [(n % 10).digitChar], by rw [hcs]; rfl, hc⟩

end Text

namespace Json

theorem digits_value_from (ds : Text) (n : Nat) :
    ds.foldl (fun n d => n * 10 + (d.toNat - 48)) n = n * 10 ^ ds.length + digitsValue ds := by
  induction ds generalizing n with
  | nil => simp [digitsValue]
  | cons d ds ih =>
    have hcons : digitsValue (d :: ds) =
        (0 * 10 + (d.toNat - 48)) * 10 ^ ds.length + digitsValue ds := ih _
    rw [List.foldl_cons, ih, hcons, List.length_cons, pow_succ]
    ring

theorem digits_value_append (ds es : Text) :
    digitsValue (ds ++ es) = digitsValue ds * 10 ^ es.length + digitsValue es := by
  rw [digitsValue, List.foldl_append, digits_value_from]
  rfl

theorem digits_value_zeros (n : Nat) : digitsValue (List.replicate n '0') = 0 := by
  induction n with
  | zero => rfl
  | succ n ih => rw [List.replicate_succ', digits_value_append, ih]; rfl

theorem digits_value_decimal (n : Nat) : digitsValue (Text.decimal n) = n := by
  have h := @Nat.ofDigitChars_ten_toDigits n
  rw [Nat.ofDigitChars] at h
  rw [digitsValue, Text.decimal]
  simpa [Nat.mul_comm] using h

/-! The parts of a number. -/

/-- Digits of an integer part: a zero, or digits that begin with another one. -/
def Whole (ds : Text) : Prop :=
  ds = ['0'] ∨ ∃ c cs, ds = c :: cs ∧ c ≠ '0' ∧ ∀ d ∈ ds, Text.isDigit d = true

/-- What a class of characters does not go on with. -/
def Stops (p : Char → Bool) (tail : Text) : Prop := ∀ c ∈ tail.head?, p c = false

theorem take_drop_while {p : Char → Bool} {ds tail : Text} (hds : ∀ d ∈ ds, p d = true)
    (htail : Stops p tail) :
    (ds ++ tail).takeWhile p = ds ∧ (ds ++ tail).dropWhile p = tail := by
  have hnone : tail.takeWhile p = [] ∧ tail.dropWhile p = tail := by
    cases tail with
    | nil => exact ⟨rfl, rfl⟩
    | cons c cs =>
      have hc := htail c rfl
      exact ⟨by rw [List.takeWhile_cons_of_neg (by simp [hc])],
        by rw [List.dropWhile_cons_of_neg (by simp [hc])]⟩
  rw [List.takeWhile_append_of_pos hds, List.dropWhile_append_of_pos hds, hnone.1, hnone.2,
    List.append_nil]
  exact ⟨rfl, rfl⟩

theorem integer_part_reads {ds tail : Text} (hds : Whole ds) (htail : Stops Text.isDigit tail) :
    integerPart? (ds ++ tail) = some (ds, tail) := by
  rcases hds with rfl | ⟨c, cs, rfl, hc, hdigits⟩
  · rfl
  · obtain ⟨htake, hdrop⟩ := take_drop_while hdigits htail
    rw [List.cons_append] at htake hdrop ⊢
    rw [integerPart?.eq_def]
    split
    · next heq =>
      rw [List.cons.injEq] at heq
      exact absurd heq.1 hc
    · next heq =>
      rw [List.cons.injEq] at heq
      rw [← heq.1, ← heq.2, if_pos (hdigits c (by simp)), htake, hdrop]
    · next heq => simp at heq

theorem fraction_reads {ds tail : Text} (hsome : ds ≠ []) (hds : ∀ d ∈ ds, Text.isDigit d = true)
    (htail : Stops Text.isDigit tail) : fraction ('.' :: (ds ++ tail)) = (ds, tail) := by
  obtain ⟨htake, hdrop⟩ := take_drop_while hds htail
  obtain ⟨c, cs, rfl⟩ := List.exists_cons_of_ne_nil hsome
  have hhead : (c :: cs ++ tail).head?.any Text.isDigit = true := by simp [hds c]
  rw [fraction, if_pos hhead, htake, hdrop]

theorem fraction_none {tail : Text} (htail : Stops (· == '.') tail) :
    fraction tail = ([], tail) := by
  cases tail with
  | nil => rfl
  | cons c cs =>
    have hc : c ≠ '.' := by simpa using htail c rfl
    rw [fraction]
    simpa using hc

/-- The letters that begin an exponent. -/
def isExponentMark (c : Char) : Bool := c == 'e' || c == 'E'

theorem exponent_none {tail : Text} (htail : Stops isExponentMark tail) :
    exponent tail = (none, tail) := by
  cases tail with
  | nil => rfl
  | cons c cs =>
    have hc : ¬ (c = 'e' ∨ c = 'E') := by simpa [isExponentMark] using htail c rfl
    rw [exponent.eq_def]
    split
    · next heq =>
      rw [List.cons.injEq] at heq
      rw [if_neg (heq.1 ▸ hc)]
    · next heq =>
      rw [List.cons.injEq] at heq
      rw [if_neg (heq.1 ▸ hc)]
    · next heq =>
      rw [List.cons.injEq] at heq
      rw [if_neg (heq.1 ▸ hc)]
    · next heq => simp at heq

theorem exponent_reads (negative : Bool) {ds tail : Text} (hsome : ds ≠ [])
    (hds : ∀ d ∈ ds, Text.isDigit d = true) (htail : Stops Text.isDigit tail) :
    exponent ('e' :: (if negative then '-' else '+') :: (ds ++ tail)) =
      (some (if negative then -(digitsValue ds : Int) else digitsValue ds), tail) := by
  obtain ⟨htake, hdrop⟩ := take_drop_while hds htail
  obtain ⟨c, cs, rfl⟩ := List.exists_cons_of_ne_nil hsome
  have hhead : (c :: cs ++ tail).head?.any Text.isDigit = true := by simp [hds c]
  cases negative with
  | true => simp only [if_true, exponent, exponentDigits, hhead, htake, hdrop, true_or]
  | false =>
    simp only [Bool.false_eq_true, if_false, exponent, exponentDigits, hhead, htake, hdrop, true_or,
      if_true]

theorem whole_of_decimal (n : Nat) : Whole (Text.decimal n) := by
  rcases Nat.eq_zero_or_pos n with rfl | hn
  · exact Or.inl rfl
  · obtain ⟨c, cs, hcs, hc⟩ := Text.decimal_head hn
    exact Or.inr ⟨c, cs, hcs, hc, fun d hd => Text.decimal_digits hd⟩

theorem whole_not_signed {whole : Text} (h : Whole whole) (r cs : Text) :
    whole ++ r ≠ '-' :: cs := by
  rcases h with rfl | ⟨c, rest, rfl, hc, hdigits⟩
  · simp
  · intro heq
    rw [List.cons_append, List.cons.injEq] at heq
    exact absurd (hdigits c (by simp)) (by rw [heq.1]; decide)

/-- A number is read part by part. -/
theorem number_of_parts {negative : Bool} {whole frac r r' tail : Text} {exp : Option Int}
    (hwhole : Whole whole) (hr : Stops Text.isDigit r) (hfrac : fraction r = (frac, r'))
    (hexp : exponent r' = (exp, tail)) :
    number? (Binary64.sign negative ++ (whole ++ r)) = some
      (if frac.isEmpty ∧ exp.isNone then
        .int (if negative then -(digitsValue whole : Int) else digitsValue whole)
      else .real (Binary64.ofDecimal negative (digitsValue (whole ++ frac))
        (exp.getD 0 - frac.length)), tail) := by
  have hint := integer_part_reads hwhole hr
  unfold number?
  cases negative with
  | true =>
    simp only [Binary64.sign, if_true, List.cons_append, List.nil_append, hint, hfrac, hexp]
    by_cases h : frac.isEmpty ∧ exp.isNone
    · rw [if_pos h, if_pos h]
    · rw [if_neg h, if_neg h]
  | false =>
    rw [show Binary64.sign false ++ (whole ++ r) = whole ++ r from rfl]
    split
    next body heq =>
      split at heq
      · next h => exact absurd h (whole_not_signed hwhole r _)
      · injection heq with hnegative hbody
        rw [← hnegative, ← hbody, hint]
        simp only [hfrac, hexp]
        by_cases h : frac.isEmpty ∧ exp.isNone
        · rw [if_pos h, if_pos h]
        · rw [if_neg h, if_neg h]

/-- The characters that a number goes on with. -/
def continues (c : Char) : Bool := Text.isDigit c || c == '.' || isExponentMark c

theorem stops_of_continues {p : Char → Bool} {tail : Text} (h : Stops continues tail)
    (hp : ∀ c, p c = true → continues c = true) : Stops p tail := fun c hc => by
  have := h c hc
  cases hpc : p c with
  | false => rfl
  | true => simp [hp c hpc] at this

section

variable {tail : Text} (htail : Stops continues tail)
include htail

theorem stops_digit : Stops Text.isDigit tail :=
  stops_of_continues htail fun c h => by simp [continues, h]

theorem stops_point : Stops (· == '.') tail :=
  stops_of_continues htail fun c h => by simp [continues, h]

theorem stops_mark : Stops isExponentMark tail :=
  stops_of_continues htail fun c h => by simp [continues, h]

/-- The text of an integer reads back. -/
theorem int_text_reads (i : Int) : number? (Text.ofInt i ++ tail) = some (.int i, tail) := by
  have hsign : Text.ofInt i ++ tail =
      Binary64.sign (decide (i < 0)) ++ (Text.decimal i.natAbs ++ tail) := by
    rw [Text.ofInt, Binary64.sign]
    split <;> simp_all
  rw [hsign, number_of_parts (whole_of_decimal _) (stops_digit htail)
    (fraction_none (stops_point htail)) (exponent_none (stops_mark htail)), digits_value_decimal]
  simp only [List.isEmpty_nil, Option.isNone_none, and_self, if_true, decide_eq_true_eq,
    Option.some.injEq, Prod.mk.injEq, Value.int.injEq, and_true]
  split <;> omega

/-- Digits with a point among or after them. -/
theorem pointed_reads (negative : Bool) {whole frac : Text} (hwhole : Whole whole)
    (hsome : frac ≠ []) (hfrac : ∀ d ∈ frac, Text.isDigit d = true) :
    number? (Binary64.sign negative ++ (whole ++ '.' :: (frac ++ tail))) =
      some (.real (Binary64.ofDecimal negative (digitsValue (whole ++ frac)) (-frac.length)),
        tail) := by
  rw [number_of_parts hwhole (by intro c hc; simp at hc; subst hc; decide)
    (fraction_reads hsome hfrac (stops_digit htail)) (exponent_none (stops_mark htail))]
  rw [if_neg (by simp [hsome])]
  simp

/-- Digits with an exponent. -/
theorem scientific_reads (negative below : Bool) {whole frac size : Text} (hwhole : Whole whole)
    (hfrac : ∀ d ∈ frac, Text.isDigit d = true) (hsome : size ≠ [])
    (hsize : ∀ d ∈ size, Text.isDigit d = true) :
    number? (Binary64.sign negative ++ (whole ++ ((if frac = [] then [] else '.' :: frac) ++
        'e' :: (if below then '-' else '+') :: (size ++ tail)))) =
      some (.real (Binary64.ofDecimal negative (digitsValue (whole ++ frac))
        ((if below then -(digitsValue size : Int) else digitsValue size) - frac.length)),
          tail) := by
  have hexp := exponent_reads below hsome hsize (stops_digit htail)
  have hmark : ∀ p : Char → Bool, p 'e' = false →
      Stops p ('e' :: (if below then '-' else '+') :: (size ++ tail)) := fun p hp c hc => by
    simp at hc
    rw [← hc, hp]
  by_cases hnil : frac = []
  · subst hnil
    rw [if_pos rfl, List.nil_append, number_of_parts hwhole (hmark _ (by decide))
      (fraction_none (hmark _ (by decide))) hexp]
    simp
  · rw [if_neg hnil, List.cons_append, number_of_parts hwhole
      (by intro c hc; simp at hc; subst hc; decide)
      (fraction_reads hnil hfrac (hmark _ (by decide))) hexp]
    simp

end

/-- A text that is read as a number of a given value, whatever follows it. -/
def ReadsAs (negative : Bool) (t : Text) (x : ℚ) : Prop :=
  ∀ tail, Stops continues tail → ∃ (digits : Nat) (e : Int), 0 < digits ∧
    (digits * 10 ^ e : ℚ) = x ∧
    number? (Binary64.sign negative ++ (t ++ tail)) =
      some (.real (Binary64.ofDecimal negative digits e), tail)

/-- The decimal digits of a positive number. -/
structure Digits (ds : Text) (d : Nat) : Prop where
  positive : 0 < d
  value : digitsValue ds = d
  digit : ∀ c ∈ ds, Text.isDigit c = true
  leading : ∃ c cs, ds = c :: cs ∧ c ≠ '0'

theorem decimal_are_digits {d : Nat} (hd : 0 < d) : Digits (Text.decimal d) d :=
  ⟨hd, digits_value_decimal d, fun _ hc => Text.decimal_digits hc, Text.decimal_head hd⟩

theorem zeros_digit {n : Nat} {c : Char} (h : c ∈ List.replicate n '0') :
    Text.isDigit c = true := by
  rw [List.eq_of_mem_replicate h]
  rfl

/-- An exponent is written with two digits at least. -/
theorem padded_digits {n : Nat} {size : Text} (h : (if (Text.decimal n).length < 2 then
    '0' :: Text.decimal n else Text.decimal n) = size) :
    size ≠ [] ∧ (∀ c ∈ size, Text.isDigit c = true) ∧ digitsValue size = n := by
  have hvalue : digitsValue ('0' :: Text.decimal n) = n := by
    have := digits_value_append ['0'] (Text.decimal n)
    rw [digits_value_decimal] at this
    simpa [digitsValue] using this
  subst h
  split
  · refine ⟨by simp, fun c hc => ?_, hvalue⟩
    rcases List.mem_cons.1 hc with rfl | hc
    · rfl
    · exact Text.decimal_digits hc
  · exact ⟨Nat.toDigits_ne_nil, fun c hc => Text.decimal_digits hc, digits_value_decimal n⟩

section

variable {ds : Text} {d : Nat} (h : Digits ds d) (negative : Bool)
include h

/-- Zeros between the point and the digits. -/
theorem small_reads (n : Nat) : ReadsAs negative ("0.".toList ++ List.replicate n '0' ++ ds)
    (d * 10 ^ (-n - ds.length : Int)) := by
  intro tail htail
  obtain ⟨c, cs, hcs, _⟩ := h.leading
  refine ⟨d, _, h.positive, rfl, ?_⟩
  have hsome : List.replicate n '0' ++ ds ≠ [] := by simp [hcs]
  have hread := pointed_reads htail negative (Or.inl rfl : Whole ['0']) hsome
    fun c hc => (List.mem_append.1 hc).elim zeros_digit (h.digit c)
  have hlength : -((List.replicate n '0' ++ ds).length : Int) = -n - ds.length := by
    rw [List.length_append, List.length_replicate]
    omega
  have hvalue : digitsValue (['0'] ++ (List.replicate n '0' ++ ds)) = d := by
    rw [digits_value_append, digits_value_append, digits_value_zeros, h.value]
    simp [digitsValue]
  rw [hlength, hvalue] at hread
  simpa using hread

/-- Zeros between the digits and the point. -/
theorem large_reads (n : Nat) : ReadsAs negative (ds ++ List.replicate n '0' ++ ".0".toList)
    (d * 10 ^ (n : Int)) := by
  intro tail htail
  obtain ⟨c, cs, hcs, hc⟩ := h.leading
  have hpos := h.positive
  refine ⟨d * 10 ^ n * 10, -1, by positivity, ?_, ?_⟩
  · push_cast
    rw [zpow_natCast]
    norm_num
    ring
  have hwhole : Whole (ds ++ List.replicate n '0') :=
    Or.inr ⟨c, cs ++ List.replicate n '0', by rw [hcs]; rfl, hc,
      fun c hc => (List.mem_append.1 hc).elim (h.digit c) zeros_digit⟩
  have hread := pointed_reads htail negative hwhole (List.cons_ne_nil '0' []) (by decide)
  have hvalue : digitsValue (ds ++ List.replicate n '0' ++ ['0']) = d * 10 ^ n * 10 := by
    rw [digits_value_append, digits_value_append, digits_value_zeros, h.value]
    simp [digitsValue]
  rw [hvalue] at hread
  simpa using hread

/-- The first digits of a positive number are an integer part. -/
theorem whole_take (n : Nat) : Whole (ds.take (n + 1)) := by
  obtain ⟨c, cs, hcs, hc⟩ := h.leading
  exact Or.inr ⟨c, cs.take n, by rw [hcs]; rfl, hc,
    fun c hc => h.digit c (List.mem_of_mem_take hc)⟩

/-- The point among the digits. -/
theorem among_reads {n : Nat} (hn : n + 1 < ds.length) :
    ReadsAs negative (ds.take (n + 1) ++ ['.'] ++ ds.drop (n + 1))
      (d * 10 ^ ((n + 1 : Nat) - ds.length : Int)) := by
  intro tail htail
  refine ⟨d, _, h.positive, rfl, ?_⟩
  have hsome : ds.drop (n + 1) ≠ [] := by
    rw [Ne, List.drop_eq_nil_iff]
    omega
  have hread := pointed_reads htail negative (whole_take h n) hsome
    fun c hc => h.digit c (List.mem_of_mem_drop hc)
  have hlength : -((ds.drop (n + 1)).length : Int) = (n + 1 : Nat) - ds.length := by
    rw [List.length_drop]
    omega
  rw [List.take_append_drop, h.value, hlength] at hread
  simpa using hread

/-- One digit before the point, and an exponent. -/
theorem mantissa_reads (below : Bool) {size : Text} (hsome : size ≠ [])
    (hsize : ∀ c ∈ size, Text.isDigit c = true) :
    ReadsAs negative (ds.take 1 ++ (if ds.length ≤ 1 then [] else '.' :: ds.drop 1) ++
        ['e', if below then '-' else '+'] ++ size)
      (d * 10 ^ ((if below then -(digitsValue size : Int) else digitsValue size) -
        (ds.length - 1))) := by
  intro tail htail
  obtain ⟨c, cs, hcs, _⟩ := h.leading
  refine ⟨d, _, h.positive, rfl, ?_⟩
  have hfrac : ∀ c ∈ ds.drop 1, Text.isDigit c = true := fun c hc =>
    h.digit c (List.mem_of_mem_drop hc)
  have hread := scientific_reads htail negative below (whole_take h 0) hfrac hsome hsize
  have hlength : ((ds.drop 1).length : Int) = ds.length - 1 := by
    rw [List.length_drop, hcs, List.length_cons]
    omega
  have hnil : ds.drop 1 = [] ↔ ds.length ≤ 1 := List.drop_eq_nil_iff
  rw [List.take_append_drop, h.value, hlength] at hread
  simp only [hnil] at hread
  simpa using hread

/-- Digits with their point are read as a number of the same value. -/
theorem place_reads (point : Int) :
    ReadsAs negative (Binary64.place ds point) (d * 10 ^ (point - ds.length)) := by
  rw [Binary64.place]
  simp only
  by_cases hplain : -4 < point ∧ point ≤ 16
  · rw [if_pos hplain]
    by_cases hneg : point ≤ 0
    · rw [if_pos hneg]
      have hpoint : -((-point).toNat : Int) = point := by omega
      simpa only [hpoint] using small_reads h negative (-point).toNat
    · rw [if_neg hneg]
      by_cases hall : (ds.length : Int) ≤ point
      · rw [if_pos hall]
        have hpoint : ((point - ds.length).toNat : Int) = point - ds.length := by omega
        simpa only [hpoint] using large_reads h negative (point - ds.length).toNat
      · rw [if_neg hall]
        obtain ⟨n, hn⟩ : ∃ n, point.toNat = n + 1 := ⟨point.toNat - 1, by omega⟩
        have hpoint : ((n + 1 : Nat) : Int) = point := by omega
        rw [hn]
        simpa only [hpoint] using among_reads h negative (n := n) (by omega)
  · rw [if_neg hplain]
    generalize hsize : (if (Text.decimal (point - 1).natAbs).length < 2 then
      '0' :: Text.decimal (point - 1).natAbs else Text.decimal (point - 1).natAbs) = size
    obtain ⟨hsome, hdigit, hvalue⟩ := padded_digits hsize
    have hread := mantissa_reads h negative (decide (point - 1 < 0)) hsome hdigit
    have hexponent : (if decide (point - 1 < 0) = true then -(digitsValue size : Int)
        else digitsValue size) - (ds.length - 1) = point - ds.length := by
      rw [hvalue]
      simp only [decide_eq_true_eq]
      split <;> omega
    rw [hexponent] at hread
    simpa only [decide_eq_true_eq] using hread

end

/-- The text of a finite number reads back. -/
theorem finite_text_reads {negative : Bool} {m : Nat} {q : Int} (h : Binary64.Canonical m q)
    {tail : Text} (htail : Stops continues tail) :
    number? (Binary64.finiteText negative m q ++ tail) =
      some (.real (.finite negative m q), tail) := by
  rw [Binary64.finiteText]
  rcases Nat.eq_zero_or_pos m with rfl | hm
  · have hread := pointed_reads htail negative (Or.inl rfl : Whole ['0'])
      (List.cons_ne_nil '0' []) (by decide)
    have hzero : q = Binary64.leastExponent := h.normal.resolve_left (by norm_num)
    have hvalue : Binary64.ofDecimal negative (digitsValue (['0'] ++ ['0']))
        (-(['0'].length : Int)) = .finite negative 0 q := by
      rw [hzero]
      rfl
    rw [hvalue] at hread
    simpa using hread
  · rw [if_neg hm.ne']
    have hinside := Binary64.shortest_inside hm h
    simp only
    generalize Binary64.shortest m q = s at *
    have hpos : 0 < s.1 := by
      have hmagnitude := (Binary64.inside_magnitude hm h hinside).1
      rcases Nat.eq_zero_or_pos s.1 with hzero | hpos
      · rw [hzero, Nat.cast_zero, zero_mul] at hmagnitude
        exact absurd hmagnitude (not_lt.2 (by positivity))
      · exact hpos
    obtain ⟨hstripped, hvalue⟩ := Binary64.strip_zeros_value 20 hpos s.2
    generalize Binary64.stripZeros 20 s.1 s.2 = r at *
    obtain ⟨digits, e, hdigits, hsame, hread⟩ :=
      place_reads (decimal_are_digits hstripped) negative (r.2 + (Text.decimal r.1).length) tail
        htail
    rw [add_sub_cancel_right, hvalue] at hsame
    rw [List.append_assoc, hread, Binary64.of_decimal_inside hm h hdigits (hsame ▸ hinside)]

end Json
end Restage
