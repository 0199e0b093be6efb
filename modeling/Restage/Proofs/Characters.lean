import Mathlib
import Restage.Text.Pattern

/-!
The characters of names, indents and blanks: these classes are apart from each other and from the
marks of a script.
-/

set_option autoImplicit false

namespace Restage.Text

/-- The numbers of the blank characters. -/
def blankCodes : List Nat :=
  List.range' 9 5 ++ List.range' 28 5 ++ [0x85, 0xA0, 0x1680] ++ List.range' 0x2000 11 ++
    [0x2028, 0x2029, 0x202F, 0x205F, 0x3000]

theorem blank_code {c : Char} (h : isBlank c = true) : c.toNat ∈ blankCodes := by
  simp only [isBlank, Bool.or_eq_true, Bool.and_eq_true, decide_eq_true_eq, beq_iff_eq] at h
  simp only [blankCodes, List.mem_append, List.mem_range'_1, List.mem_cons, List.not_mem_nil]
  omega

theorem blank_not_part {c : Char} (h : isBlank c = true) : isNamePart c = false := by
  have hall : ∀ n ∈ blankCodes, isNamePart (Char.ofNat n) = false := by decide +kernel
  rw [← Char.ofNat_toNat c]
  exact hall _ (blank_code h)

theorem indent_blank {c : Char} (h : Piece.isIndent c = true) : isBlank c = true := by
  simp only [Piece.isIndent, Bool.or_eq_true, beq_iff_eq] at h
  rcases h with rfl | rfl <;> decide

theorem start_part {c : Char} (h : isNameStart c = true) : isNamePart c = true := by
  simp only [isNameStart, Bool.or_eq_true, beq_iff_eq] at h
  rcases h with (h | rfl) | rfl
  · have hlt : c.toNat < 128 := by
      simp only [Char.isAlpha, Char.isUpper, Char.isLower, Bool.or_eq_true, Bool.and_eq_true,
        decide_eq_true_eq, UInt32.le_iff_toNat_le, ge_iff_le] at h
      have hc : c.toNat = c.val.toNat := rfl
      have hZ : 'Z'.val.toNat = 90 := rfl
      have hz : 'z'.val.toNat = 122 := rfl
      omega
    simp [isNamePart, isWord, hlt, Char.isAlphanum, h]
  · decide
  · decide

theorem name_parts {t : Text} (h : isName t = true) : ∀ c ∈ t, isNamePart c = true := by
  cases t with
  | nil => simp
  | cons c t =>
    simp only [isName, Bool.and_eq_true, List.all_eq_true] at h
    intro d hd
    rcases List.mem_cons.1 hd with rfl | hd
    · exact start_part h.1
    · exact h.2 d hd

theorem name_head {t : Text} (h : isName t = true) :
    ∃ c u, t = c :: u ∧ isNameStart c = true := by
  cases t with
  | nil => simp [isName] at h
  | cons c t =>
    simp only [isName, Bool.and_eq_true] at h
    exact ⟨c, t, rfl, h.1⟩

theorem not_mem_of_all {p : Char → Bool} {x : Char} {t : Text} (h : ∀ c ∈ t, p c = true)
    (hx : p x = false) : x ∉ t := by
  intro hm
  simp [h x hm] at hx

end Restage.Text
