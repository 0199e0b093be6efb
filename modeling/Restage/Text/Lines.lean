import Restage.Text.Basic

/-!
Lines of a text with their terminators. They concatenate to the text (`flatten_lines`).
-/

set_option autoImplicit false

namespace Restage.Text

/-- Characters that end a line by themselves. -/
def endsLine (c : Char) : Bool :=
  let n := c.toNat
  (10 ≤ n && n ≤ 13) || (28 ≤ n && n ≤ 30) || n == 0x85 || n == 0x2028 || n == 0x2029

/-- Puts a character in front of the first line. -/
def consLine (c : Char) : List Text → List Text
  | [] => [[c]]
  | l :: ls => (c :: l) :: ls

/-- The lines of a text; a carriage return and a line feed end one line together. -/
def lines : Text → List Text
  | [] => []
  | [c] => [[c]]
  | c :: d :: cs =>
    if endsLine c && !(c == '\r' && d == '\n') then [c] :: lines (d :: cs)
    else consLine c (lines (d :: cs))

theorem flatten_consLine (c : Char) (ls : List Text) :
    (consLine c ls).flatten = c :: ls.flatten := by
  cases ls <;> simp [consLine]

theorem flatten_lines (t : Text) : (lines t).flatten = t := by
  fun_induction lines t with
  | case1 => rfl
  | case2 c => rfl
  | case3 c d cs _ ih => simp [ih]
  | case4 c d cs _ ih => rw [flatten_consLine, ih]

end Restage.Text
