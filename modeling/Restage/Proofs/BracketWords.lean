import Restage.Proofs.VisibleCode
import Restage.Script.Bracket

/-!
Brackets that pair up. `pairUp` reads brackets of all kinds with a stack of the open ones; a text
whose brackets pair up leaves every stack as it was (`balanced_over`), and a script whose visible
brackets do so has no mismatch (`mismatch_none`).
-/

set_option autoImplicit false

namespace Restage.Script

/-- The open brackets after a text, innermost first; none at a closer that does not fit. -/
def pairUp : List Char → Text → Option (List Char)
  | st, [] => some st
  | st, c :: cs =>
    if (closerOf? c).isSome then pairUp (c :: st) cs
    else if isCloser c then
      match st with
      | [] => none
      | o :: os => if closerOf? o = some c then pairUp os cs else none
    else pairUp st cs

/-- The brackets of a text pair up. -/
def Balanced (t : Text) : Prop := pairUp [] t = some []

instance (t : Text) : Decidable (Balanced t) := inferInstanceAs (Decidable (pairUp [] t = some []))

def isBracket (c : Char) : Bool := (closerOf? c).isSome || isCloser c

theorem pair_append (st : List Char) (u v : Text) :
    pairUp st (u ++ v) = (pairUp st u).bind fun st' => pairUp st' v := by
  fun_induction pairUp st u with
  | case1 st => rfl
  | case2 st c cs hc ih => simp [pairUp, hc, ih]
  | case3 c cs hc hcl => simp [pairUp, hc, hcl]
  | case4 c cs hc hcl o os ho ih => simp [pairUp, hc, hcl, ho, ih]
  | case5 c cs hc hcl o os ho => simp [pairUp, hc, hcl, ho]
  | case6 st c cs hc hcl ih => simp [pairUp, hc, hcl, ih]

/-- What lies below the open brackets has no part in it. -/
theorem pair_below {st st' : List Char} {t : Text} (h : pairUp st t = some st')
    (below : List Char) : pairUp (st ++ below) t = some (st' ++ below) := by
  fun_induction pairUp st t with
  | case1 st =>
    rw [Option.some.injEq] at h
    rw [h]; rfl
  | case2 st c cs hc ih => simpa [pairUp, hc] using ih h
  | case3 c cs hc hcl => simp at h
  | case4 c cs hc hcl o os ho ih => simpa [pairUp, hc, hcl, ho] using ih h
  | case5 c cs hc hcl o os ho => simp at h
  | case6 st c cs hc hcl ih => simpa [pairUp, hc, hcl] using ih h

theorem balanced_over {t : Text} (h : Balanced t) (st : List Char) : pairUp st t = some st := by
  simpa using pair_below h st

theorem balanced_append {u v : Text} (hu : Balanced u) (hv : Balanced v) : Balanced (u ++ v) := by
  rw [Balanced, pair_append, balanced_over hu, Option.bind_some, balanced_over hv]

/-- Only the brackets of a text count. -/
theorem pair_brackets (st : List Char) (t : Text) : pairUp st (t.filter isBracket) = pairUp st t := by
  fun_induction pairUp st t with
  | case1 st => rfl
  | case2 st c cs hc ih => simp [isBracket, pairUp, hc, ih]
  | case3 c cs hc hcl => simp [isBracket, pairUp, hc, hcl]
  | case4 c cs hc hcl o os ho ih => simp [isBracket, pairUp, hc, hcl, ho, ih]
  | case5 c cs hc hcl o os ho => simp [isBracket, pairUp, hc, hcl, ho]
  | case6 st c cs hc hcl ih => simp [isBracket, hc, hcl, ih]

theorem balanced_without {t : Text} (h : ∀ c ∈ t, isBracket c = false) : Balanced t := by
  rw [Balanced, ← pair_brackets, List.filter_eq_nil_iff.2 fun c hc => by simp [h c hc]]
  rfl

/-- Texts with the same brackets in the same order pair up alike. -/
theorem balanced_of_brackets {u v : Text} (h : u.filter isBracket = v.filter isBracket)
    (hv : Balanced v) : Balanced u := by
  rw [Balanced, ← pair_brackets, h, pair_brackets]
  exact hv

/-- A text in a pair of brackets. -/
theorem balanced_between {o c : Char} {t : Text} (ho : closerOf? o = some c)
    (hc : closerOf? c = none ∧ isCloser c = true) (ht : Balanced t) :
    Balanced (o :: (t ++ [c])) := by
  rw [Balanced, pairUp, if_pos (by simp [ho]), pair_append, balanced_over ht, Option.bind_some,
    pairUp, if_neg (by simp [hc]), if_pos hc.2]
  simp [ho, pairUp]

/-! The code of a script. -/

/-- The code of a script has the brackets of what is visible of it. -/
theorem code_brackets (m : Post) (i : Nat) (t : Text) :
    (((markedFrom i t (quoteMask m t)).filter (·.code)).map (·.char)).filter isBracket =
      (visible m t).filter isBracket := by
  have hquote : isBracket '\x22' = false := by decide
  induction t generalizing m i with
  | nil => rfl
  | cons c t ih =>
    have ih := ih ((m.next c).getD .behind) (i + 1)
    cases hm : m.inString <;> cases hc : isQuote c <;>
      simp [quoteMask, markedFrom, visible, hm, hc, ih, hquote, List.filter_cons]

/-- Whether brackets go wrong does not depend on where they stand. -/
theorem mismatch_chars (st ms : List Marked) :
    mismatchFrom st ms = none ↔ pairUp (st.map (·.char)) (ms.map (·.char)) = some [] := by
  fun_induction mismatchFrom st ms with
  | case1 => simp [pairUp]
  | case2 o os => simp [pairUp]
  | case3 st m ms hc ih => simpa [pairUp, hc] using ih
  | case4 m ms hc hcl => simp [pairUp, hc, hcl]
  | case5 m ms hc hcl o os ho ih => simpa [pairUp, hc, hcl, ho] using ih
  | case6 m ms hc hcl o os ho => simp [pairUp, hc, hcl, ho]
  | case7 st m ms hc hcl ih => simpa [pairUp, hc, hcl] using ih

/-- A script whose visible brackets pair up has no mismatch. -/
theorem mismatch_none {t : Text} (hmask : codeMask t = quoteMask .fresh t)
    (h : Balanced (visible .fresh t)) : firstMismatch t = none := by
  rw [firstMismatch, marked, hmask, Option.map_eq_none_iff, mismatch_chars, ← pair_brackets,
    code_brackets, pair_brackets]
  exact h

end Restage.Script
