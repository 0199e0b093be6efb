import Restage.Text.Lines

/-!
Matching stretches of two lists of lines. The longest common stretch is found first, the earliest
of several, and then those on both sides of it. In lists of 200 lines and more, lines that make up
more than one in a hundred begin no stretch.
-/

set_option autoImplicit false

namespace Restage.Diff

/-- A stretch that stands in both lists. -/
structure Block where
  left : Nat
  right : Nat
  size : Nat
deriving DecidableEq, Repr

/-- The positions of a line in a list whose first line has the given number. -/
def positions (line : Text) : Nat → List Text → List Nat
  | _, [] => []
  | i, l :: ls => if l = line then i :: positions line (i + 1) ls else positions line (i + 1) ls

/-- Whether a line with so many positions is too common to begin a stretch. -/
def tooCommon (total count : Nat) : Bool := 200 ≤ total && total / 100 + 1 < count

/-- For each line of the left list, where it may begin a stretch in the right one. -/
def candidates (xs ys : List Text) : List (List Nat) :=
  xs.map fun x =>
    let ps := positions x 0 ys
    if tooCommon ys.length ps.length then [] else ps

/-- Lengths of the common stretches that end at a line, by the position of their end. -/
def extend (ends : List (Nat × Nat)) (lo hi : Nat) (ps : List Nat) : List (Nat × Nat) :=
  (ps.filter fun j => lo ≤ j && j < hi).map fun j =>
    (j, (if j = 0 then 0 else (ends.lookup (j - 1)).getD 0) + 1)

/-- The best of a line's stretches and one found before; only a longer one is better. -/
def better (i : Nat) (best : Block) (ends : List (Nat × Nat)) : Block :=
  ends.foldl (fun best e =>
    if best.size < e.2 then ⟨i + 1 - e.2, e.1 + 1 - e.2, e.2⟩ else best) best

/-- The longest stretch that ends in the given lines of the left list. -/
def longestFrom (lo hi : Nat) :
    Nat → List (Nat × Nat) → Block → List (List Nat) → Block
  | _, _, best, [] => best
  | i, ends, best, ps :: rest =>
    let ends := extend ends lo hi ps
    longestFrom lo hi (i + 1) ends (better i best ends) rest

/-- Grows a stretch to the left while the lines before it are equal. -/
def growLeft (xs ys : Array Text) (alo blo : Nat) : Nat → Block → Block
  | 0, b => b
  | fuel + 1, b =>
    if alo < b.left ∧ blo < b.right ∧ xs[b.left - 1]? = ys[b.right - 1]? then
      growLeft xs ys alo blo fuel ⟨b.left - 1, b.right - 1, b.size + 1⟩
    else b

/-- Grows a stretch to the right while the lines after it are equal. -/
def growRight (xs ys : Array Text) (ahi bhi : Nat) : Nat → Block → Block
  | 0, b => b
  | fuel + 1, b =>
    if b.left + b.size < ahi ∧ b.right + b.size < bhi ∧
        xs[b.left + b.size]? = ys[b.right + b.size]? then
      growRight xs ys ahi bhi fuel { b with size := b.size + 1 }
    else b

/-- The longest common stretch of two ranges, or an empty one. -/
def longest (xs ys : Array Text) (cands : List (List Nat)) (alo ahi blo bhi : Nat) : Block :=
  let found := longestFrom blo bhi alo [] ⟨alo, blo, 0⟩ ((cands.take ahi).drop alo)
  growRight xs ys ahi bhi (ahi - alo) (growLeft xs ys alo blo (ahi - alo) found)

/-- The blocks of two ranges in order. Each block leaves shorter left ranges on its sides, so that
fuel of the length of the left range and one more never runs out. -/
def blocksIn (xs ys : Array Text) (cands : List (List Nat)) :
    Nat → Nat → Nat → Nat → Nat → List Block
  | 0, _, _, _, _ => []
  | fuel + 1, alo, ahi, blo, bhi =>
    let b := longest xs ys cands alo ahi blo bhi
    if b.size = 0 then []
    else
      (if alo < b.left ∧ blo < b.right then
        blocksIn xs ys cands fuel alo b.left blo b.right else []) ++
      [b] ++
      (if b.left + b.size < ahi ∧ b.right + b.size < bhi then
        blocksIn xs ys cands fuel (b.left + b.size) ahi (b.right + b.size) bhi else [])

/-- Joins blocks that touch in both lists. -/
def joinBlocks : List Block → List Block
  | [] => []
  | b :: bs =>
    match joinBlocks bs with
    | [] => [b]
    | c :: cs =>
      if b.left + b.size = c.left ∧ b.right + b.size = c.right then
        { b with size := b.size + c.size } :: cs
      else b :: c :: cs

def blocks (xs ys : List Text) : List Block :=
  joinBlocks (blocksIn xs.toArray ys.toArray (candidates xs ys) (xs.length + 1) 0 xs.length 0
    ys.length)

end Restage.Diff
