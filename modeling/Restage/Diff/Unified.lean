import Restage.Diff.Match

/-!
Unified diffs with three lines of context. A diff of equal texts is empty.
-/

set_option autoImplicit false

namespace Restage.Diff

inductive Tag where
  | equal | replace | delete | insert
deriving DecidableEq, Repr

/-- A range of the left list that becomes a range of the right one. -/
structure Change where
  tag : Tag
  left : Span
  right : Span
deriving DecidableEq, Repr

def tagOf (left right : Span) : Tag :=
  if left.start < left.stop then
    if right.start < right.stop then .replace else .delete
  else .insert

/-- What lies between two positions and the next block, if anything. -/
def gapBefore (i j : Nat) (b : Block) : List Change :=
  if i < b.left ∨ j < b.right then
    [⟨tagOf ⟨i, b.left⟩ ⟨j, b.right⟩, ⟨i, b.left⟩, ⟨j, b.right⟩⟩]
  else []

/-- Gaps and blocks in turn, from two positions on. -/
def changesFrom : Nat → Nat → List Block → List Change
  | _, _, [] => []
  | i, j, b :: bs =>
    gapBefore i j b ++
    (if b.size = 0 then []
      else [⟨.equal, ⟨b.left, b.left + b.size⟩, ⟨b.right, b.right + b.size⟩⟩]) ++
    changesFrom (b.left + b.size) (b.right + b.size) bs

def changes (xs ys : List Text) : List Change :=
  changesFrom 0 0 (blocks xs ys ++ [⟨xs.length, ys.length, 0⟩])

/-- Lines of context around a hunk. -/
def context : Nat := 3

def lastOf (n : Nat) (s : Span) : Span := ⟨max s.start (s.stop - n), s.stop⟩
def firstOf (n : Nat) (s : Span) : Span := ⟨s.start, min s.stop (s.start + n)⟩

/-- Keeps of an equal change at the beginning only the context after it. -/
def trimFirst : List Change → List Change
  | ⟨.equal, l, r⟩ :: cs => ⟨.equal, lastOf context l, lastOf context r⟩ :: cs
  | cs => cs

def trimLast (cs : List Change) : List Change :=
  match cs.getLast? with
  | some ⟨.equal, l, r⟩ => cs.dropLast ++ [⟨.equal, firstOf context l, firstOf context r⟩]
  | _ => cs

/-- Cuts changes into hunks at long equal changes; the hunk at hand is read from its end. -/
def hunksFrom : List Change → List Change → List (List Change)
  | done, [] => [done.reverse]
  | done, c :: cs =>
    if c.tag = .equal ∧ 2 * context < c.left.stop - c.left.start then
      (⟨.equal, firstOf context c.left, firstOf context c.right⟩ :: done).reverse ::
        hunksFrom [⟨.equal, lastOf context c.left, lastOf context c.right⟩] cs
    else hunksFrom (c :: done) cs

/-- A hunk that holds a change. -/
def isHunk : List Change → Bool
  | [] => false
  | [c] => c.tag != .equal
  | _ => true

def hunks (xs ys : List Text) : List (List Change) :=
  (hunksFrom [] (trimLast (trimFirst (changes xs ys)))).filter isHunk

/-- A range as hunk headers write it: its first line and its length unless that is one; an empty
range is counted from the line before it. -/
def rangeText (start stop : Nat) : Text :=
  let n := stop - start
  if n = 1 then Text.decimal (start + 1)
  else Text.decimal (if n = 0 then start else start + 1) ++ [','] ++ Text.decimal n

def linesOf (mark : Char) (xs : List Text) (s : Span) : List Text :=
  ((xs.take s.stop).drop s.start).map (mark :: ·)

def changeLines (xs ys : List Text) (c : Change) : List Text :=
  match c.tag with
  | .equal => linesOf ' ' xs c.left
  | .delete => linesOf '-' xs c.left
  | .insert => linesOf '+' ys c.right
  | .replace => linesOf '-' xs c.left ++ linesOf '+' ys c.right

def hunkHeader (first last : Change) : Text :=
  "@@ -".toList ++ rangeText first.left.start last.left.stop ++ " +".toList ++
    rangeText first.right.start last.right.stop ++ " @@\n".toList

def hunkLines (xs ys : List Text) (h : List Change) : List Text :=
  match h.head?, h.getLast? with
  | some first, some last => hunkHeader first last :: h.flatMap (changeLines xs ys)
  | _, _ => []

/-- The diff of two texts under two names. -/
def unified (fromName toName : Text) (old new : Text) : Text :=
  let xs := Text.lines old
  let ys := Text.lines new
  match hunks xs ys with
  | [] => []
  | hs => "--- ".toList ++ fromName ++ "\n+++ ".toList ++ toName ++ ['\n'] ++
      (hs.flatMap (hunkLines xs ys)).flatten

end Restage.Diff
