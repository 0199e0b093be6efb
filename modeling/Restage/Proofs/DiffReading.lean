import Restage.Proofs.DiffChanges
import Restage.Proofs.NumberText

/-!
Reading a diff. A reader goes through the lines of the hunks, each told by its first character, and
through the lines of a text beside them. The lines of a hunk take it from where the hunk begins in
both lists to where it ends (`hunk_moves`), and so do those of all hunks in turn (`cuts_moves`).
-/

set_option autoImplicit false

namespace Restage.Diff

/-- What has been read of a text: the number of lines, those that are left, and the new lines. -/
structure Reading where
  line : Nat
  rest : List Text
  out : List Text
deriving DecidableEq, Repr

/-- The number of lines before the left range of a hunk header. -/
def readStart? (l : Text) : Option Nat :=
  (Text.after? "@@ -".toList l).map fun t =>
    let first := Json.digitsValue (t.takeWhile Text.isDigit)
    match t.dropWhile Text.isDigit with
    | ',' :: u => if Json.digitsValue (u.takeWhile Text.isDigit) = 0 then first else first - 1
    | _ => first - 1

/-- Copies the lines up to a number. -/
def Reading.skipTo (s : Reading) (k : Nat) : Option Reading :=
  if s.line ≤ k ∧ k - s.line ≤ s.rest.length then
    some ⟨k, s.rest.drop (k - s.line), s.out ++ s.rest.take (k - s.line)⟩
  else none

/-- Reads a line of a diff. A reader that checks wants the lines that are kept or removed to be those
of the text. -/
def readLine (checks : Bool) (s : Reading) : Text → Option Reading
  | [] => none
  | mark :: l =>
    if mark = '@' then (readStart? (mark :: l)).bind s.skipTo
    else if mark = '+' then some { s with out := s.out ++ [l] }
    else match s.rest with
      | [] => none
      | x :: xs =>
        if checks && x != l then none
        else if mark = ' ' then some ⟨s.line + 1, xs, s.out ++ [x]⟩
        else if mark = '-' then some ⟨s.line + 1, xs, s.out⟩
        else none

/-- Applies a diff to a text. The hunks begin with the first line that begins like a hunk header. -/
def patch (checks : Bool) (diff old : Text) : Option Text :=
  (((Text.lines diff).dropWhile fun l => l.head? != some '@').foldlM (readLine checks)
    ⟨0, Text.lines old, []⟩).map fun s => (s.out ++ s.rest).flatten

variable {xs ys ls : List Text} {i j k n m : Nat} {s s' : Reading}

/-! A reader that checks reads no more than one that does not. -/

theorem read_line_unchecked {l : Text} (h : readLine true s l = some s') :
    readLine false s l = some s' := by
  cases l with
  | nil => exact h
  | cons mark l =>
    rw [readLine] at h ⊢
    by_cases hheader : mark = '@'
    · rwa [if_pos hheader] at h ⊢
    by_cases hadded : mark = '+'
    · rwa [if_neg hheader, if_pos hadded] at h ⊢
    rw [if_neg hheader, if_neg hadded] at h ⊢
    cases hrest : s.rest with
    | nil => simp [hrest] at h
    | cons x xs =>
      simp only [hrest] at h
      split at h
      · simp at h
      · simpa only [Bool.false_and, Bool.false_eq_true, if_false] using h

theorem read_lines_unchecked (h : ls.foldlM (readLine true) s = some s') :
    ls.foldlM (readLine false) s = some s' := by
  induction ls generalizing s with
  | nil => exact h
  | cons l ls ih =>
    rw [List.foldlM_cons] at h ⊢
    obtain ⟨r, hline, hrest⟩ := Option.bind_eq_some_iff.1 h
    exact Option.bind_eq_some_iff.2 ⟨r, read_line_unchecked hline, ih hrest⟩

theorem patch_unchecked {checks : Bool} {diff old new : Text}
    (h : patch checks diff old = some new) : patch false diff old = some new := by
  cases checks with
  | false => exact h
  | true =>
    obtain ⟨s, hread, hs⟩ := Option.map_eq_some_iff.1 h
    exact Option.map_eq_some_iff.2 ⟨s, read_lines_unchecked hread, hs⟩

/-! Lines that are kept, removed and added. -/

theorem read_kept (zs : List Text) (checks : Bool) (i : Nat) (rest out : List Text) :
    (zs.map (' ' :: ·)).foldlM (readLine checks) ⟨i, zs ++ rest, out⟩ =
      some ⟨i + zs.length, rest, out ++ zs⟩ := by
  induction zs generalizing i out with
  | nil => simp
  | cons z zs ih =>
    rw [List.map_cons, List.foldlM_cons, List.cons_append]
    have hline : readLine checks ⟨i, z :: (zs ++ rest), out⟩ (' ' :: z) =
        some ⟨i + 1, zs ++ rest, out ++ [z]⟩ := by simp [readLine]
    rw [hline, Option.bind_eq_bind, Option.bind_some, ih, List.length_cons, List.append_assoc,
      Nat.add_assoc, Nat.add_comm 1]
    rfl

theorem read_removed (zs : List Text) (checks : Bool) (i : Nat) (rest out : List Text) :
    (zs.map ('-' :: ·)).foldlM (readLine checks) ⟨i, zs ++ rest, out⟩ =
      some ⟨i + zs.length, rest, out⟩ := by
  induction zs generalizing i with
  | nil => simp
  | cons z zs ih =>
    rw [List.map_cons, List.foldlM_cons, List.cons_append]
    have hline : readLine checks ⟨i, z :: (zs ++ rest), out⟩ ('-' :: z) =
        some ⟨i + 1, zs ++ rest, out⟩ := by simp [readLine]
    rw [hline, Option.bind_eq_bind, Option.bind_some, ih, List.length_cons, Nat.add_assoc,
      Nat.add_comm 1]

theorem read_added (zs : List Text) (checks : Bool) (i : Nat) (rest out : List Text) :
    (zs.map ('+' :: ·)).foldlM (readLine checks) ⟨i, rest, out⟩ = some ⟨i, rest, out ++ zs⟩ := by
  induction zs generalizing out with
  | nil => simp
  | cons z zs ih =>
    rw [List.map_cons, List.foldlM_cons]
    have hline : readLine checks ⟨i, rest, out⟩ ('+' :: z) = some ⟨i, rest, out ++ [z]⟩ := by
      simp [readLine]
    rw [hline, Option.bind_eq_bind, Option.bind_some, ih, List.append_assoc]
    rfl

/-! Where a reader is. -/

/-- A reader that has gone through so many lines of one list and made so many of another. -/
def Reading.upTo (xs ys : List Text) (i j : Nat) : Reading := ⟨i, xs.drop i, ys.take j⟩

/-- Lines that take a reader from one place to another. -/
def Moves (xs ys ls : List Text) (i j n m : Nat) : Prop :=
  ∀ checks, ls.foldlM (readLine checks) (.upTo xs ys i j) = some (.upTo xs ys n m)

theorem moves_append {ks : List Text} {i' j' : Nat} (h : Moves xs ys ls i j i' j')
    (h' : Moves xs ys ks i' j' n m) : Moves xs ys (ls ++ ks) i j n m := fun checks => by
  rw [List.foldlM_append, h, Option.bind_eq_bind, Option.bind_some, h']

/-- The lines of a span. -/
def part (xs : List Text) (s : Span) : List Text := (xs.take s.stop).drop s.start

theorem part_length {s : Span} (h : s.stop ≤ xs.length) :
    (part xs s).length = s.stop - s.start := by
  rw [part, List.length_drop, List.length_take, Nat.min_eq_left h]

theorem part_rest {s : Span} (h : s.start ≤ s.stop) (h' : s.stop ≤ xs.length) :
    part xs s ++ xs.drop s.stop = xs.drop s.start := by
  rw [part, ← List.drop_append_of_le_length (by rw [List.length_take]; omega),
    List.take_append_drop]

theorem take_part (ys : List Text) {s : Span} (h : s.start ≤ s.stop) :
    ys.take s.start ++ part ys s = ys.take s.stop := by
  have hsplit := List.take_append_drop s.start (ys.take s.stop)
  rwa [List.take_take, Nat.min_eq_left h] at hsplit

theorem change_moves {c : Change} (h : Fits xs ys c) : Moves xs ys (changeLines xs ys c)
    c.left.start c.right.start c.left.stop c.right.stop := by
  intro checks
  have hxs := part_rest h.left.1 h.left.2
  have hys := take_part ys h.right.1
  have hlength := part_length h.left.2
  have hremoved := read_removed (part xs c.left) checks c.left.start (xs.drop c.left.stop)
    (ys.take c.right.start)
  have hline : c.left.start + (part xs c.left).length = c.left.stop := by
    have := h.left.1
    omega
  rw [hline, hxs] at hremoved
  unfold changeLines Reading.upTo
  split
  · next htag =>
    obtain ⟨n, hleft, hright, halike⟩ := h.equal htag
    have hsame : part xs c.left = part ys c.right := by
      have := alike_slice halike
      rwa [List.take_drop, List.take_drop, ← hleft, ← hright] at this
    have hkept := read_kept (part xs c.left) checks c.left.start (xs.drop c.left.stop)
      (ys.take c.right.start)
    have hout : ys.take c.right.start ++ part xs c.left = ys.take c.right.stop := by rw [hsame, hys]
    rwa [hline, hxs, hout] at hkept
  · next htag => rwa [h.delete htag] at hremoved ⊢
  · next htag =>
    have hadded := read_added (part ys c.right) checks c.left.start (xs.drop c.left.start)
      (ys.take c.right.start)
    rw [hys] at hadded
    rwa [h.insert htag] at hadded ⊢
  · have hadded := read_added (part ys c.right) checks c.left.stop (xs.drop c.left.stop)
      (ys.take c.right.start)
    rw [hys] at hadded
    change (linesOf '-' xs c.left ++ linesOf '+' ys c.right).foldlM _ _ = _
    rw [List.foldlM_append]
    exact Option.bind_eq_some_iff.2 ⟨_, hremoved, hadded⟩

theorem changes_move {cs : List Change} (h : Runs xs ys i j cs n m) :
    Moves xs ys (cs.flatMap (changeLines xs ys)) i j n m := by
  induction cs generalizing i j with
  | nil =>
    obtain ⟨rfl, rfl, -⟩ := h
    exact fun _ => rfl
  | cons c cs ih =>
    obtain ⟨rfl, rfl, hfits, hrest⟩ := h
    exact moves_append (change_moves hfits) (ih hrest)

/-! Headers. -/

theorem read_range (start stop : Nat) (t : Text) :
    readStart? ("@@ -".toList ++ (rangeText start stop ++ ' ' :: t)) = some start := by
  have hdigits (n : Nat) : ∀ c ∈ Text.decimal n, Text.isDigit c = true :=
    fun c hc => Text.decimal_digits hc
  have hblank (u : Text) : Json.Stops Text.isDigit (' ' :: u) := by simp [Json.Stops, Text.isDigit]
  have hcomma (u : Text) : Json.Stops Text.isDigit (',' :: u) := by simp [Json.Stops, Text.isDigit]
  rw [readStart?, Text.after?_eq_some.2 rfl, Option.map_some, Option.some.injEq, rangeText]
  by_cases hone : stop - start = 1
  · obtain ⟨htake, hdrop⟩ := Json.take_drop_while (hdigits (start + 1)) (hblank t)
    simp only [if_pos hone, htake, hdrop, Json.digits_value_decimal]
    rfl
  · obtain ⟨htake, hdrop⟩ := Json.take_drop_while
      (hdigits (if stop - start = 0 then start else start + 1))
      (hcomma (Text.decimal (stop - start) ++ ' ' :: t))
    obtain ⟨hcount, -⟩ := Json.take_drop_while (hdigits (stop - start)) (hblank t)
    simp only [if_neg hone, List.append_assoc, List.cons_append, List.nil_append, htake,
      hdrop, hcount,
      Json.digits_value_decimal]
    split <;> rfl

theorem read_header (first last : Change) :
    readStart? (hunkHeader first last) = some first.left.start := by
  have hassoc (a r b s c : Text) : a ++ r ++ b ++ s ++ c = a ++ (r ++ (b ++ (s ++ c))) := by simp
  exact (congrArg readStart? (hassoc _ _ _ _ _)).trans (read_range _ _ _)

/-- A header takes a reader over the lines before its hunk. -/
theorem header_moves {first last : Change} (h : Alike xs ys i j k)
    (hfirst : first.left.start = i + k) :
    Moves xs ys [hunkHeader first last] i j (i + k) (j + k) := by
  intro checks
  have hstart := read_header first last
  rw [hfirst] at hstart
  have hleft := h.left
  have hskip : (Reading.upTo xs ys i j).skipTo (i + k) = some (.upTo xs ys (i + k) (j + k)) := by
    simp only [Reading.skipTo, Reading.upTo, Nat.add_sub_cancel_left, List.length_drop]
    rw [if_pos (by omega), List.drop_drop, alike_slice h, ← List.take_add]
  rw [List.foldlM_cons]
  refine Option.bind_eq_some_iff.2 ⟨_, ?_, rfl⟩
  have hline (l : Text) (hl : hunkHeader first last = '@' :: l) :
      readLine checks (.upTo xs ys i j) ('@' :: l) = some (.upTo xs ys (i + k) (j + k)) := by
    rw [hl] at hstart
    rw [readLine, if_pos rfl, hstart, Option.bind_some, hskip]
  exact hline _ rfl

theorem hunk_lines_some (xs ys : List Text) {h : List Change} (hsome : h ≠ []) : ∃ first last cs, h = first :: cs ∧
    hunkLines xs ys h = hunkHeader first last :: h.flatMap (changeLines xs ys) := by
  obtain ⟨first, cs, rfl⟩ := List.exists_cons_of_ne_nil hsome
  refine ⟨first, (first :: cs).getLast hsome, cs, rfl, ?_⟩
  rw [hunkLines, List.head?_cons, List.getLast?_eq_some_getLast hsome]

/-- A hunk takes a reader over the lines before it and through its changes. -/
theorem hunk_moves {h : List Change} {i' j' : Nat} (hsome : h ≠ []) (hk : Alike xs ys i j k)
    (hruns : Runs xs ys (i + k) (j + k) h i' j') :
    Moves xs ys (hunkLines xs ys h) i j i' j' := by
  obtain ⟨first, last, cs, rfl, hlines⟩ := hunk_lines_some xs ys hsome
  rw [hlines]
  exact moves_append (header_moves hk hruns.1) (changes_move hruns)

/-- Hunks take a reader to where they end, and what they leave is alike. -/
theorem cuts_moves {hs : List (List Change)} (hsome : ∀ h ∈ hs, h ≠ [])
    (hcuts : Cuts xs ys i j hs n m) :
    ∃ i' j' k, Moves xs ys (hs.flatMap (hunkLines xs ys)) i j i' j' ∧ i' + k = n ∧ j' + k = m ∧
      Alike xs ys i' j' k := by
  induction hs generalizing i j with
  | nil =>
    obtain ⟨k, hn, hm, hk⟩ := hcuts
    exact ⟨i, j, k, fun _ => rfl, hn, hm, hk⟩
  | cons h hs ih =>
    obtain ⟨hfirst, hlater⟩ := List.forall_mem_cons.1 hsome
    obtain ⟨k, i', j', hk, hruns, hrest⟩ := hcuts
    obtain ⟨a, b, l, hmoves, hn, hm, hl⟩ := ih hlater hrest
    exact ⟨a, b, l, moves_append (hunk_moves hfirst hk hruns) hmoves, hn, hm, hl⟩

theorem hunks_some {h : List Change} (hh : h ∈ hunks xs ys) : h ≠ [] := by
  rintro rfl
  exact nomatch (List.mem_filter.1 hh).2

end Restage.Diff
