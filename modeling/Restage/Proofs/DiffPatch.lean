import Restage.Batch
import Restage.Proofs.DiffReading

/-!
A diff as a patch. Applied to the text it was made of, a diff gives the other text unless it ends with
a replacement of lines the last of which is left open: then the first added line stands on the same
line of the diff as the last removed one, and is lost (`diff_patches_iff`).
-/

set_option autoImplicit false

namespace Restage.Diff

open Text (lines closed Row endsLine)

variable {xs ys : List Text} {old new : Text}

/-! The lines of a diff by themselves. -/

theorem lines_ended (t : Text) : Ended (lines t) := fun _ hl => Text.lines_closed hl

theorem mark_row {mark : Char} {x : Text} (hmark : endsLine mark = false) (hx : lines x = [x]) :
    Row (mark :: x) where
  single := by rw [Text.lines_cons_open hmark, hx]; rfl
  start := by
    rintro heq
    obtain rfl : mark = '\n' := Option.some.inj heq
    exact absurd hmark (by decide)

theorem lines_of_rows {mark : Char} {s : Span} (hmark : endsLine mark = false)
    (hxs : ∀ x ∈ xs, lines x = [x]) : ∀ l ∈ linesOf mark xs s, Row l := by
  intro l hl
  obtain ⟨k, x, -, -, hx, rfl⟩ := mem_lines_of hl
  exact mark_row hmark (hxs x (List.mem_of_getElem? hx))

theorem change_rows (hxs : ∀ x ∈ xs, lines x = [x]) (hys : ∀ y ∈ ys, lines y = [y]) (c : Change) :
    ∀ l ∈ changeLines xs ys c, Row l := by
  unfold changeLines
  split
  · exact lines_of_rows rfl hxs
  · exact lines_of_rows rfl hxs
  · exact lines_of_rows rfl hys
  · exact List.forall_mem_append.2 ⟨lines_of_rows rfl hxs, lines_of_rows rfl hys⟩

theorem range_open (start stop : Nat) : ∀ c ∈ rangeText start stop, endsLine c = false := by
  have hdigits (n : Nat) : ∀ c ∈ Text.decimal n, endsLine c = false := by
    intro c hc
    have hdigit := Text.decimal_digits hc
    simp only [Text.isDigit, Bool.and_eq_true, decide_eq_true_eq] at hdigit
    have hlower : 48 ≤ c.toNat := hdigit.1
    have hupper : c.toNat ≤ 57 := hdigit.2
    simp only [endsLine, Bool.or_eq_false_iff, Bool.and_eq_false_iff, decide_eq_false_iff_not,
      beq_eq_false_iff_ne]
    omega
  rw [rangeText]
  split
  · exact hdigits _
  · simp only [List.forall_mem_append]
    exact ⟨⟨hdigits _, by decide⟩, hdigits _⟩

/-- A header is a line that ends. -/
theorem header_row (first last : Change) :
    Row (hunkHeader first last) ∧ closed (hunkHeader first last) = true := by
  have hopen : ∀ c ∈ "@@ -".toList ++ rangeText first.left.start last.left.stop ++ " +".toList ++
      rangeText first.right.start last.right.stop ++ " @@".toList, endsLine c = false := by
    simp only [List.forall_mem_append]
    exact ⟨⟨⟨⟨by decide, range_open _ _⟩, by decide⟩, range_open _ _⟩, by decide⟩
  have hheader : hunkHeader first last = "@@ -".toList ++
      rangeText first.left.start last.left.stop ++ " +".toList ++
      rangeText first.right.start last.right.stop ++ " @@".toList ++ ['\n'] := by
    rw [hunkHeader, List.append_assoc _ " @@".toList]
    rfl
  refine ⟨⟨?_, by rw [hunkHeader]; simp⟩, by rw [hheader, Text.closed_append (by simp)]; rfl⟩
  rw [hheader]
  exact Text.lines_run_on hopen rfl

/-- The lines of all hunks. -/
def body (xs ys : List Text) : List Text := (hunks xs ys).flatMap (hunkLines xs ys)

theorem mem_hunk_lines {h : List Change} {l : Text} (hl : l ∈ hunkLines xs ys h) :
    (∃ first last, l = hunkHeader first last) ∨ ∃ c ∈ h, l ∈ changeLines xs ys c := by
  rw [hunkLines] at hl
  split at hl
  · rcases List.mem_cons.1 hl with rfl | hl
    · exact Or.inl ⟨_, _, rfl⟩
    · exact Or.inr (List.mem_flatMap.1 hl)
  · simp at hl

theorem body_rows (hxs : ∀ x ∈ xs, lines x = [x]) (hys : ∀ y ∈ ys, lines y = [y]) :
    ∀ l ∈ body xs ys, Row l := by
  intro l hl
  obtain ⟨h, -, hl⟩ := List.mem_flatMap.1 hl
  rcases mem_hunk_lines hl with ⟨first, last, rfl⟩ | ⟨c, -, hl⟩
  · exact (header_row first last).1
  · exact change_rows hxs hys c l hl

theorem firm_hunks {hs : List (List Change)} (h : ∀ g ∈ hs, ∀ d ∈ g, Firm xs ys d) :
    ∀ l ∈ hs.flatMap (hunkLines xs ys), closed l = true := by
  intro l hl
  obtain ⟨g, hg, hl⟩ := List.mem_flatMap.1 hl
  rcases mem_hunk_lines hl with ⟨first, last, rfl⟩ | ⟨c, hc, hl⟩
  · exact (header_row first last).2
  · exact h g hg c hc l hl

/-- The lines before the last change. They end, and take a reader to it. -/
theorem body_end {hs : List (List Change)} {h : List Change} {c : Change}
    (heq : hunks xs ys = hs ++ [h ++ [c]]) (hfirm : ∀ g ∈ hs ++ [h], ∀ d ∈ g, Firm xs ys d) :
    ∃ front, body xs ys = front ++ changeLines xs ys c ∧ (∀ l ∈ front, closed l = true) ∧
      Moves xs ys front 0 0 c.left.start c.right.start ∧ Fits xs ys c := by
  have hcut := hunks_cut xs ys
  have hsome : ∀ g ∈ hs, g ≠ [] := fun g hg => hunks_some (heq ▸ List.mem_append_left _ hg)
  rw [heq] at hcut
  obtain ⟨i, j, hhs, k, i', j', hk, hruns, -⟩ := cuts_append hcut
  obtain ⟨a, b, l, hmoves, rfl, rfl, hl⟩ := cuts_moves hsome hhs
  obtain ⟨first, last, cs, hcs, hlines⟩ :=
    hunk_lines_some xs ys (h := h ++ [c]) (by simp)
  have hfirst : first.left.start = a + (l + k) := by
    rw [hcs] at hruns
    rw [← Nat.add_assoc]
    exact hruns.1
  obtain ⟨i₂, j₂, hbefore, rfl, rfl, hfits, -⟩ := runs_append.1 hruns
  rw [Nat.add_assoc, Nat.add_assoc] at hbefore
  obtain ⟨hfirmhs, hfirmh⟩ := List.forall_mem_append.1 hfirm
  refine ⟨hs.flatMap (hunkLines xs ys) ++
    ([hunkHeader first last] ++ h.flatMap (changeLines xs ys)), ?_, ?_, ?_, hfits⟩
  · rw [body, heq, List.flatMap_append, List.flatMap_singleton, hlines, List.flatMap_append,
      List.flatMap_singleton]
    simp
  · refine List.forall_mem_append.2 ⟨firm_hunks hfirmhs, List.forall_mem_append.2 ⟨?_, ?_⟩⟩
    · exact List.forall_mem_singleton.2 (header_row first last).2
    · intro l hl
      obtain ⟨d, hd, hl⟩ := List.mem_flatMap.1 hl
      exact hfirmh h (by simp) d hd l hl
  · exact moves_append hmoves
      (moves_append (header_moves (alike_append hl hk) hfirst) (changes_move hbefore))

/-! The header of a diff. -/

/-- A text in which no line after the first begins like a hunk header. -/
def Plain (t : Text) : Prop := t.IsChain fun c d => endsLine c = true → d ≠ '@'

instance (t : Text) : Decidable (Plain t) := by unfold Plain; infer_instance

theorem plain_append {u v : Text} (hu : Plain u) (hv : Plain v)
    (h : closed u = false ∨ v.head? ≠ some '@') : Plain (u ++ v) := by
  refine List.isChain_append.2 ⟨hu, hv, fun c hc d hd hends => ?_⟩
  rcases h with h | h
  · have hclosed : closed u = true := by rw [closed, Option.mem_def.1 hc]; exact hends
    exact absurd (h.symm.trans hclosed) Bool.false_ne_true
  · rintro rfl
    exact h hd

/-- The lines with the names of both texts. -/
def heading (fromName toName : Text) : Text :=
  "--- ".toList ++ fromName ++ "\n+++ ".toList ++ toName ++ ['\n']

theorem heading_closed (fromName toName : Text) : closed (heading fromName toName) = true :=
  (Text.closed_append (List.cons_ne_nil '\n' [])).trans rfl

theorem heading_lines {fromName toName : Text} (hfrom : Plain fromName) (hto : Plain toName) :
    ∀ l ∈ lines (heading fromName toName), l.head? ≠ some '@' := by
  have hplain : Plain (heading fromName toName) := by
    refine plain_append (plain_append (plain_append (plain_append (by decide) hfrom (Or.inl rfl))
      (by decide) (Or.inr (by decide))) hto (Or.inl ?_)) (by decide) (Or.inr (by decide))
    rw [Text.closed_append (by decide)]
    rfl
  have hlater := Text.later_lines hplain
  obtain ⟨l, ls, hls⟩ := Text.lines_first '-' ("-- ".toList ++ fromName ++ "\n+++ ".toList ++
    toName ++ ['\n'])
  rw [show heading fromName toName = '-' :: ("-- ".toList ++ fromName ++ "\n+++ ".toList ++
    toName ++ ['\n']) from rfl, hls] at hlater ⊢
  exact List.forall_mem_cons.2 ⟨by simp, hlater⟩

theorem unified_eq (fromName toName old new : Text) : unified fromName toName old new =
    if hunks (lines old) (lines new) = [] then []
    else heading fromName toName ++ (body (lines old) (lines new)).flatten := by
  rw [unified]
  split
  · next hnone => rw [if_pos hnone]
  · next hsome => rw [if_neg hsome]; rfl

/-- A reader finds the lines of the hunks. -/
theorem unified_lines {fromName toName : Text} (hfrom : Plain fromName) (hto : Plain toName)
    (old new : Text) : (lines (unified fromName toName old new)).dropWhile
      (fun l => l.head? != some '@') = lines (body (lines old) (lines new)).flatten := by
  rw [unified_eq]
  split
  · next hnone => rw [body, hnone]; rfl
  · next hsome =>
    obtain ⟨h, hs, hhs⟩ := List.exists_cons_of_ne_nil hsome
    obtain ⟨first, last, cs, -, hlines⟩ := hunk_lines_some (lines old) (lines new)
      (hunks_some (hhs ▸ List.mem_cons_self) : h ≠ [])
    obtain ⟨t, ht⟩ : ∃ t, (body (lines old) (lines new)).flatten = '@' :: t := by
      rw [body, hhs, List.flatMap_cons, hlines]
      exact ⟨_, rfl⟩
    obtain ⟨l, ls, hls⟩ := Text.lines_first '@' t
    rw [ht, Text.lines_append (heading_closed _ _) (by simp),
      List.dropWhile_append_of_pos (fun l hl => by simpa using heading_lines hfrom hto l hl), hls,
      List.dropWhile_cons_of_neg (by simp)]

/-! Applying a diff. -/

section

variable {fromName toName : Text} (hfrom : Plain fromName) (hto : Plain toName)
include hfrom hto

theorem patch_unified (checks : Bool) (old new : Text) :
    patch checks (unified fromName toName old new) old =
      ((lines (body (lines old) (lines new)).flatten).foldlM (readLine checks)
        (.upTo (lines old) (lines new) 0 0)).map fun s => (s.out ++ s.rest).flatten := by
  rw [patch, unified_lines hfrom hto]
  rfl

/-- Lines that keep apart are read as they were written. -/
theorem patch_apart (checks : Bool)
    (h : ∀ l ∈ (body (lines old) (lines new)).dropLast, closed l = true) :
    patch checks (unified fromName toName old new) old = some new := by
  obtain ⟨i, j, k, hmoves, hi, hj, halike⟩ :=
    cuts_moves (fun _ => hunks_some) (hunks_cut (lines old) (lines new))
  have hrest : (lines old).drop i = (lines new).drop j := by
    have hslice := alike_slice halike
    rwa [List.take_of_length_le (by rw [List.length_drop]; omega),
      List.take_of_length_le (by rw [List.length_drop]; omega)] at hslice
  have hrows := body_rows (fun x (hx : x ∈ lines old) => Text.line_single hx)
    fun y (hy : y ∈ lines new) => Text.line_single hy
  rw [patch_unified hfrom hto, Text.lines_joined hrows h, body, hmoves, Option.map_some]
  simp only [Reading.upTo]
  rw [hrest, List.take_append_drop, Text.flatten_lines]

end

theorem lines_of_inner (mark : Char) {s : Span} (h : Ended xs) (hs : s.stop ≤ xs.length) :
    ∀ l ∈ (linesOf mark xs s).dropLast, closed l = true := by
  intro l hl
  obtain ⟨k, hk⟩ := List.mem_iff_getElem?.1 hl
  have hlength : (linesOf mark xs s).length = s.stop - s.start := by
    rw [linesOf, List.length_map]
    exact part_length hs
  rw [List.getElem?_dropLast, hlength] at hk
  split at hk
  · next hlt =>
    rw [linesOf, List.getElem?_map, List.getElem?_drop, List.getElem?_take, if_pos (by omega)] at hk
    obtain ⟨x, hx, rfl⟩ := Option.map_eq_some_iff.1 hk
    exact ended_line h hx (by omega)
  · simp at hk

/-- A change leaves a line open only at its end, if all lines that it replaces end. -/
theorem change_inner {c : Change} (hx : Ended xs) (hy : Ended ys) (h : Fits xs ys c)
    (hreplace : c.tag = .replace → ∀ x ∈ xs, closed x = true) :
    ∀ l ∈ (changeLines xs ys c).dropLast, closed l = true := by
  unfold changeLines
  split
  · exact lines_of_inner _ hx h.left.2
  · exact lines_of_inner _ hx h.left.2
  · exact lines_of_inner _ hy h.right.2
  · next htag =>
    have hsome : linesOf '+' ys c.right ≠ [] := by
      have := (h.replace htag).2
      have hlength := part_length h.right.2
      intro hnone
      rw [show part ys c.right = [] from List.map_eq_nil_iff.1 hnone, List.length_nil] at hlength
      omega
    rw [List.dropLast_append_of_ne_nil hsome]
    refine List.forall_mem_append.2 ⟨fun l hl => ?_, lines_of_inner _ hy h.right.2⟩
    obtain ⟨k, x, -, -, hk, rfl⟩ := mem_lines_of hl
    exact Text.closed_behind '-' (hreplace htag x (List.mem_of_getElem? hk))

/-- A text that ends a line has only lines that end. -/
theorem all_closed (h : closed old = true) : ∀ x ∈ lines old, closed x = true := by
  intro x hx
  obtain ⟨ls, l, hls⟩ := (List.eq_nil_or_concat' (lines old)).resolve_left (List.ne_nil_of_mem hx)
  have hlast := Text.last_line_closed hls
  have hinner := lines_ended old
  rw [Ended, hls, List.dropLast_concat] at hinner
  rw [hls] at hx
  rcases List.mem_append.1 hx with hx | hx
  · exact hinner x hx
  · rw [List.mem_singleton.1 hx, hlast, h]

/-- Two texts, the first of which is left open and ends otherwise than the second. -/
def Glued (old new : Text) : Prop :=
  closed old = false ∧ EndsReplaced (lines old) (lines new)

instance (old new : Text) : Decidable (Glued old new) := by
  unfold Glued EndsReplaced; infer_instance

theorem body_apart (h : ¬ Glued old new) :
    ∀ l ∈ (body (lines old) (lines new)).dropLast, closed l = true := by
  rcases hunks_end (lines_ended old) (lines_ended new) with
    ⟨hfirm, -⟩ | ⟨hs, g, c, heq, hfirm, htag, -⟩
  · exact fun l hl => firm_hunks hfirm l (List.mem_of_mem_dropLast hl)
  · obtain ⟨front, hbody, hfront, -, hfits⟩ := body_end heq hfirm
    have hinner := change_inner (lines_ended old) (lines_ended new) hfits fun hreplace => by
      refine all_closed ?_
      by_contra hopen
      exact h ⟨by simpa using hopen, htag.1 hreplace⟩
    rw [hbody]
    by_cases hnone : changeLines (lines old) (lines new) c = []
    · rw [hnone, List.append_nil]
      exact fun l hl => hfront l (List.mem_of_mem_dropLast hl)
    · rw [List.dropLast_append_of_ne_nil hnone]
      exact List.forall_mem_append.2 ⟨hfront, hinner⟩

/-- The body of a glued diff: the last removed line of the text, then the added lines. -/
theorem glued_body (h : Glued old new) : ∃ (front xs' ks : List Text) (x y : Text) (a b : Nat),
    a ≤ xs'.length ∧ lines old = xs' ++ [x] ∧ (lines new).drop b = y :: ks ∧
    body (lines old) (lines new) = front ++ (xs'.drop a).map ('-' :: ·) ++
      ('-' :: x) :: ('+' :: y) :: ks.map ('+' :: ·) ∧
    (∀ l ∈ front ++ (xs'.drop a).map ('-' :: ·), closed l = true) ∧
    (∀ l ∈ (('+' :: y) :: ks.map ('+' :: ·)).dropLast, closed l = true) ∧
    Moves (lines old) (lines new) front 0 0 a b := by
  rcases hunks_end (lines_ended old) (lines_ended new) with
    ⟨-, hnone⟩ | ⟨hs, g, c, heq, hfirm, htag, hstop⟩
  · exact absurd h.2 hnone
  have hreplace := htag.2 h.2
  obtain ⟨front, hbody, hfront, hmoves, hfits⟩ := body_end heq hfirm
  obtain ⟨hleft, hright⟩ := hstop (by simp [hreplace])
  obtain ⟨hremoved, hadded⟩ := hfits.replace hreplace
  rw [hleft] at hremoved
  rw [hright] at hadded
  obtain ⟨xs', x, hold⟩ := (List.eq_nil_or_concat' (lines old)).resolve_left
    (List.ne_nil_of_length_pos (by omega))
  have ha : c.left.start ≤ xs'.length := by
    rw [hold, List.length_append, List.length_singleton] at hremoved
    omega
  have hminus : linesOf '-' (lines old) c.left =
      (xs'.drop c.left.start).map ('-' :: ·) ++ ['-' :: x] := by
    rw [linesOf, hleft, List.take_length, hold, List.drop_append_of_le_length ha, List.map_append]
    rfl
  have hplus := lines_of_inner '+' (lines_ended new) hfits.right.2
  have hys := List.drop_eq_getElem_cons hadded
  rw [linesOf, hright, List.take_length, hys, List.map_cons] at hplus
  refine ⟨front, xs', _, x, _, c.left.start, c.right.start, ha, hold, hys, ?_,
    List.forall_mem_append.2 ⟨hfront, ?_⟩, hplus, hmoves⟩
  · rw [hbody, changeLines, hreplace]
    simp only
    rw [hminus, linesOf, hright, List.take_length, hys, List.map_cons]
    simp
  · intro l hl
    obtain ⟨z, hz, rfl⟩ := List.mem_map.1 hl
    refine Text.closed_behind '-' (lines_ended old z ?_)
    rw [hold, List.dropLast_concat]
    exact List.mem_of_mem_drop hz

/-- The first added line is lost on the line of the last removed one. -/
theorem glued_lost (h : Glued old new) {fromName toName : Text} (hfrom : Plain fromName)
    (hto : Plain toName) : ∃ (zs ks : List Text) (y : Text), y ≠ [] ∧ new = (zs ++ y :: ks).flatten ∧
      patch false (unified fromName toName old new) old = some (zs ++ ks).flatten := by
  obtain ⟨front, xs', ks, x, y, a, b, ha, hold, hys, hbody, hfront, hplus, hmoves⟩ := glued_body h
  have hrows := body_rows (fun x (hx : x ∈ lines old) => Text.line_single hx)
    fun y (hy : y ∈ lines new) => Text.line_single hy
  rw [hbody] at hrows
  obtain ⟨hbefore, hlater⟩ := List.forall_mem_append.1 hrows
  obtain ⟨hlast, hplusrows⟩ := List.forall_mem_cons.1 hlater
  have hx : x ∈ lines old := by simp [hold]
  have hopen : ∀ c ∈ '-' :: x, endsLine c = false := List.forall_mem_cons.2 ⟨rfl,
    Text.open_line (Text.line_single hx) (by rw [Text.last_line_closed hold, h.1])⟩
  -- The last removed line takes in the first added one.
  have hlines : lines (body (lines old) (lines new)).flatten =
      front ++ (xs'.drop a).map ('-' :: ·) ++ ('-' :: (x ++ '+' :: y)) :: ks.map ('+' :: ·) := by
    rw [hbody, List.flatten_append, List.flatten_cons, Text.lines_rows
      (fun l hl => ⟨hbefore l hl, hfront l hl⟩) (by simp),
      Text.lines_run_on hopen (Text.lines_joined hplusrows hplus)]
    rfl
  have hnew : lines new = (lines new).take b ++ y :: ks := by rw [← hys, List.take_append_drop]
  refine ⟨(lines new).take b, ks, y, Text.line_some (t := new) (by rw [hnew]; simp), ?_, ?_⟩
  · rw [← hnew, Text.flatten_lines]
  · have hremoved := read_removed (xs'.drop a) false a [x] ((lines new).take b)
    have hadded := read_added ks false (a + (xs'.drop a).length + 1) []
      ((lines new).take b)
    have hstart : Reading.upTo (lines old) (lines new) a b =
        ⟨a, xs'.drop a ++ [x], (lines new).take b⟩ := by
      rw [Reading.upTo, hold, List.drop_append_of_le_length ha]
    have hmerged : readLine false ⟨a + (xs'.drop a).length, [x], (lines new).take b⟩
        ('-' :: (x ++ '+' :: y)) = some ⟨a + (xs'.drop a).length + 1, [], (lines new).take b⟩ := by
      simp [readLine]
    rw [patch_unified hfrom hto, hlines, List.foldlM_append, List.foldlM_append, hmoves, hstart]
    simp only [Option.bind_eq_bind, Option.bind_some, hremoved, List.foldlM_cons, hmerged, hadded,
      Option.map_some, List.append_nil]

/-- For a file name that does not look like a hunk header, a diff that is applied to its text, with
its kept and removed lines checked or not, gives the other text unless it ends with a replacement of
lines the last of which is left open. -/
theorem diff_patches_iff {path : Path} (hname : Plain path.name) (checks : Bool) (old new : Text) :
    patch checks (Batch.diffOf path old new) old = some new ↔ ¬ Glued old new := by
  have hfrom : Plain (path.name ++ " (original)".toList) :=
    plain_append hname (by decide) (Or.inr (by decide))
  have hto : Plain (path.name ++ " (migrated)".toList) :=
    plain_append hname (by decide) (Or.inr (by decide))
  constructor
  · intro hpatch hglued
    obtain ⟨zs, ks, y, hy, hnew, hlost⟩ := glued_lost hglued hfrom hto
    have hsame := (patch_unchecked hpatch).symm.trans hlost
    have hlength := congrArg List.length (hnew.symm.trans (Option.some.inj hsame))
    have := List.length_pos_iff.2 hy
    simp only [List.length_flatten, List.map_append, List.map_cons, List.sum_append,
      List.sum_cons] at hlength
    omega
  · exact fun h => patch_apart hfrom hto checks (body_apart h)

/-! The diffs of a script. -/

def scriptPath : Path := Path.ofString "scene.js"

/-- The last line of the new text may be left open. -/
theorem open_end_patched : Plain scriptPath.name ∧ ¬ Glued "a;\nb;\n".toList "a;\nc;".toList ∧
    patch true (Batch.diffOf scriptPath "a;\nb;\n".toList "a;\nc;".toList) "a;\nb;\n".toList =
      some "a;\nc;".toList := by
  have hplain : Plain scriptPath.name := by decide +kernel
  have hapart : ¬ Glued "a;\nb;\n".toList "a;\nc;".toList := by decide +kernel
  exact ⟨hplain, hapart, (diff_patches_iff hplain true _ _).2 hapart⟩

/-- The last line of the old text is left open and replaced. -/
theorem open_end_lost :
    patch true (Batch.diffOf scriptPath "a;\nb;".toList "a;\nc;\nd;\n".toList) "a;\nb;".toList =
      none ∧
    patch false (Batch.diffOf scriptPath "a;\nb;".toList "a;\nc;\nd;\n".toList) "a;\nb;".toList =
      some "a;\nd;\n".toList := by
  constructor <;> decide +kernel

end Restage.Diff
