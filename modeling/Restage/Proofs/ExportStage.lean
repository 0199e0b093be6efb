import Restage.Proofs.ExportLandmarks

/-!
The stage literal of a legacy export. The pattern for it is silent on all that stands in front of
the literal (`literal_body`), so the setup body stays as it is, and the lines that are kept of the
literal are those of its entries (`export_stage`).
-/

set_option autoImplicit false

namespace Restage.Legacy

open Piece
open Text (endOf)

/-! Where there is no literal. -/

/-- The pieces of a literal up to its brace. -/
def literalHead : List Piece := [.lit "module.exports", .blanks, .lit "=", .blanks, .lit "\x7b"]

theorem literal_head_reads {t r : Text} {parts : List Text}
    (h : readAll literalHead t = some (parts, r)) : '{' ∈ parts.flatten := by
  simp only [literalHead, Piece.lit, readAll_cons_iff, readAll_nil_iff] at h
  obtain ⟨a, _, _, _, ⟨b, _, _, _, ⟨c, _, _, _, ⟨d, _, _, _, ⟨f, _, _, hf, ⟨rfl, rfl⟩, rfl⟩,
    rfl⟩, rfl⟩, rfl⟩, rfl⟩ := h
  rw [(word_split_iff.1 hf).1]
  simp

/-- Without a brace in front of a character that the head of a literal avoids. -/
theorem literal_unopened {x : Char}
    (hx : (x ∉ "module.exports".toList ∧ x ∉ ['=', '{']) ∧ Text.isBlank x = false) {s : Text}
    (hs : '{' ∉ s) (b : Option Char) (t : Text) : Stage.literal.Silent b (s ++ [x]) t := by
  have hpieces : Stage.literal.pieces = literalHead ++ [.run 1 (· != '}'), .lit "\x7d;"] := rfl
  refine Pattern.silent_of_parts hpieces ?_ ?_ b t
  · obtain ⟨⟨hword, hmarks⟩, hb⟩ := hx
    simp only [List.mem_cons, List.not_mem_nil, or_false, not_or] at hmarks
    intro q hq
    simp only [literalHead, List.mem_cons, List.not_mem_nil, or_false] at hq
    rcases hq with rfl | rfl | rfl | rfl | rfl
    · exact hword
    · exact hb
    · simpa [Avoids, Piece.lit] using hmarks.1
    · exact hb
    · simpa [Avoids, Piece.lit] using hmarks.2
  · exact fun u r parts hparts hin => hs (hin.subset (literal_head_reads hparts))

/-- In front of a character that the name of the exports lacks, and without that name. -/
theorem literal_unnamed {x : Char} (hx : x ∉ "module.exports".toList) {s : Text}
    (hs : ¬ "module.exports".toList <:+: s) (b : Option Char) (t : Text) :
    Stage.literal.Silent b (s ++ [x]) t := by
  have hpieces : Stage.literal.pieces =
      [] ++ .word "module.exports".toList :: Stage.literal.pieces.drop 1 := rfl
  exact Pattern.silent_absent hpieces (by simp) hx hs b t

/-- Where there is no `m` there is no literal. -/
theorem literal_without {u : Text} (hu : 'm' ∉ u) (b : Option Char) (t : Text) :
    Stage.literal.Silent b u t := by
  have hpieces : Stage.literal.pieces =
      .word ('m' :: "odule.exports".toList) :: Stage.literal.pieces.drop 1 := rfl
  exact Pattern.silent_of_head hpieces hu b t

theorem base_first (b : Base) : ∃ c w, b.text = c :: w ∧ 'm' ∉ w ∧
    (c ∉ "module.exports".toList ∧ c ∉ ['=', '{']) ∧ Text.isBlank c = false := by
  cases b with
  | animated => exact ⟨'M', "ovieClip".toList, rfl, by decide, by decide, by decide⟩
  | grouping => exact ⟨'C', "ontainer".toList, rfl, by decide, by decide, by decide⟩

theorem literal_forest {library : Text} (hl : Text.isName library = true) {due : Option Base}
    {f : Forest} (hf : f.Exportable due) (b : Option Char) (t : Text) :
    Stage.literal.Silent b (f.legacyText library) t := by
  refine forest_silent ?_ ?_ ?_ ?_ hf b t
  · exact fun s hs => literal_unnamed (by decide) hs.no_literal
  · intro lead b' args hlead ha
    refine literal_unnamed (by decide) fun h => ?_
    have hno : 'm' ∉ lead ++ callLead b' args := by
      have h1 := Text.not_mem_of_all hlead (x := 'm') (by decide)
      have h2 : 'm' ∉ callLead b' args := by
        unfold callLead
        split <;> cases b' <;> decide
      simp [h1, h2]
    rw [callText, ← List.append_assoc] at h
    have h1 := Text.infix_right_of_head hno h
    exact ha.no_literal (Text.infix_left_of_last (w := "module.export".toList) (by decide) h1)
  · intro h hw b t
    obtain ⟨c, w, hcw, hm, hc⟩ := base_first h.base
    have hcut : h.legacyText library ++ ['\n'] = (h.indent ++ h.target library ++ " = ".toList ++ [c]) ++
        ((w ++ (".extend(".toList ++ ("function (".toList ++ (h.params ++ ") \x7b".toList)))) ++
          ['\n']) := by
      simp [Head.legacyText, hcw]
    have hbrace : '{' ∉ h.indent ++ h.target library ++ " = ".toList := by
      have h1 := Text.not_mem_of_all hw.indent (x := '{') (by decide)
      have h2 := library_lacks hl (x := '{') (by decide)
      have h3 := Text.not_mem_of_all (Text.name_parts hw.name) (x := '{') (by decide)
      unfold Head.target
      split <;> simp [h1, h2, h3]
    have hrest : ¬ "module.exports".toList <:+:
        w ++ (".extend(".toList ++ ("function (".toList ++ (h.params ++ ") \x7b".toList))) := by
      intro hin
      have h1 : '.' ∉ h.params ++ ") \x7b".toList := by
        have := Text.not_mem_of_all hw.params.1 (x := '.') (by decide)
        simp [this]
      have hfront : 'm' ∉ w ++ (".extend(".toList ++ "function (".toList) := by
        simp only [List.mem_append, hm, false_or]
        decide
      rw [show w ++ (".extend(".toList ++ ("function (".toList ++ (h.params ++ ") \x7b".toList))) =
        (w ++ (".extend(".toList ++ "function (".toList)) ++ (h.params ++ ") \x7b".toList) by simp] at hin
      exact h1 ((Text.infix_right_of_head hfront hin).subset (by decide))
    rw [hcut]
    exact Pattern.silent_append.2 ⟨literal_unopened hc hbrace _ _, literal_unnamed (x := '\n') (by decide) hrest _ _⟩
  · intro indent hi b t
    refine literal_without ?_ b t
    have := Text.not_mem_of_all hi (x := 'm') (by decide)
    simp [this]

/-- A quoted string holds no brace. -/
theorem literal_quote {s : Text} (hs : AssetString s) (b : Option Char) (t : Text) :
    Stage.literal.Silent b (quoteText s) t := by
  have hbrace : '{' ∉ s := fun h => by simpa using hs _ h
  exact Pattern.silent_append (u := ['\x22']) |>.2
    ⟨literal_without (by decide) _ _, literal_unopened (by decide) hbrace _ _⟩

theorem literal_fillers {u : Text} (hu : ∀ c ∈ u, isFiller c = true) (b : Option Char) (t : Text) :
    Stage.literal.Silent b u t := literal_without (fillers_lack (by decide) hu) b t

theorem literal_pairs {ps : List AssetPair} (hps : ∀ p ∈ ps, p.Formed) (b : Option Char)
    (t : Text) : Stage.literal.Silent b (ps.flatMap AssetPair.text) t := by
  induction ps generalizing b with
  | nil => exact Pattern.silent_nil b t
  | cons p ps ih =>
    have hp := hps p (by simp)
    rw [List.flatMap_cons, AssetPair.text]
    simp only [Pattern.silent_append]
    exact ⟨⟨literal_fillers hp.lead _ _, literal_quote hp.id _ _, literal_fillers hp.middle _ _,
      literal_quote hp.path _ _⟩, ih (fun q hq => hps q (by simp [hq])) _⟩

namespace Export

variable {e : Export} (he : e.Formed)
include he

theorem literal_assignment (b : Option Char) (t : Text) :
    Stage.literal.Silent b (e.assignment e.libraryAlias) t := by
  have hcut : e.assignment e.libraryAlias =
      ((e.indent ++ (e.libraryAlias ++ ('.' :: (e.stage ++ ['.'])))) ++ ['a']) ++
        ("ssets = \x7b".toList ++ (e.pairs.flatMap AssetPair.text ++ (e.close ++ "\x7d;".toList))) := by
    simp [assignment, inner]
  have hbrace : '{' ∉ e.indent ++ (e.libraryAlias ++ ('.' :: (e.stage ++ ['.']))) := by
    have h1 := Text.not_mem_of_all he.indent (x := '{') (by decide)
    have h2 := library_lacks he.libraryAlias (x := '{') (by decide)
    have h3 := library_lacks he.stage (x := '{') (by decide)
    simp [h1, h2, h3]
  rw [hcut]
  refine Pattern.silent_append.2 ⟨literal_unopened (x := 'a') (by decide) hbrace _ _, ?_⟩
  simp only [Pattern.silent_append]
  exact ⟨literal_without (by decide) _ _, literal_pairs he.pairs _ _, literal_fillers he.close _ _,
    literal_without (by decide) _ _⟩

/-- The setup body holds no stage literal. -/
theorem literal_body (b : Option Char) (t : Text) : Stage.literal.Silent b e.body t := by
  rw [body, ← List.singleton_append, ← List.singleton_append (x := '\n') (l := Forest.legacyText _ _)]
  simp only [Pattern.silent_append]
  exact ⟨literal_without (by decide) _ _, literal_forest he.libraryAlias he.front _ _,
    literal_assignment he _ _, literal_without (by decide) _ _,
    literal_forest he.libraryAlias he.back _ _⟩

/-- What the pieces of the literal take. -/
def literalParts (e : Export) : List Text :=
  ["module.exports".toList, [' '], ['='], [' '], ['{'],
    '\n' :: e.entries.flatMap (fun x => x.line ++ ['\n']), "\x7d;".toList]

theorem literal_fits (b : Option Char) (t : Text) :
    Stage.literal.fits? b (e.literal ++ t) = some e.literalParts := by
  have hlines : ∀ c ∈ '\n' :: e.entries.flatMap (fun x => x.line ++ ['\n']),
      (c != '}') = true := fun c hc => by
    simp only [bne_iff_ne, ne_eq]
    rintro rfl
    rcases List.mem_cons.1 hc with h | h
    · simp at h
    · exact entry_lines_lack he (Or.inr rfl) h
  have hshape : e.literal ++ t = "module.exports".toList ++ ([' '] ++ ("=".toList ++ ([' '] ++
      ("\x7b".toList ++ (('\n' :: e.entries.flatMap fun x => x.line ++ ['\n']) ++
        ("\x7d;".toList ++ t)))))) := by
    unfold literal
    simp
  refine Pattern.fits_of_reads rfl (r := t) ?_
  rw [hshape]
  simp only [Stage.literal, Piece.lit, Piece.blanks]
  rw [readAll_cons (word_split _ _),
    readAll_cons (run_split (u := [' ']) (by simp) (by decide) (by simp; decide)),
    readAll_cons (word_split _ _),
    readAll_cons (run_split (u := [' ']) (by simp) (by decide) (by simp; decide)),
    readAll_cons (word_split _ _), readAll_cons (run_split (by simp) hlines (by simp)),
    readAll_cons (word_split _ _)]
  rfl

/-- The stage literal of an export is found. -/
theorem literal_first : ∃ i, Stage.literal.first? e.text.entire = some ⟨i, e.literalParts⟩ := by
  have hunnamed : ∀ u : Text, '.' ∉ u → ¬ "module.exports".toList <:+: u :=
    fun u hu h => hu (h.subset (by decide))
  have hn := library_lacks he.namespaceAlias (x := '.') (by decide)
  have hl := library_lacks he.libraryAlias (x := '.') (by decide)
  have hopen : ∀ b t, Stage.literal.Silent b e.opening t := by
    have hcut : e.opening = ("(function (".toList ++ (e.namespaceAlias ++ (", ".toList ++
        (e.libraryAlias ++ ") ".toList)))) ++ ['{'] := by
      unfold opening
      simp
    rw [hcut]
    exact literal_unnamed (by decide) (hunnamed _ (by simp [hn, hl]))
  have hcall : ∀ b t, Stage.literal.Silent b (Setup.closing ++ e.arguments) t := by
    have hcut : Setup.closing ++ e.arguments = (Setup.closing ++ (e.namespaceAlias ++ (", ".toList ++
        (e.libraryAlias ++ " = \x7b\x7d);".toList)))) ++ ['\n'] := by
      unfold arguments
      simp
    rw [hcut]
    exact literal_unnamed (by decide) (hunnamed _ (by simp [hn, hl, Setup.closing]))
  have htext : e.text = e.opening ++ (e.body ++ ((Setup.closing ++ e.arguments) ++
      (e.literal ++ ['\n']))) := by
    simp [text]
  refine ⟨0 + e.opening.length + e.body.length + (Setup.closing ++ e.arguments).length, ?_⟩
  rw [htext, Pattern.first?, Text.entire]
  simp only
  rw [Pattern.first_silent (hopen _ _), Pattern.first_silent (literal_body he _ _),
    Pattern.first_silent (hcall _ _), Pattern.first_fit (literal_fits he _ _)]

/-- The literal is no part of the setup body. -/
theorem literal_outside : Text.erase e.body e.literal = e.body := by
  refine Text.erase_absent fun ⟨a, c, h⟩ => ?_
  have hsilent := literal_body he none [] a (e.literal ++ c) (by rw [← h]; simp)
    (by unfold literal; simp)
  rw [List.append_nil, literal_fits he] at hsilent
  simp at hsilent

end Export

/-! The kept lines. -/

namespace Entry

variable {x : Entry}

theorem content_head (hx : x.Formed) (t : Text) :
    (x.content ++ t).head?.any (fun c => !Text.isBlank c) = true := by
  obtain ⟨c, k, hck⟩ := List.exists_cons_of_ne_nil hx.key_some
  have hc : Text.isBlank c = false := by
    by_contra hb
    have := Text.blank_not_part (by simpa using hb)
    rw [hx.key c (by simp [hck])] at this
    simp at this
  simp [content, hck, hc]

theorem line_strip (hx : x.Formed) : x.line.strip = x.content ++ [','] := by
  have := Text.trim_between (a := x.indent) (u := x.content ++ [',']) (b := [])
    (fun c hc => Text.indent_blank (hx.indent c hc)) (by simp) (content_head hx _)
    (by simp; decide)
  simpa [line, Text.strip] using this

theorem content_strip (hx : x.Formed) : (x.content ++ [',']).strip = x.content ++ [','] :=
  Text.trim_of_ends (content_head hx _) (by simp; decide)

theorem content_one_line (hx : x.Formed) {stage : Text} (hc : Export.ClearValue stage x.value) :
    ∀ c ∈ x.content, Script.isNewline c = false ∧ c ≠ ',' := by
  intro c hm
  simp only [content, List.mem_append] at hm
  rcases hm with hm | hm | hm
  · have hpart := hx.key c hm
    constructor
    · by_contra hn
      have hblank : Text.isBlank c = true := by
        simp only [Script.isNewline, Bool.not_eq_false, Bool.or_eq_true, beq_iff_eq] at hn
        rcases hn with ((rfl | rfl) | hn) | hn
        · decide
        · decide
        · simp [Text.isBlank, hn]
        · simp [Text.isBlank, hn]
      simp [Text.blank_not_part hblank] at hpart
    · rintro rfl
      revert hpart
      decide
  · revert c
    decide
  · exact ⟨hc.one_line c hm, fun h => by simpa [h] using hx.value c hm⟩

end Entry

/-- Where a literal is cut into its entries. -/
def isCut (c : Char) : Bool := c == '\r' || c == '\n'

theorem cut_newline {c : Char} (h : Script.isNewline c = false) : isCut c = false := by
  simp only [Script.isNewline, Bool.or_eq_false_iff] at h
  simp [isCut, h]

section

variable {stage : Text} {xs : List Entry}

theorem line_uncut {x : Entry} (hx : x.Formed) (hc : Export.ClearValue stage x.value) :
    ∀ c ∈ x.line, isCut c = false := by
  intro c hm
  simp only [Entry.line, List.mem_append, List.mem_singleton] at hm
  rcases hm with hm | hm | rfl
  · have := hx.indent c hm
    simp only [isIndent, Bool.or_eq_true, beq_iff_eq] at this
    rcases this with rfl | rfl <;> decide
  · exact cut_newline (Entry.content_one_line hx hc c hm).1
  · decide

theorem split_lines (hxs : ∀ x ∈ xs, x.Formed ∧ Export.ClearValue stage x.value) {u : Text}
    (hu : ∀ c ∈ u, isCut c = false) :
    Text.splitWhere isCut (u ++ xs.flatMap fun y => '\n' :: y.line) = u :: xs.map Entry.line := by
  induction xs generalizing u with
  | nil => simpa using Text.split_whole hu
  | cons y ys ih =>
    obtain ⟨hy, hc⟩ := hxs y (by simp)
    rw [List.flatMap_cons, List.cons_append, Text.split_head hu (by decide),
      ih (fun x hx => hxs x (by simp [hx])) (line_uncut hy hc), List.map_cons]

theorem lines_turned (xs : List Entry) :
    '\n' :: xs.flatMap (fun y => y.line ++ ['\n']) =
      xs.flatMap (fun y => '\n' :: y.line) ++ ['\n'] := by
  induction xs with
  | nil => rfl
  | cons y ys ih => simp [ih]

theorem lines_last (xs : List Entry) (u : Text) :
    ∃ w, (u ++ [',']) ++ xs.flatMap (fun y => '\n' :: y.line) = w ++ [','] := by
  induction xs generalizing u with
  | nil => exact ⟨u, by simp⟩
  | cons y ys ih =>
    obtain ⟨w, hw⟩ := ih (u ++ ',' :: '\n' :: (y.indent ++ y.content))
    exact ⟨w, by rw [← hw]; simp [Entry.line]⟩

theorem trimmed_cons {p : Text} (ps : List Text) (hp : p.strip ≠ []) :
    Stage.trimmed (p :: ps) = p.strip :: Stage.trimmed ps := by
  simp [Stage.trimmed, hp]

theorem entries_single {inner one : Text}
    (h : Stage.trimmed (Text.splitWhere isCut inner.strip) = [one]) : Stage.entries inner =
      if one.contains ',' then Stage.trimmed (Text.splitOn ',' one) else [one] := by
  have hcut : Stage.trimmed (Text.splitWhere (fun c => c == '\r' || c == '\n') inner.strip) =
      [one] := h
  rw [Stage.entries, hcut]

theorem entries_several {inner one two : Text} {rest : List Text}
    (h : Stage.trimmed (Text.splitWhere isCut inner.strip) = one :: two :: rest) :
    Stage.entries inner = one :: two :: rest := by
  have hcut : Stage.trimmed (Text.splitWhere (fun c => c == '\r' || c == '\n') inner.strip) =
      one :: two :: rest := h
  rw [Stage.entries, hcut]

theorem lines_trimmed {ys : List Entry} (hys : ∀ y ∈ ys, y.Formed) :
    Stage.trimmed (ys.map Entry.line) = ys.map fun y => y.content ++ [','] := by
  induction ys with
  | nil => rfl
  | cons y ys ih =>
    have hy := Entry.line_strip (hys y (by simp))
    rw [List.map_cons, trimmed_cons _ (by simp [hy]), hy, ih fun z hz => hys z (by simp [hz])]
    rfl

/-- What stands between the braces of a literal, without the blanks around it. -/
theorem inner_strip {x : Entry} (hx : x.Formed) (xs : List Entry) :
    Text.strip ('\n' :: (x :: xs).flatMap (fun y => y.line ++ ['\n'])) =
      (x.content ++ [',']) ++ xs.flatMap fun y => '\n' :: y.line := by
  have hshape : '\n' :: (x :: xs).flatMap (fun y => y.line ++ ['\n']) = ('\n' :: x.indent) ++
      (((x.content ++ [',']) ++ xs.flatMap fun y => '\n' :: y.line) ++ ['\n']) := by
    rw [lines_turned]
    simp [Entry.line]
  obtain ⟨w, hw⟩ := lines_last xs x.content
  rw [hshape, Text.strip]
  refine Text.trim_between ?_ (by decide) ?_ ?_
  · intro c hm
    rcases List.mem_cons.1 hm with rfl | hm
    · decide
    · exact Text.indent_blank (hx.indent c hm)
  · rw [List.append_assoc]
    exact Entry.content_head hx _
  · rw [hw]
    simp
    decide

/-- Its lines are the contents of the entries, each with its comma. -/
theorem inner_lines {x : Entry} (hxs : ∀ y ∈ x :: xs, y.Formed ∧ Export.ClearValue stage y.value) :
    Stage.trimmed (Text.splitWhere isCut
      (Text.strip ('\n' :: (x :: xs).flatMap fun y => y.line ++ ['\n']))) =
      (x :: xs).map fun y => y.content ++ [','] := by
  obtain ⟨hx, hc⟩ := hxs x (by simp)
  have hrest : ∀ y ∈ xs, y.Formed ∧ Export.ClearValue stage y.value :=
    fun y hy => hxs y (by simp [hy])
  have huncut : ∀ c ∈ x.content ++ [','], isCut c = false := by
    intro c hm
    rcases List.mem_append.1 hm with hm | hm
    · exact cut_newline (Entry.content_one_line hx hc c hm).1
    · rw [List.mem_singleton.1 hm]
      decide
  have hstrip := Entry.content_strip hx
  rw [inner_strip hx, split_lines hrest huncut, trimmed_cons _ (by simp [hstrip]), hstrip,
    lines_trimmed fun y hy => (hrest y hy).1]
  rfl

/-- A single line is cut at its comma. -/
theorem single_part {x : Entry} (hx : x.Formed) (hc : Export.ClearValue stage x.value) :
    ∀ p ∈ Stage.trimmed (Text.splitOn ',' (x.content ++ [','])), p = x.content.strip := by
  have hcomma : ∀ c ∈ x.content, (c == ',') = false := fun c hm => by
    simpa using (Entry.content_one_line hx hc c hm).2
  have hsplit : Text.splitOn ',' (x.content ++ [',']) = [x.content, []] := by
    rw [Text.split_on_where, Text.split_head hcomma (by decide)]
    rfl
  have hempty : Text.strip [] = [] := rfl
  intro p hp
  rw [hsplit, Stage.trimmed, List.map_cons, List.map_cons, List.map_nil, hempty] at hp
  obtain ⟨hp, hsome⟩ := List.mem_filter.1 hp
  simp only [List.mem_cons, List.not_mem_nil, or_false] at hp
  rcases hp with rfl | rfl
  · rfl
  · simp at hsome

/-- The entries between the braces of a literal. -/
theorem entries_kept (hxs : ∀ x ∈ xs, x.Formed ∧ Export.ClearValue stage x.value) :
    ∀ p ∈ Stage.entries ('\n' :: xs.flatMap fun y => y.line ++ ['\n']),
      ∃ x ∈ xs, p = x.content ++ [','] ∨ p = x.content.strip := by
  intro p hp
  match xs with
  | [] =>
    revert hp p
    decide
  | [x] =>
    obtain ⟨hx, hc⟩ := hxs x (by simp)
    rw [entries_single (inner_lines hxs), if_pos (by simp)] at hp
    exact ⟨x, by simp, Or.inr (single_part hx hc p hp)⟩
  | x :: y :: ys =>
    rw [entries_several (inner_lines hxs)] at hp
    change p ∈ (x :: y :: ys).map fun z => z.content ++ [','] at hp
    obtain ⟨z, hz, rfl⟩ := List.mem_map.1 hp
    exact ⟨z, hz, Or.inl rfl⟩

end

/-- A kept line is the content of an entry and a comma. -/
def KeptLine (x : Entry) (l : Text) : Prop :=
  ∃ m, l = m ++ [','] ∧ (m = x.content ∨ m = x.content.strip)

/-- The stage of an export, and the lines that are kept of its literal. -/
theorem export_stage {e : Export} (he : e.Formed) (hc : e.Clear) :
    ∃ lines, Stage.find e.text = ⟨lines, false, some e.literal⟩ ∧
      ∀ l ∈ lines, ∃ x ∈ e.entries, KeptLine x l := by
  obtain ⟨i, hi⟩ := Export.literal_first he
  have hxs : ∀ x ∈ e.entries, x.Formed ∧ Export.ClearValue e.stage x.value :=
    fun x hx => ⟨he.entries x hx, hc.values x hx⟩
  have hflat : e.literalParts.flatten = e.literal := by
    unfold Export.literal
    simp [Export.literalParts]
  refine ⟨((Stage.entries ('\n' :: e.entries.flatMap fun y => y.line ++ ['\n'])).filter fun p =>
    !Stage.reservedKeys.contains (Stage.keyOf p)).map Stage.withComma, ?_, ?_⟩
  · rw [Stage.find, hi]
    simp only [Hit.text, hflat]
    rfl
  intro l hl
  obtain ⟨p, hp, rfl⟩ := List.mem_map.1 hl
  obtain ⟨x, hx, hxp⟩ := entries_kept hxs p (List.mem_filter.1 hp).1
  have hcomma : ',' ∉ x.content := fun h =>
    (Entry.content_one_line (hxs x hx).1 (hxs x hx).2 _ h).2 rfl
  refine ⟨x, hx, ?_⟩
  rcases hxp with rfl | rfl
  · have hends : Text.endsWith (x.content ++ [',']) [','] = true := by
      simp [Text.endsWith, Text.startsWith, Text.after?]
    exact ⟨x.content, by rw [Stage.withComma, if_pos hends], Or.inl rfl⟩
  · refine ⟨x.content.strip, ?_, Or.inr rfl⟩
    rw [Stage.withComma, if_neg]
    intro hends
    obtain ⟨a, b, hab, _, _⟩ := Text.trim_parts Text.isBlank x.content
    have hin : ',' ∈ x.content.strip.reverse := by
      obtain ⟨r, hr⟩ := Option.isSome_iff_exists.1 hends
      rw [Text.after?_eq_some.1 hr]
      simp
    exact hcomma (by rw [hab]; simp [Text.strip] at hin; simp [hin])

end Restage.Legacy
