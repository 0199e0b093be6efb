import Restage.Proofs.CheckedLines
import Restage.Proofs.FinalStyle
import Restage.Proofs.Outcome

/-!
The setup body of an export as it is put into the module. The stage statement stands in the place of
the assets assignment (`attached_rewritten`); then nothing in the body is left that a check looks for
(`attached_clean`), its brackets pair up (`attached_balanced`) and its classes are declared in it
(`attached_declares`).
-/

set_option autoImplicit false

namespace Restage.Output

open Legacy
open Export (assetsWord)
open Text (endOf)

/-! Rows in their final style. -/

section

variable {stage : Text}

theorem word_dots (stage : Text) : 3 ≤ (assetsWord stage).count '.' := by
  have h1 : "data.lib.".toList.count '.' = 2 := by decide
  have h2 : ".assets".toList.count '.' = 1 := by decide
  unfold assetsWord
  rw [List.count_append, List.count_append, h1, h2]
  omega

theorem word_absent {t : Text} (h : t.count '.' ≤ 2) : ¬ assetsWord stage <:+: t := by
  intro hin
  have h1 := word_dots stage
  have h2 := count_infix (c := '.') hin
  omega

theorem head_dots {indent name : Text} {base : Base} (exported : Bool)
    (hi : ∀ c ∈ indent, Piece.isIndent c = true) (hn : Text.isName name = true) :
    ((Row.head indent exported name base).text .final).count '.' ≤ 2 := by
  have h1 := count_zero (c := '.') hi (by decide)
  have h2 := count_zero (c := '.') (Text.name_parts hn) (by decide)
  have h3 := count_zero (c := '.') (base_chars base) (by decide)
  have h4 : " = class ".toList.count '.' = 0 := by decide
  have h5 : " extends ".toList.count '.' = 0 := by decide
  have h6 : " \x7b".toList.count '.' = 0 := by decide
  have hlead : (Row.lead .final exported).count '.' ≤ 2 := by cases exported <;> decide
  unfold Row.text Row.headRest
  simp only [List.count_append, h1, h2, h3, h4, h5, h6]
  omega

theorem row_clean {r : Row} (hr : r.Fine) : Clean stage (r.text .final) := by
  cases r with
  | code s => exact clean_plain hr
  | head indent exported name base =>
    obtain ⟨u, htext, hu⟩ := head_chars final_proper base exported hr.1 hr.2.1
    have hparen : '(' ∉ (Row.head indent exported name base).text .final := by
      rw [htext, List.mem_append, not_or]
      exact ⟨Text.not_mem_of_all hu (by decide), by decide⟩
    exact ⟨row_bare final_proper hr, fun h => hparen (h.subset (by simp)),
      fun h => hparen (h.subset (by simp)), word_absent (head_dots exported hr.1 hr.2.1)⟩

theorem rows_clean (hs : Text.isName stage = true) {rows : List Row} (h : ∀ r ∈ rows, r.Fine)
    {t : Text} (ht : Clean stage t) : Clean stage (rowsText .final rows ++ t) := by
  induction rows with
  | nil => exact ht
  | cons r rows ih =>
    rw [rows_text_cons, List.append_assoc]
    exact clean_line hs (row_clean (h r (by simp))) (ih fun q hq => h q (by simp [hq]))

theorem rows_end (σ : Style) (rows : List Row) :
    endOf (some '\n') (rowsText σ rows) = some '\n' := by
  induction rows with
  | nil => rfl
  | cons r rows ih =>
    rw [rows_text_cons, Text.endOf_append]
    exact ih

end

theorem name_uncut {n : Text} (hn : Text.isName n = true) : ∀ c ∈ n, isCut c = false := by
  intro c hc
  by_contra hcut
  rw [Bool.not_eq_false] at hcut
  simp only [isCut, Bool.or_eq_true, beq_iff_eq] at hcut
  rcases hcut with rfl | rfl
  · exact name_lacks hn (by decide) hc
  · exact name_lacks hn (by decide) hc

/-! The statement in the place of the assignment. -/

theorem attach_pieces (stage : Text) : (assetsAssignment stage).pieces = [] ++
    .word (assetsWord stage) :: [.blanks, .lit "=", .blanks, .lit "\x7b", .run 0 (· != '}'),
      .lit "\x7d", .maybe [';']] := rfl

section

variable {stage : Text}

theorem attach_silent_rows (hs : Text.isName stage = true) {rows : List Row}
    (h : ∀ r ∈ rows, r.Fine) (b : Option Char) (t : Text) :
    (assetsAssignment stage).Silent b (rowsText .final rows) t := by
  induction rows generalizing b with
  | nil => exact Pattern.silent_nil b t
  | cons r rows ih =>
    have hline : '\n' ∉ assetsWord stage := Text.not_mem_of_all (assets_word_chars hs) (by decide)
    rw [rows_text_cons, List.append_cons]
    exact Pattern.silent_append.2 ⟨Pattern.silent_absent (attach_pieces stage) (by simp) hline
      (row_clean (h r (by simp))).no_assets _ _, ih (fun q hq => h q (by simp [hq])) _⟩

theorem attach_silent_without {u : Text} (hu : 'd' ∉ u) (b : Option Char) (t : Text) :
    (assetsAssignment stage).Silent b u t := by
  obtain ⟨w, hw⟩ := assets_word_head stage
  have hpieces := attach_pieces stage
  rw [hw] at hpieces
  exact Pattern.silent_of_head hpieces hu b t

end

end Restage.Output

namespace Restage.Legacy.Export

open Output
open Text (endOf)

variable {e : Export}

/-- A setup body with the stage statement in the place of the assets assignment. -/
def attachedBody (e : Export) (front back : List Row) : Text :=
  '\n' :: (rowsText .final front ++
    ((e.indent ++ stageStatement e.stage) ++ '\n' :: rowsText .final back))

/-- What the pieces take of the assignment that is replaced. -/
def attachedParts (e : Export) : List Text :=
  [assetsWord e.stage, [' '], ['='], [' '], ['{'], e.inner, ['}'], [';']]

variable (he : e.Formed)
include he

theorem attached_fits {b : Option Char} (hb : Pattern.freshName b = true) (t : Text) :
    (assetsAssignment e.stage).fits? b (e.attachedParts.flatten ++ t) = some e.attachedParts := by
  have hinner : ∀ c ∈ e.inner, (c != '}') = true := fun c hc => by
    simp only [bne_iff_ne, ne_eq]
    rintro rfl
    exact inner_unclosed he hc
  have hshape : e.attachedParts.flatten ++ t = assetsWord e.stage ++ ([' '] ++ ("=".toList ++
      ([' '] ++ ("\x7b".toList ++ (e.inner ++ ("\x7d".toList ++ ([';'] ++ t))))))) := by
    simp [attachedParts]
  refine Pattern.fits_of_reads hb (r := t) ?_
  rw [attach_pieces, hshape]
  simp only [List.nil_append, Piece.lit, Piece.blanks]
  rw [Piece.readAll_cons (Piece.word_split _ _),
    Piece.readAll_cons (Piece.run_split (u := [' ']) (by simp) (by decide) (by simp; decide)),
    Piece.readAll_cons (Piece.word_split _ _),
    Piece.readAll_cons (Piece.run_split (u := [' ']) (by simp) (by decide) (by simp; decide)),
    Piece.readAll_cons (Piece.word_split _ _),
    Piece.readAll_cons (Piece.run_split (by simp) hinner (by simp)),
    Piece.readAll_cons (Piece.word_split _ _), Piece.readAll_cons (Piece.maybe_split _ _)]
  rfl

theorem attached_rewritten {front back : List Row} (hfront : ∀ r ∈ front, r.Fine)
    {assets : Assets} (hfound : assets.found = true) (hname : assets.stageName = some e.stage) :
    Output.attachedBody assets (e.rewrittenBody .final front back) = e.attachedBody front back := by
  have hsome : e.stage.isEmpty = false := by
    obtain ⟨c, u, hcu, _⟩ := Text.name_head he.stage
    rw [hcu]
    rfl
  have hsilent : ∀ t, (assetsAssignment e.stage).Silent none
      (['\n'] ++ (rowsText .final front ++ e.indent)) t := by
    intro t
    have hindent : 'd' ∉ e.indent := Text.not_mem_of_all he.indent (by decide)
    exact Pattern.silent_append.2 ⟨attach_silent_without (by decide) _ _, Pattern.silent_append.2
      ⟨attach_silent_rows he.stage hfront _ _, attach_silent_without hindent _ _⟩⟩
  have hfresh : Pattern.freshName (endOf none (['\n'] ++ (rowsText .final front ++ e.indent))) =
      true := by
    rw [Text.endOf_append, Text.endOf_append]
    have hend : endOf (endOf none ['\n']) (rowsText .final front) = some '\n' := rows_end _ _
    rw [hend]
    exact blank_fresh (by decide) fun c hc => Text.indent_blank (he.indent c hc)
  have hshape : e.rewrittenBody .final front back =
      (['\n'] ++ (rowsText .final front ++ e.indent)) ++
        (e.attachedParts.flatten ++ '\n' :: rowsText .final back) := by
    unfold rewrittenBody assignment attachedParts assetsWord Style.final
    simp
  have hfirst : (assetsAssignment e.stage).first? (e.rewrittenBody .final front back).entire =
      some ⟨0 + (['\n'] ++ (rowsText .final front ++ e.indent)).length, e.attachedParts⟩ := by
    rw [hshape, Pattern.first?, Text.entire]
    simp only
    rw [Pattern.first_silent (hsilent _), Pattern.first_fit (attached_fits he hfresh _)]
  unfold Output.attachedBody
  rw [hfound, hname]
  simp only [hsome, Bool.false_eq_true, if_false, hfirst, Hit.stop, Hit.text]
  rw [hshape, attachedBody]
  rw [Nat.zero_add, List.take_left, ← List.drop_drop, List.drop_left, List.drop_left]
  simp

theorem statement_clean : Clean e.stage (e.indent ++ stageStatement e.stage) := by
  have hindent := Text.not_mem_of_all he.indent (x := '(') (by decide)
  have hname := name_lacks he.stage (x := '(') (by decide)
  refine clean_unopened (fun c hc => ?_) ?_ fun h => ?_
  · unfold stageStatement at hc
    rw [List.mem_append, List.mem_append, List.mem_append, List.mem_singleton] at hc
    rcases hc with hc | (hc | hc) | rfl
    · exact harmless_of (by decide) (he.indent c hc)
    · exact (by decide : ∀ c ∈ "data.stage = data.lib.".toList,
        Script.opensLiteral c = false ∧ c ≠ '>') c hc
    · exact harmless_of (by decide) (Text.name_parts he.stage c hc)
    · decide
  · unfold stageStatement
    simp [hindent, hname]
  · have hspace : ' ' ∉ assetsWord e.stage :=
      Text.not_mem_of_all (assets_word_chars he.stage) (by decide)
    have hcut : e.indent ++ stageStatement e.stage = (e.indent ++ "data.stage".toList) ++
        ' ' :: ("= data.lib.".toList ++ (e.stage ++ [';'])) := by
      unfold stageStatement
      simp
    have hdots := count_zero he.indent (c := '.') (by decide)
    have hnone := count_zero (Text.name_parts he.stage) (c := '.') (by decide)
    rw [hcut] at h
    rcases Text.infix_across hspace h with h | h
    · exact word_absent (by simp [hdots]) h
    · exact word_absent (by simp [hnone]) h

/-- Nothing that a check looks for is left. -/
theorem attached_clean {front back : List Row} (hfront : ∀ r ∈ front, r.Fine)
    (hback : ∀ r ∈ back, r.Fine) : Clean e.stage (e.attachedBody front back) := by
  have hnil : Clean e.stage [] := clean_undotted (by simp) (by simp)
  have hrows := rows_clean he.stage hback hnil
  rw [List.append_nil] at hrows
  exact clean_line he.stage hnil (rows_clean he.stage hfront
    (clean_line he.stage (statement_clean he) hrows))

/-- The brackets of the body are those of its rows. -/
theorem attached_brackets {front back : List Row} (hfront : ∀ r ∈ front, r.Fine)
    (hback : ∀ r ∈ back, r.Fine) : (e.attachedBody front back).filter Script.isBracket =
      front.flatMap Row.brackets ++ back.flatMap Row.brackets := by
  have hline : Script.isBracket '\n' = false := by decide
  have hindent := unbracketed he.indent fun c => indent_not_bracket
  have hname := unbracketed (Text.name_parts he.stage) fun c => name_not_bracket
  have hstatement : (stageStatement e.stage).filter Script.isBracket = [] := by
    have hword : "data.stage = data.lib.".toList.filter Script.isBracket = [] := by decide
    have hend : [';'].filter Script.isBracket = [] := by decide
    unfold stageStatement
    rw [List.filter_append, List.filter_append, hword, hname, hend]
    rfl
  unfold attachedBody
  simp only [List.filter_cons, hline, List.filter_append, hindent, hstatement,
    rows_brackets final_proper hfront, rows_brackets final_proper hback]
  simp

end Restage.Legacy.Export

namespace Restage.Legacy

open Output

/-! What the conversion and the substitutions keep. -/

section

variable {rows : List Row}

theorem kept_balanced {library : Text} (hl : Text.isName library = true) {f : Forest}
    (hf : f.Exportable none) (h : Kept (f.rows none) rows) :
    Script.Balanced (rows.flatMap Row.brackets) := by
  rw [h.brackets, ← rows_brackets (converted_proper hl) (rows_fine hf), rows_class_text]
  exact Script.balanced_of_brackets (by simp) (class_balanced hl hf)

theorem kept_names {f : Forest} (h : Kept (f.rows none) rows) : rowNames rows = f.names := by
  rw [h.names, rows_names]

theorem row_name {n : Text} (h : ∀ r ∈ rows, r.Fine) (hn : n ∈ rowNames rows) :
    Text.isName n = true := by
  obtain ⟨r, hr, hname⟩ := List.mem_filterMap.1 hn
  cases r with
  | code s => simp [Row.name?] at hname
  | head indent exported name base =>
    simp only [Row.name?, Option.some.injEq] at hname
    exact hname ▸ (h _ hr).2.1

/-- The head of a class declares it. -/
theorem rows_declare (σ : Style) {n : Text} (hn : n ∈ rowNames rows) :
    declaration n <:+: rowsText σ rows := by
  obtain ⟨r, hr, hname⟩ := List.mem_filterMap.1 hn
  obtain ⟨u, v, rfl⟩ := List.append_of_mem hr
  have hrow : declaration n <:+: r.text σ := by
    cases r with
    | code s => simp [Row.name?] at hname
    | head indent exported name base =>
      simp only [Row.name?, Option.some.injEq] at hname
      subst hname
      refine ⟨indent ++ (Row.lead σ exported ++ (name ++ " =".toList)), base.text ++ " \x7b".toList, ?_⟩
      unfold Row.text Row.headRest declaration
      simp
  refine hrow.trans ⟨rowsText σ u, '\n' :: rowsText σ v, ?_⟩
  rw [rows_text_append, rows_text_cons, List.append_assoc]

end

namespace Export

variable {e : Export} {front back : List Row}

theorem attached_balanced (he : e.Formed) (hfront : Kept (e.front.rows none) front)
    (hback : Kept (e.back.rows none) back) :
    Script.Balanced ((e.attachedBody front back).filter Script.isBracket) := by
  rw [attached_brackets he hfront.fine hback.fine]
  exact Script.balanced_append (kept_balanced he.libraryAlias he.front hfront)
    (kept_balanced he.libraryAlias he.back hback)

/-- The classes are declared in the body, also when line ends around it are trimmed. -/
theorem attached_declares (hfront : Kept (e.front.rows none) front)
    (hback : Kept (e.back.rows none) back) :
    ∀ n ∈ e.front.names ++ e.back.names,
      declaration n <:+: Text.trim isCut (e.attachedBody front back) := by
  intro n hn
  rw [← kept_names hfront, ← kept_names hback, List.mem_append] at hn
  have hname : Text.isName n = true := hn.elim (row_name hfront.fine) (row_name hback.fine)
  have hsome : declaration n ≠ [] := by
    unfold declaration
    simp
  refine Text.infix_trim hsome (fun c hc => ?_) ?_
  · unfold declaration at hc
    rw [List.mem_append, List.mem_append] at hc
    rcases hc with hc | hc | hc
    · exact (by decide : ∀ c ∈ " class ".toList, isCut c = false) c hc
    · exact name_uncut hname c hc
    · exact (by decide : ∀ c ∈ " extends ".toList, isCut c = false) c hc
  · unfold attachedBody
    rcases hn with hn | hn
    · exact (rows_declare .final hn).trans ⟨['\n'], (e.indent ++ stageStatement e.stage) ++
        '\n' :: rowsText .final back, by simp⟩
    · exact (rows_declare .final hn).trans ⟨'\n' :: (rowsText .final front ++
        ((e.indent ++ stageStatement e.stage) ++ ['\n'])), [], by simp⟩

end Export
end Restage.Legacy
