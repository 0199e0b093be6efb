import Restage.Proofs.ExportConversion
import Restage.Proofs.Recasting

/-!
Substitutions on a rewritten setup body, row by row. A substitution that renames (`Renames`) turns
the style of the class heads and recasts the lines of code; one that drops lines (`Drops`) leaves
the style. Either way the body stays an assignment between fine rows, with the same classes and the
same brackets (`run_rewritten`).
-/

set_option autoImplicit false

namespace Restage.Legacy

open Piece
open Text (endOf)

/-! The marks of a text from a position on. -/

/-- From a position on, the marks are those of a text that the automaton reads from a place. -/
def MarksAt (ms : List Bool) (i : Nat) (m : Script.Post) (t : Text) : Prop :=
  ms.drop i = Script.quoteMask m t

section

variable {ms : List Bool} {i : Nat} {m n : Script.Post} {u t : Text}

theorem marks_get (h : MarksAt ms i m t) (k : Nat) :
    ms.getD (i + k) true = (Script.quoteMask m t).getD k true := by
  rw [← h]
  simp [List.getD_eq_getElem?_getD, List.getElem?_drop]

theorem marks_next (h : MarksAt ms i m (u ++ t)) (hu : Script.scan m u = some n) :
    MarksAt ms (i + u.length) n t := by
  rw [MarksAt, ← List.drop_drop, show ms.drop i = _ from h, Script.mask_append hu,
    List.drop_append_of_le_length (by rw [Script.length_mask]),
    List.drop_of_length_le (by rw [Script.length_mask]), List.nil_append]

theorem marks_code (h : MarksAt ms i m (u ++ t)) (hm : m.inString = false)
    (hq : ∀ c ∈ u, Script.isQuote c = false) (hu : Script.scan m u = some n) (k : Nat)
    (hk : k < u.length) : ms.getD (i + k) true = true := by
  rw [marks_get h, Script.mask_append hu, (Script.scan_unquoted hm hq hu).2,
    List.getD_append _ _ _ _ (by simpa using hk)]
  simp [List.getD_eq_getElem?_getD, hk]

theorem marks_line (h : MarksAt ms i .fresh (u ++ '\n' :: t)) (hu : Script.Tidy u) :
    MarksAt ms (i + u.length + 1) .fresh t := by
  obtain ⟨n, hn, hscan⟩ := hu
  have := marks_next h hscan
  exact marks_next (u := ['\n']) this (by rw [Script.scan, Script.line_end hn]; rfl)

theorem marks_head {c : Char} (h : MarksAt ms i m (c :: t)) (hm : m.inString = false)
    (hc : Script.isQuote c = false) : ms.getD i true = true := by
  have := marks_get h 0
  simpa [Script.quoteMask, hm, hc] using this

/-- Inside a string nothing is code. -/
theorem marks_inside {q : Char} (h : MarksAt ms i (.quoted q) (u ++ q :: t))
    (hu : Script.InQuotes q u) (k : Nat) (hk : k < u.length) : ms.getD (i + k) true = false := by
  have hall : ∀ {v w : Text}, Script.InQuotes q v → ∀ k, k < v.length →
      (Script.quoteMask (.quoted q) (v ++ w)).getD k true = false := by
    intro v w hv k hk
    induction v generalizing k with
    | nil => simp at hk
    | cons c v ih =>
      obtain ⟨h1, h2, h3, h4⟩ := hv c (by simp)
      have hnext : (Script.Post.quoted q).next c = some (.quoted q) := by
        rw [Script.Post.next, if_neg h1, if_neg (by simp [h2, h3, h4])]
      rw [List.cons_append, Script.quoteMask, hnext]
      cases k with
      | zero => rfl
      | succ k => exact ih (fun d hd => hv d (by simp [hd])) k (by simpa using hk)
  rw [marks_get h, hall hu k hk]

end

/-! Kept rows. -/

/-- A style in which heads are made of names and dots. -/
structure Style.Proper (σ : Style) : Prop where
  root_some : σ.root ≠ []
  root : ∀ c ∈ σ.root, Substitution.isChain c = true
  keyword_some : σ.keyword ≠ []
  keyword : ∀ c ∈ σ.keyword, Substitution.isChain c = true

def Row.brackets : Row → Text
  | .code s => s.filter Script.isBracket
  | .head _ _ _ _ => ['{']

/-- Rows in the place of others. -/
structure Kept (rows rows' : List Row) : Prop where
  fine : ∀ r ∈ rows', r.Fine
  names : rowNames rows' = rowNames rows
  brackets : rows'.flatMap Row.brackets = rows.flatMap Row.brackets

theorem kept_self {rows : List Row} (h : ∀ r ∈ rows, r.Fine) : Kept rows rows := ⟨h, rfl, rfl⟩

theorem kept_trans {rows rows' rows'' : List Row} (h : Kept rows rows') (h' : Kept rows' rows'') :
    Kept rows rows'' :=
  ⟨h'.fine, h'.names.trans h.names, h'.brackets.trans h.brackets⟩

theorem kept_append {rows rows' more more' : List Row} (h : Kept rows rows')
    (h' : Kept more more') : Kept (rows ++ more) (rows' ++ more') := by
  refine ⟨?_, ?_, ?_⟩
  · intro r hr
    exact (List.mem_append.1 hr).elim (h.fine r) (h'.fine r)
  · rw [row_names_append, row_names_append, h.names, h'.names]
  · rw [List.flatMap_append, List.flatMap_append, h.brackets, h'.brackets]

section

variable {σ : Style} (hσ : σ.Proper)
include hσ

theorem lead_chars (exported : Bool) :
    ∀ c ∈ Row.lead σ exported, Substitution.isChain c = true ∨ c = ' ' := by
  intro c hc
  unfold Row.lead at hc
  split at hc <;> rcases List.mem_append.1 hc with hc | hc
  · exact Or.inl (hσ.root c hc)
  · rw [List.mem_singleton.1 hc]; exact Or.inl (by decide)
  · exact Or.inl (hσ.keyword c hc)
  · exact Or.inr (List.mem_singleton.1 hc)

/-- The characters of a head before its brace. -/
theorem head_chars {indent name : Text} (base : Base) (exported : Bool)
    (hi : ∀ c ∈ indent, isIndent c = true) (hn : Text.isName name = true) :
    ∃ u, (Row.head indent exported name base).text σ = u ++ ['{'] ∧
      ∀ c ∈ u, (Substitution.isChain c || isIndent c || c == '=') = true := by
  refine ⟨indent ++ (Row.lead σ exported ++ (name ++ (" = class ".toList ++ (name ++
    (" extends ".toList ++ (base.text ++ [' '])))))), ?_, ?_⟩
  · have hend : " \x7b".toList = [' '] ++ ['{'] := rfl
    unfold Row.text Row.headRest
    rw [hend]
    simp only [List.append_assoc]
  · have hpart : ∀ {w : Text}, (∀ c ∈ w, Text.isNamePart c = true) → ∀ c ∈ w,
        (Substitution.isChain c || isIndent c || c == '=') = true :=
      fun hw c hc => by simp [Substitution.isChain, hw c hc]
    intro c hc
    simp only [List.mem_append] at hc
    rcases hc with hc | hc | hc | hc | hc | hc | hc | hc
    · simp [hi c hc]
    · rcases lead_chars hσ exported c hc with h | rfl
      · simp [h]
      · decide
    · exact hpart (Text.name_parts hn) c hc
    · exact (by decide : ∀ c ∈ " = class ".toList,
        (Substitution.isChain c || isIndent c || c == '=') = true) c hc
    · exact hpart (Text.name_parts hn) c hc
    · exact (by decide : ∀ c ∈ " extends ".toList,
        (Substitution.isChain c || isIndent c || c == '=') = true) c hc
    · exact hpart (base_chars base) c hc
    · exact (by decide : ∀ c ∈ [' '],
        (Substitution.isChain c || isIndent c || c == '=') = true) c hc

theorem row_bare {r : Row} (hr : r.Fine) : Script.Bare (r.text σ) := by
  cases r with
  | code s => exact hr.bare
  | head indent exported name base =>
    obtain ⟨u, hu, hc⟩ := head_chars hσ base exported hr.1 hr.2.1
    have hharmless : ∀ c ∈ u ++ ['{'], Script.opensLiteral c = false ∧ c ≠ '>' := by
      intro c hcu
      rcases List.mem_append.1 hcu with hcu | hcu
      · exact harmless_of (p := fun c => Substitution.isChain c || isIndent c || c == '=')
          (by decide) (hc c hcu)
      · rw [List.mem_singleton.1 hcu]
        decide
    rw [hu]
    exact ⟨fun c hcu => (hharmless c hcu).1, fun h => (hharmless '>' (h.subset (by simp))).2 rfl⟩

theorem row_brackets {r : Row} (hr : r.Fine) :
    (r.text σ).filter Script.isBracket = r.brackets := by
  cases r with
  | code s => rfl
  | head indent exported name base =>
    obtain ⟨u, hu, hc⟩ := head_chars hσ base exported hr.1 hr.2.1
    have hnone := unbracketed hc fun c => not_bracket
      (p := fun c => Substitution.isChain c || isIndent c || c == '=') (by decide)
    rw [hu, List.filter_append, hnone]
    rfl

theorem rows_brackets {rows : List Row} (h : ∀ r ∈ rows, r.Fine) :
    (rowsText σ rows).filter Script.isBracket = rows.flatMap Row.brackets := by
  have hline : Script.isBracket '\n' = false := by decide
  induction rows with
  | nil => rfl
  | cons r rows ih =>
    rw [rows_text_cons, List.filter_append, List.filter_cons, hline, List.flatMap_cons,
      row_brackets hσ (h r (by simp)), ← ih fun r' hr' => h r' (by simp [hr'])]
    rfl

theorem rows_scan {rows : List Row} (h : ∀ r ∈ rows, r.Fine) :
    Script.scan .fresh (rowsText σ rows) = some .fresh := by
  induction rows with
  | nil => rfl
  | cons r rows ih =>
    rw [rows_text_cons, Script.scan_line (Script.tidy_bare (row_bare hσ (h r (by simp)))),
      ih fun r' hr' => h r' (by simp [hr'])]

end

/-! A substitution along a body. -/

/-- What a substitution makes of the rows and of the assignment of a body, when it turns one style
into another. -/
structure Handles (s : Substitution) (e : Export) (σ σ' : Style) : Prop where
  start : ∀ t, s.pattern.fits? none ('\n' :: t) = none
  stop : s.pattern.fits? (some '\n') [] = none
  row : ∀ {ms i r t}, r.Fine → MarksAt ms i .fresh (r.text σ ++ '\n' :: t) →
    ∃ rs, s.spread ms (some '\n') i (r.text σ ++ '\n' :: t) =
      rowsText σ' rs ++ s.spread ms (some '\n') (i + (r.text σ).length + 1) t ∧ Kept [r] rs
  assignment : ∀ {ms i t}, MarksAt ms i .fresh (e.assignment σ.root ++ '\n' :: t) →
    s.spread ms (some '\n') i (e.assignment σ.root ++ '\n' :: t) =
      e.assignment σ'.root ++ '\n' :: s.spread ms (some '\n')
        (i + (e.assignment σ.root).length + 1) t

section

variable {s : Substitution} {e : Export} {σ σ' : Style} (hs : Handles s e σ σ') (hσ : σ.Proper)
include hs hσ

theorem rows_handled {ms : List Bool} {i : Nat} {rows : List Row} {t : Text}
    (hrows : ∀ r ∈ rows, r.Fine) (hms : MarksAt ms i .fresh (rowsText σ rows ++ t)) :
    ∃ rows', s.spread ms (some '\n') i (rowsText σ rows ++ t) =
      rowsText σ' rows' ++ s.spread ms (some '\n') (i + (rowsText σ rows).length) t ∧
        Kept rows rows' := by
  induction rows generalizing i with
  | nil => exact ⟨[], rfl, kept_self (by simp)⟩
  | cons r rows ih =>
    have hr := hrows r (by simp)
    have hcut : rowsText σ (r :: rows) ++ t = r.text σ ++ '\n' :: (rowsText σ rows ++ t) := by simp
    have hlen : i + (rowsText σ (r :: rows)).length =
        i + (r.text σ).length + 1 + (rowsText σ rows).length := by simp; omega
    rw [hcut] at hms ⊢
    obtain ⟨rs, hspread, hkept⟩ := hs.row hr hms
    have hnext := marks_line hms (Script.tidy_bare (row_bare hσ hr))
    obtain ⟨rows', hrest, hkept'⟩ := ih (fun r' hr' => hrows r' (by simp [hr'])) hnext
    refine ⟨rs ++ rows', ?_, kept_append hkept hkept'⟩
    rw [hspread, hrest, rows_text_append, hlen, List.append_assoc]

/-- A substitution on a body. -/
theorem run_rewritten (he : e.Formed) {front back : List Row} (hfront : ∀ r ∈ front, r.Fine)
    (hback : ∀ r ∈ back, r.Fine) : ∃ front' back',
    (s.run (e.rewrittenBody σ front back)).1 = e.rewrittenBody σ' front' back' ∧
      Kept front front' ∧ Kept back back' := by
  have hroot : ∀ c ∈ σ.root, Script.opensLiteral c = false ∧ c ≠ '>' :=
    fun c hc => harmless_of (by decide) (hσ.root c hc)
  have htidy := Script.flows_tidy (Export.assignment_flows he hroot)
  have hwhole : Script.scan .fresh (e.rewrittenBody σ front back) = some .fresh := by
    have hnew : ∀ v, Script.scan .fresh ('\n' :: v) = Script.scan .fresh v :=
      fun _ => Script.scan_line Script.tidy_nil
    rw [Export.rewrittenBody, hnew, Script.scan_append, rows_scan hσ hfront, Option.bind_some,
      Script.scan_line htidy, rows_scan hσ hback]
  have hmask : Script.codeMask (e.rewrittenBody σ front back) =
      Script.quoteMask .fresh (e.rewrittenBody σ front back) :=
    Script.code_mask_scan hwhole rfl fun w hw => absurd (List.cons.inj hw).1 (by decide)
  have hms : MarksAt (Script.codeMask (e.rewrittenBody σ front back)) 0 .fresh
      (e.rewrittenBody σ front back) := by
    rw [MarksAt, List.drop_zero, hmask]
  have hms1 : MarksAt _ (0 + 1) .fresh _ := marks_line (u := []) hms Script.tidy_nil
  obtain ⟨front', h1, hkept⟩ := rows_handled hs hσ hfront hms1
  have hms2 := marks_next hms1 (rows_scan hσ hfront)
  have hms3 := marks_line hms2 htidy
  rw [← List.append_nil (rowsText σ back)] at hms3
  obtain ⟨back', h3, hkept'⟩ := rows_handled hs hσ hback hms3
  have hlast : ∀ ms i, s.spread ms (some '\n') i [] = [] := by
    intro ms i
    simp [Substitution.spread, Substitution.editsFrom, Pattern.hitsFrom, hs.stop, Edit.splice]
  refine ⟨front', back', ?_, hkept, hkept'⟩
  rw [Substitution.run_spread]
  generalize Script.codeMask (e.rewrittenBody σ front back) = ms at hms2 h1 h3 ⊢
  rw [Export.rewrittenBody, Substitution.spread_step (hs.start _), h1, hs.assignment hms2]
  rw [List.append_nil, hlast, List.append_nil] at h3
  rw [h3]
  rfl

end

/-! Lines that are dropped. -/

/-- The pieces of a binding up to its value. -/
def bindingHead (name : String) : List Piece :=
  [.gap, .lit "var", .gaps, .lit name, .gap, .lit "=", .gap]

/-- The pieces of a binding up to the end of its line. -/
def bindingBody (name : String) (value : Text) : List Piece :=
  bindingHead name ++ [.word (value ++ [';']), .gap, .maybe ['\r']]

section

variable {name : String} (hn : ∀ c ∈ name.toList, Text.isNamePart c = true) {value : Text}
  (hv : ∀ c ∈ value, Substitution.isChain c = true)

include hn in
theorem binding_head_avoids {x : Char} (h1 : Substitution.isChain x = false)
    (h2 : isIndent x = false) (h3 : x ≠ '=') : ∀ q ∈ bindingHead name, q.Avoids x := by
  have hpart : Text.isNamePart x = false := by
    simp only [Substitution.isChain, Bool.or_eq_false_iff] at h1
    exact h1.1
  have hvar := Text.not_mem_of_all (by decide : ∀ c ∈ "var".toList, Text.isNamePart c = true) hpart
  intro q hq
  simp only [bindingHead, List.mem_cons, List.not_mem_nil, or_false] at hq
  rcases hq with rfl | rfl | rfl | rfl | rfl | rfl | rfl
  · exact h2
  · exact hvar
  · exact h2
  · exact Text.not_mem_of_all hn hpart
  · exact h2
  · simpa [Avoids, Piece.lit] using h3
  · exact h2

include hn hv

theorem binding_body_avoids {x : Char} (h1 : Substitution.isChain x = false)
    (h2 : isIndent x = false) (h3 : x ∉ ['=', ';', '\r']) :
    ∀ q ∈ bindingBody name value, q.Avoids x := by
  simp only [List.mem_cons, List.not_mem_nil, or_false, not_or] at h3
  intro q hq
  rcases List.mem_append.1 hq with hq | hq
  · exact binding_head_avoids hn h1 h2 h3.1 q hq
  · simp only [List.mem_cons, List.not_mem_nil, or_false] at hq
    rcases hq with rfl | rfl | rfl
    · simp [Avoids, Text.not_mem_of_all hv h1, h3.2.1]
    · exact h2
    · simpa [Avoids] using h3.2.2

theorem binding_line_bound (hdot : '.' ∈ value) :
    LineBound (Substitution.bindingLine name value) := by
  refine ⟨rfl, bindingHead name, value ++ [';'], [.gap, .maybe ['\r'], .maybe ['\n']], rfl, ?_,
    by simp [hdot], by simp⟩
  intro x hx
  have hmark : Substitution.isChain x = false ∧ isIndent x = false ∧ x ≠ '=' ∧ x ≠ ';' := by
    simp only [List.mem_cons, List.not_mem_nil, or_false] at hx
    rcases hx with rfl | rfl | rfl <;> decide
  refine ⟨binding_head_avoids hn hmark.1 hmark.2.1 hmark.2.2.1, ?_⟩
  simp only [List.mem_append, List.mem_singleton, not_or]
  exact ⟨Text.not_mem_of_all hv hmark.1, hmark.2.2.2⟩

/-- A binding is taken from its line without brackets and, if nothing else stands there, with the
end of the line. -/
theorem binding_fits {b : Option Char} {s t : Text} {parts : List Text} (hs : '\n' ∉ s)
    (h : (Substitution.bindingLine name value).fits? b (s ++ '\n' :: t) = some parts) :
    parts.flatten ≠ [] ∧ parts.flatten.filter Script.isBracket = [] ∧
      ((∃ u, s = parts.flatten ++ u) ∨ parts.flatten = s ++ ['\n']) := by
  obtain ⟨_, r, hr⟩ := Pattern.fits_some.1 h
  have hpieces : (Substitution.bindingLine name value).pieces =
      bindingBody name value ++ [.maybe ['\n']] := rfl
  rw [hpieces, readAll_append, Option.bind_eq_some_iff] at hr
  obtain ⟨⟨front, rest⟩, hfront, hlast⟩ := hr
  obtain ⟨⟨back, r'⟩, hback, hparts⟩ := Option.map_eq_some_iff.1 hlast
  obtain ⟨a, u, more, hsplit, hnil, hback'⟩ := readAll_cons_iff.1 hback
  obtain ⟨rfl, rfl⟩ := readAll_nil_iff.1 hnil
  have hflat : parts.flatten = front.flatten ++ a := by
    rw [← (Prod.mk.inj hparts).1, hback']
    simp
  have htext := readAll_flatten hfront
  have hline : '\n' ∉ front.flatten :=
    readAll_avoids (binding_body_avoids hn hv (by decide) (by decide) (by decide)) hfront
  have hbrackets : front.flatten.filter Script.isBracket = [] := by
    refine unbracketed (p := front.flatten.contains) (by simp) fun c => not_bracket ?_
    intro x hx
    have hmark : Substitution.isChain x = false ∧ isIndent x = false ∧ x ∉ ['=', ';', '\r'] := by
      simp only [List.mem_cons, List.not_mem_nil, or_false] at hx
      rcases hx with rfl | rfl | rfl | rfl | rfl | rfl <;> decide
    have := readAll_avoids (binding_body_avoids hn hv hmark.1 hmark.2.1 hmark.2.2) hfront
    simpa using this
  have hsome : front.flatten ≠ [] := by
    obtain ⟨_, _, _, _, h1, rfl⟩ := readAll_cons_iff.1 hfront
    obtain ⟨w, _, _, h2, _, rfl⟩ := readAll_cons_iff.1 h1
    rw [(word_split_iff.1 h2).1]
    simp
  obtain ⟨v, hcut⟩ := Text.prefix_of_not_mem hline ⟨rest, htext.symm⟩
  have hrest : rest = v ++ '\n' :: t := by
    rw [← hcut, List.append_assoc] at htext
    exact (List.append_cancel_left htext).symm
  subst hcut
  cases v with
  | nil =>
    rw [hrest, List.nil_append] at hsplit
    obtain rfl : ['\n'] = a := (Prod.mk.inj (Option.some.inj
      ((maybe_split ['\n'] t).symm.trans hsplit))).1
    have hnew : ['\n'].filter Script.isBracket = [] := by decide
    refine ⟨by simp [hflat], ?_, Or.inr (by simp [hflat])⟩
    rw [hflat, List.filter_append, hbrackets, hnew]
    rfl
  | cons c v =>
    have hc : c ≠ '\n' := by
      rintro rfl
      exact hs (by simp)
    rw [hrest, maybe_split_absent (by simpa using hc)] at hsplit
    obtain rfl : [] = a := (Prod.mk.inj (Option.some.inj hsplit)).1
    rw [List.append_nil] at hflat
    exact ⟨hflat ▸ hsome, hflat ▸ hbrackets, Or.inl ⟨c :: v, by rw [hflat]⟩⟩

end

/-- What follows in a line without legacy constructs. -/
theorem plain_suffix {u v : Text} (h : Row.Plain (u ++ v)) : Row.Plain v := by
  have hpart : v <:+: u ++ v := (List.suffix_append u v).isInfix
  exact ⟨fun hm => h.one_line (by simp [hm]),
    ⟨fun c hc => h.bare.1 c (by simp [hc]), fun hin => h.bare.2 (hin.trans hpart)⟩,
    fun hin => h.no_extend (hin.trans hpart), fun hin => h.no_call (hin.trans hpart),
    fun hin => h.no_assets (hin.trans hpart)⟩

theorem line_start_end {b : Option Char} {u : Text} (hb : u = [] → Pattern.lineStart b = false)
    (hu : '\n' ∉ u) : Pattern.lineStart (endOf b u) = false := by
  rcases List.eq_nil_or_concat u with rfl | ⟨w, c, hw⟩
  · exact hb rfl
  · rw [List.concat_eq_append] at hw
    subst hw
    simp only [List.mem_append, List.mem_singleton, not_or] at hu
    rw [Text.endOf_concat]
    simpa [Pattern.lineStart] using Ne.symm hu.2

/-- A substitution that drops bindings of a member of the namespace. -/
structure Drops (s : Substitution) : Prop where
  binding : ∃ name value, s.pattern = Substitution.bindingLine name value ∧
    (∀ c ∈ name.toList, Text.isNamePart c = true) ∧
    (∀ c ∈ value, Substitution.isChain c = true) ∧ '.' ∈ value
  gone : ∀ h, s.replacement h = []

section

variable {s : Substitution} (hs : Drops s)
include hs

theorem drops_line_bound : LineBound s.pattern := by
  obtain ⟨name, value, hp, hn, hv, hdot⟩ := hs.binding
  rw [hp]
  exact binding_line_bound hn hv hdot

theorem drops_code {x : Text} (hx : Row.Plain x) {ms : List Bool} {i : Nat} {t : Text}
    (hms : MarksAt ms i .fresh (x ++ '\n' :: t)) (σ : Style) :
    ∃ rs, s.spread ms (some '\n') i (x ++ '\n' :: t) =
      rowsText σ rs ++ s.spread ms (some '\n') (i + x.length + 1) t ∧ Kept [.code x] rs := by
  have hbehind := (drops_line_bound hs).behind
  obtain ⟨name, value, hp, hn, hv, _⟩ := hs.binding
  cases hfit : s.pattern.fits? (some '\n') (x ++ '\n' :: t) with
  | none =>
    have hsilent : s.pattern.Silent (some '\n') (x ++ ['\n']) t := by
      cases x with
      | nil => exact Pattern.silent_cons.2 ⟨hfit, Pattern.silent_nil _ _⟩
      | cons c x =>
        have hline := hx.one_line
        simp only [List.mem_cons, not_or] at hline
        refine Pattern.silent_cons.2 ⟨by simpa using hfit, ?_⟩
        exact midline_silent hbehind (by simpa [Pattern.lineStart] using Ne.symm hline.1)
          hline.2 _ _
    have hspread := Substitution.spread_silent ms hsilent i
    rw [List.append_assoc, Text.endOf_concat] at hspread
    refine ⟨[.code x], ?_, kept_self (by simpa [Row.Fine] using hx)⟩
    simpa [Row.text, Nat.add_assoc] using hspread
  | some parts =>
    have hcode : ms.getD i true = true := by
      cases x with
      | nil => exact marks_head hms rfl (by decide)
      | cons c x => exact marks_head hms rfl (Script.opens_not_quote (hx.bare.1 c (by simp)))
    rw [hp] at hfit
    obtain ⟨hsome, hbrackets, hcut⟩ := binding_fits hn hv hx.one_line hfit
    rw [← hp] at hfit
    rcases hcut with ⟨u, rfl⟩ | hall
    · have hline : '\n' ∉ parts.flatten ∧ '\n' ∉ u := by
        simpa [List.mem_append, not_or] using hx.one_line
      rw [List.append_assoc] at hfit
      have hspread := Substitution.spread_fit ms (i := i) hsome hfit rfl hcode
      have hsilent : s.pattern.Silent (endOf (some '\n') parts.flatten) (u ++ ['\n']) t :=
        midline_silent hbehind (line_start_end (fun h => absurd h hsome) hline.1) hline.2 _ _
      have hrest := Substitution.spread_silent ms hsilent (i + parts.flatten.length)
      rw [List.append_assoc, Text.endOf_concat] at hrest
      refine ⟨[.code u], ?_, ?_, rfl, ?_⟩
      · rw [List.append_assoc, hspread, hs.gone, List.nil_append]
        simpa [Row.text, Nat.add_assoc] using hrest
      · simpa [Row.Fine] using plain_suffix hx
      · simp [Row.brackets, hbrackets]
    · have hcut : x ++ '\n' :: t = parts.flatten ++ t := by rw [hall]; simp
      rw [hcut] at hfit
      have hspread := Substitution.spread_fit ms (i := i) hsome hfit rfl hcode
      have hend : endOf (some '\n') parts.flatten = some '\n' := by rw [hall, Text.endOf_concat]
      have hlen : i + parts.flatten.length = i + x.length + 1 := by
        rw [hall, List.length_append, Nat.add_assoc]
        rfl
      refine ⟨[], ?_, by simp, rfl, ?_⟩
      · rw [hcut, hspread, hs.gone, hend, hlen]
        rfl
      · rw [hall, List.filter_append] at hbrackets
        simp [Row.brackets, (List.append_eq_nil_iff.1 hbrackets).1]

theorem drops_handles {e : Export} (he : e.Formed) {σ : Style} (hσ : σ.Proper) :
    Handles s e σ σ := by
  have hbound := drops_line_bound hs
  have hkept : ∀ {u : Text} {ms : List Bool} {i : Nat} {t : Text},
      s.pattern.Silent (some '\n') (u ++ ['\n']) t →
      s.spread ms (some '\n') i (u ++ '\n' :: t) =
        u ++ '\n' :: s.spread ms (some '\n') (i + u.length + 1) t := by
    intro u ms i t hsilent
    have := Substitution.spread_silent ms hsilent i
    rw [List.append_assoc, Text.endOf_concat] at this
    simpa [Nat.add_assoc] using this
  refine ⟨?_, ?_, ?_, ?_⟩
  · intro t
    have hsilent := line_bound_silent hbound (x := '\n') (s := []) (by decide) (by simp) none t
    exact (Pattern.silent_cons.1 hsilent).1
  · obtain ⟨ps, w, qs, hpieces, _, hdot, _⟩ := hbound.needs
    refine Pattern.fits_absent hpieces (fun h => ?_) _
    exact absurd (h.subset hdot) (by simp)
  · intro ms i r t hr hms
    cases r with
    | code x => exact drops_code hs hr hms σ
    | head indent exported name base =>
      refine ⟨[.head indent exported name base], ?_, kept_self (by simpa using hr)⟩
      obtain ⟨u, hu, hc⟩ := head_chars hσ base exported hr.1 hr.2.1
      have hlacks : ∀ {x : Char}, (Substitution.isChain x || isIndent x || x == '=') = false →
          x ≠ '{' → x ∉ (Row.head indent exported name base).text σ := by
        intro x h1 h2
        rw [hu, List.mem_append, not_or, List.mem_singleton]
        exact ⟨Text.not_mem_of_all hc h1, h2⟩
      rw [hkept (line_bound_silent hbound (by decide) (Or.inr
        ⟨hlacks (by decide) (by decide), hlacks (by decide) (by decide)⟩) _ _)]
      simp
  · intro ms i t _
    have hroot : '(' ∉ σ.root ∧ ';' ∉ σ.root :=
      ⟨Text.not_mem_of_all hσ.root (by decide), Text.not_mem_of_all hσ.root (by decide)⟩
    exact hkept (Export.assignment_line_silent he hbound hroot _ _)

end

end Restage.Legacy
