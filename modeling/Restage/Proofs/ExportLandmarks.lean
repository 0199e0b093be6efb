import Restage.Proofs.ExportForm
import Restage.Proofs.LegacySearch
import Restage.Proofs.Outcome
import Restage.Proofs.SetupForm
import Restage.Proofs.Splitting
import Restage.Proofs.Surroundings

/-!
The landmarks of a legacy export. Both patterns that look for a statement are silent on the
definitions (`forest_silent`), so the setup function, the assets assignment and the stage literal
are found where the text of the export has them.
-/

set_option autoImplicit false

namespace Restage.Legacy

open Piece
open Text (endOf)

/-! Patterns on the text of a forest. -/

/-- A pattern that is silent on a line, whatever stands around it. -/
def SilentLine (p : Pattern) (s : Text) : Prop := ∀ b t, p.Silent b (s ++ ['\n']) t

/-- A pattern that is silent on every line of a forest is silent on the forest. -/
theorem forest_silent {p : Pattern} {library : Text}
    (hline : ∀ s, Mild s → SilentLine p s)
    (hcall : ∀ lead b args, (∀ c ∈ lead, Text.isBlank c = true) → Mild args →
      SilentLine p (lead ++ callText b args))
    (hhead : ∀ h : Head, h.WellFormed → SilentLine p (h.legacyText library))
    (hfoot : ∀ indent, (∀ c ∈ indent, isIndent c = true) → SilentLine p (indent ++ "\x7d);".toList))
    {due : Option Base} {f : Forest} (hf : f.Exportable due) (b : Option Char) (t : Text) :
    p.Silent b (f.legacyText library) t := by
  induction f generalizing due b t with
  | done => exact Pattern.silent_nil b t
  | line s r ih =>
    have := Pattern.silent_append.2 ⟨hline s hf.1 b (r.legacyText library ++ t), ih hf.2 _ t⟩
    simpa [Forest.legacyText] using this
  | call lead b' args r ih =>
    obtain ⟨_, hlead, ha, _, hr⟩ := hf
    have := Pattern.silent_append.2
      ⟨hcall lead b' args (fun c hc => (hlead c hc).1) ha b (r.legacyText library ++ t), ih hr _ t⟩
    simpa [Forest.legacyText] using this
  | define h body r ihb ihr =>
    obtain ⟨⟨hw, _⟩, hbody, hr⟩ := hf
    have h1 : p.Silent b (h.legacyText library ++ ['\n']) ((body.legacyText library ++
        ((h.indent ++ "\x7d);".toList ++ ['\n']) ++ r.legacyText library)) ++ t) := hhead h hw b _
    have h2 : p.Silent (endOf b (h.legacyText library ++ ['\n'])) (body.legacyText library ++
        ((h.indent ++ "\x7d);".toList ++ ['\n']) ++ r.legacyText library)) t :=
      Pattern.silent_append.2 ⟨ihb hbody _ _,
        Pattern.silent_append.2 ⟨hfoot h.indent hw.indent _ _, ihr hr _ t⟩⟩
    have := Pattern.silent_append.2 ⟨h1, h2⟩
    simpa [Forest.legacyText] using this

theorem count_infix {c : Char} {u v : Text} (h : u <:+: v) : u.count c ≤ v.count c :=
  h.sublist.count_le c

theorem count_zero {p : Char → Bool} {c : Char} {t : Text} (h : ∀ d ∈ t, p d = true)
    (hc : p c = false) : t.count c = 0 :=
  List.count_eq_zero.2 (Text.not_mem_of_all h hc)

/-! The assets assignment. -/

section

variable {library : Text}

/-- The pieces of an assignment up to its dotted name. -/
def assignmentHead (library : Text) : List Piece :=
  [.word (library ++ ['.'])] ++ Piece.name ++ [.lit ".assets"]

theorem assignment_pieces (library : Text) : (Assets.assignment library).pieces =
    assignmentHead library ++ [.blanks, .lit "=", .blanks, .lit "\x7b", .run 0 (· != '}'),
      .lit "\x7d;"] := rfl

theorem assignment_head_avoids {x : Char} (hl : x ∉ library) (h1 : Text.isNamePart x = false)
    (h2 : x ≠ '.') (h3 : x ∉ "assets".toList) : ∀ q ∈ assignmentHead library, q.Avoids x := by
  intro q hq
  simp only [assignmentHead, Piece.name, List.cons_append, List.nil_append, List.mem_cons,
    List.not_mem_nil, or_false] at hq
  rcases hq with rfl | rfl | rfl | rfl
  · simpa [Avoids, h2] using hl
  · trivial
  · exact h1
  · simpa [Avoids, Piece.lit, h2] using h3

/-- The dotted name of an assignment holds two dots and the word `.assets`. -/
theorem assignment_head_reads {t r : Text} {parts : List Text}
    (h : readAll (assignmentHead library) t = some (parts, r)) :
    2 ≤ parts.flatten.count '.' ∧ ".assets".toList <:+: parts.flatten := by
  simp only [assignmentHead, Piece.name, List.cons_append, List.nil_append, readAll_cons_iff,
    readAll_nil_iff] at h
  obtain ⟨a, u, rest, ha, ⟨b, v, rest', hb, ⟨c, w, rest'', hc, ⟨d, z, _, hd, ⟨rfl, rfl⟩, rfl⟩,
    rfl⟩, rfl⟩, rfl⟩ := h
  rw [(word_split_iff.1 ha).1, (word_split_iff.1 hd).1]
  constructor
  · simp only [List.flatten_cons, List.count_append, List.flatten_nil]
    simp
    omega
  · exact ⟨library ++ ['.'] ++ b ++ c, [], by simp⟩

end

theorem dots_of_header {library : Text} (hl : Text.isName library = true) {h : Head}
    (hw : h.WellFormed) : (h.indent ++ h.target library).count '.' ≤ 1 ∧
      (h.base.text ++ (".extend(".toList ++ ("function (".toList ++
        (h.params ++ ") \x7b".toList)))).count '.' ≤ 1 := by
  have h1 := count_zero (c := '.') hw.indent (by decide)
  have h2 := count_zero (c := '.') (Text.name_parts hl) (by decide)
  have h3 := count_zero (c := '.') (Text.name_parts hw.name) (by decide)
  have h4 := count_zero (c := '.') (base_chars h.base) (by decide)
  have h5 := count_zero (c := '.') hw.params.1 (by decide)
  constructor
  · rw [Head.target]
    split <;> simp [h1, h2, h3]
  · simp [h4, h5]

/-- A call holds one word with a dot in front of its arguments. -/
theorem call_line_parts (lead : Text) (b : Base) (args : Text) :
    lead ++ callText b args ++ ['\n'] = ((lead ++ b.text ++ ".call".toList) ++ ['(']) ++
      ((("this".toList ++ if args = [] then [] else ", ".toList) ++ (args ++ ");".toList)) ++
        ['\n']) := by
  simp [callText, callLead]

section

variable {library : Text} (hl : Text.isName library = true)
include hl

theorem library_lacks {x : Char} (hx : Text.isNamePart x = false) : x ∉ library :=
  Text.not_mem_of_all (Text.name_parts hl) hx

/-- Where `.assets` does not occur there is no assignment. -/
theorem assignment_silent {x : Char} (hx : Text.isNamePart x = false ∧ x ≠ '.') {s : Text}
    (hs : s.count '.' ≤ 1 ∨ ¬ ".assets".toList <:+: s) (b : Option Char) (t : Text) :
    (Assets.assignment library).Silent b (s ++ [x]) t := by
  have hletters : x ∉ "assets".toList :=
    Text.not_mem_of_all (p := Text.isNamePart) (by decide) hx.1
  refine Pattern.silent_of_parts (assignment_pieces library)
    (assignment_head_avoids (library_lacks hl hx.1) hx.1 hx.2 hletters) ?_ b t
  intro u r parts hparts hin
  obtain ⟨hdots, hword⟩ := assignment_head_reads hparts
  rcases hs with hs | hs
  · have := count_infix (c := '.') hin
    omega
  · exact hs (hword.trans hin)

theorem assignment_forest {due : Option Base} {f : Forest} (hf : f.Exportable due)
    (b : Option Char) (t : Text) : (Assets.assignment library).Silent b (f.legacyText library) t := by
  refine forest_silent ?_ ?_ ?_ ?_ hf b t
  · exact fun s hs b t => assignment_silent hl (by decide) (Or.inr hs.no_assets) b t
  · intro lead b' args hlead ha b t
    have hdots : (lead ++ b'.text ++ ".call".toList).count '.' ≤ 1 := by
      have h1 := count_zero (c := '.') hlead (by decide)
      have h2 := count_zero (c := '.') (base_chars b') (by decide)
      simp [h1, h2]
    have hrest : ¬ ".assets".toList <:+:
        ("this".toList ++ if args = [] then [] else ", ".toList) ++ (args ++ ");".toList) := by
      intro h
      have h1 := Text.infix_right_of_head (by split <;> decide) h
      exact ha.no_assets (Text.infix_left_of_last (w := ".asset".toList) (by decide) h1)
    rw [call_line_parts]
    exact Pattern.silent_append.2 ⟨assignment_silent hl (x := '(') (by decide) (Or.inl hdots) _ _,
      assignment_silent hl (x := '\n') (by decide) (Or.inr hrest) _ _⟩
  · intro h hw b t
    obtain ⟨h1, h2⟩ := dots_of_header hl hw
    have hcut : h.legacyText library ++ ['\n'] = ((h.indent ++ h.target library) ++ [' ']) ++
        (("= ".toList ++ (h.base.text ++ (".extend(".toList ++ ("function (".toList ++
          (h.params ++ ") \x7b".toList))))) ++ ['\n']) := by
      simp [Head.legacyText]
    rw [hcut]
    exact Pattern.silent_append.2 ⟨assignment_silent hl (x := ' ') (by decide) (Or.inl h1) _ _,
      assignment_silent hl (x := '\n') (by decide) (Or.inl (by simpa using h2)) _ _⟩
  · intro indent hi b t
    exact assignment_silent hl (by decide) (Or.inr (foot_absent hi)) b t

end

/-- The text of a forest is empty or ends a line. -/
theorem legacy_ends (library : Text) (f : Forest) :
    endOf (some '\n') (f.legacyText library) = some '\n' := by
  have hline : ∀ (b : Option Char) (s r : Text),
      endOf b (s ++ '\n' :: r) = endOf (some '\n') r := by
    intro b s r
    rw [Text.endOf_append]
    rfl
  induction f with
  | done => rfl
  | line s r ih => rw [Forest.legacyText, hline, ih]
  | call lead b args r ih => rw [Forest.legacyText, ← List.append_assoc, hline, ih]
  | define h body r ihb ihr =>
    rw [Forest.legacyText, hline, Text.endOf_append, ihb, Text.endOf_append, Text.endOf_append]
    exact ihr

theorem fillers_lack {x : Char} (hx : isFiller x = false) {t : Text}
    (ht : ∀ c ∈ t, isFiller c = true) : x ∉ t := Text.not_mem_of_all ht hx

namespace Export

variable {e : Export} (he : e.Formed)
include he

/-- The mapping holds fillers, quotes and what its strings hold. -/
theorem inner_lacks {x : Char} (hx : isFiller x = false) (hq : x ≠ '\x22')
    (hs : ∀ p ∈ e.pairs, x ∉ p.id ∧ x ∉ p.path) : x ∉ e.inner := by
  intro hm
  rcases List.mem_append.1 hm with hm | hm
  · obtain ⟨p, hp, hm⟩ := List.mem_flatMap.1 hm
    obtain ⟨hid, hpath⟩ := hs p hp
    have hlead := fillers_lack hx (he.pairs p hp).lead
    have hmiddle := fillers_lack hx (he.pairs p hp).middle
    simp [AssetPair.text, quoteText, hq, hid, hpath, hlead, hmiddle] at hm
  · exact fillers_lack hx he.close hm

theorem inner_unclosed : '}' ∉ e.inner := by
  refine inner_lacks he (by decide) (by decide) fun p hp => ⟨fun h => ?_, fun h => ?_⟩
  · simpa using (he.pairs p hp).id _ h
  · simpa using (he.pairs p hp).path _ h

/-- What the pieces of an assignment take. -/
def assignmentParts (e : Export) : List Text :=
  [e.libraryAlias ++ ['.'], [], e.stage, ".assets".toList, [' '], ['='], [' '], ['{'], e.inner,
    "\x7d;".toList]

theorem assignment_fits {b : Option Char} (hb : Pattern.freshName b = true) (t : Text) :
    (Assets.assignment e.libraryAlias).fits? b (e.assignmentParts.flatten ++ t) =
      some e.assignmentParts := by
  have hinner : ∀ c ∈ e.inner, (c != '}') = true := fun c hc => by
    simp only [bne_iff_ne, ne_eq]
    rintro rfl
    exact inner_unclosed he hc
  have hrest : readAll [.lit ".assets", .blanks, .lit "=", .blanks, .lit "\x7b",
      .run 0 (· != '}'), .lit "\x7d;"] (".assets".toList ++ ([' '] ++ ("=".toList ++ ([' '] ++ ("\x7b".toList ++
        (e.inner ++ ("\x7d;".toList ++ t))))))) =
      some ([".assets".toList, [' '], "=".toList, [' '], "\x7b".toList, e.inner, "\x7d;".toList], t) := by
    simp only [Piece.lit, Piece.blanks]
    rw [readAll_cons (word_split _ _),
      readAll_cons (run_split (u := [' ']) (by simp) (by decide) (by simp; decide)),
      readAll_cons (word_split _ _),
      readAll_cons (run_split (u := [' ']) (by simp) (by decide) (by simp; decide)),
      readAll_cons (word_split _ _), readAll_cons (run_split (by simp) hinner (by simp)),
      readAll_cons (word_split _ _)]
    rfl
  have hname := name_reads he.stage (t := ".assets".toList ++ ([' '] ++ ("=".toList ++ ([' '] ++
    ("\x7b".toList ++ (e.inner ++ ("\x7d;".toList ++ t))))))) (by simp; decide)
  have hshape : e.assignmentParts.flatten ++ t = (e.libraryAlias ++ ['.']) ++ (e.stage ++
      (".assets".toList ++ ([' '] ++ ("=".toList ++ ([' '] ++ ("\x7b".toList ++ (e.inner ++
        ("\x7d;".toList ++ t)))))))) := by
    simp [assignmentParts]
  refine Pattern.fits_of_reads hb (r := t) ?_
  rw [hshape, Assets.assignment, readAll_append, readAll_append,
    readAll_cons (word_split _ _), readAll, Option.map_some, Option.bind_some, hname,
    Option.map_some, Option.bind_some, hrest]
  rfl

theorem opening_chars {x : Char} (hx : Text.isNamePart x = false)
    (hfixed : x ∉ "(function (".toList ++ ", ".toList ++ ") \x7b".toList) : x ∉ e.opening := by
  have hn := Text.not_mem_of_all (Text.name_parts he.namespaceAlias) hx
  have hl := Text.not_mem_of_all (Text.name_parts he.libraryAlias) hx
  simp only [List.mem_append, not_or] at hfixed
  unfold opening
  simp only [List.mem_append, not_or]
  exact ⟨hfixed.1.1, hn, hfixed.1.2, hl, hfixed.2⟩

/-- The assets mapping of an export is found. -/
theorem export_assets : ∃ statement files, Assets.find e.libraryAlias e.text =
    ⟨some e.stage, '{' :: e.inner ++ ['}'], some statement, files⟩ := by
  have hopen : ∀ t, (Assets.assignment e.libraryAlias).Silent none (e.opening ++ ['\n']) t := by
    refine assignment_silent he.libraryAlias (by decide) (Or.inr fun h => ?_) none
    exact opening_chars he (x := '.') (by decide) (by decide) (h.subset (by simp))
  obtain ⟨c, w, hcw, hc⟩ := Text.name_head he.libraryAlias
  have hindent : ∀ b t, (Assets.assignment e.libraryAlias).Silent b e.indent t := by
    have hpieces : (Assets.assignment e.libraryAlias).pieces =
        .word (c :: (w ++ ['.'])) :: (Assets.assignment e.libraryAlias).pieces.drop 1 := by
      rw [hcw]
      rfl
    refine Pattern.silent_of_head hpieces ?_
    · intro hm
      have := start_not_indent hc
      rw [he.indent c hm] at this
      simp at this
  have hfresh : Pattern.freshName (endOf (some '\n') e.indent) = true :=
    blank_fresh (by decide) fun c hc => Text.indent_blank (he.indent c hc)
  obtain ⟨rest, htext⟩ : ∃ rest, e.text = (e.opening ++ ['\n']) ++
      (e.front.legacyText e.libraryAlias ++ (e.indent ++ (e.assignmentParts.flatten ++ rest))) :=
    ⟨'\n' :: (e.back.legacyText e.libraryAlias ++ (Setup.closing ++ (e.arguments ++
      (e.literal ++ ['\n'])))), by simp [text, body, assignment, assignmentParts]⟩
  have hfirst : ∃ i, (Assets.assignment e.libraryAlias).first? e.text.entire =
      some ⟨i, e.assignmentParts⟩ := by
    refine ⟨0 + (e.opening ++ ['\n']).length + (e.front.legacyText e.libraryAlias).length +
      e.indent.length, ?_⟩
    rw [htext, Pattern.first?, Text.entire]
    simp only
    rw [Pattern.first_silent (hopen _), Text.endOf_concat,
      Pattern.first_silent (assignment_forest he.libraryAlias he.front _ _), legacy_ends,
      Pattern.first_silent (hindent _ _), Pattern.first_fit (assignment_fits he hfresh _)]
  obtain ⟨i, hi⟩ := hfirst
  exact ⟨_, _, by rw [Assets.find, hi]; rfl⟩

/-- The lines of the stage literal hold no brace. -/
theorem entry_lines_lack {x : Char} (hx : x = '{' ∨ x = '}') :
    x ∉ e.entries.flatMap fun y => y.line ++ ['\n'] := by
  intro hm
  obtain ⟨y, hy, hm⟩ := List.mem_flatMap.1 hm
  have hf := he.entries y hy
  have hpart : isIndent x = false ∧ Text.isNamePart x = false ∧ x ∉ ": ".toList ++ [',', '\n'] := by
    rcases hx with rfl | rfl <;> decide
  have hi := Text.not_mem_of_all hf.indent hpart.1
  have hk := Text.not_mem_of_all hf.key hpart.2.1
  have hv : x ∉ y.value := fun h => by
    have := hf.value x h
    rcases hx with rfl | rfl <;> simp at this
  simp only [Entry.line, Entry.content, List.mem_append, hi, hk, hv, false_or, or_false] at hm
  exact hpart.2.2 (by simp only [List.mem_append]; rcases hm with (h | h) | h <;> simp_all)

/-- The call of the setup function is closed once. -/
theorem closing_once : ¬ Setup.closing <:+: e.arguments ++ (e.literal ++ ['\n']) := by
  have hn := library_lacks he.namespaceAlias (x := '}') (by decide)
  have hl := library_lacks he.libraryAlias (x := '}') (by decide)
  have htext : e.arguments ++ (e.literal ++ ['\n']) =
      (e.namespaceAlias ++ ", ".toList ++ e.libraryAlias ++ " = \x7b".toList) ++ ('}' :: ')' :: ';' ::
        (("\nmodule.exports = \x7b\n".toList ++ e.entries.flatMap fun y => y.line ++ ['\n']) ++
          "\x7d;\n".toList)) := by
    unfold arguments literal
    simp
  intro h
  rw [htext] at h
  have h1 := Text.infix_right_of_head (by simp [hn, hl]) h
  rcases List.infix_cons_iff.1 h1 with h1 | h1
  · simp [List.cons_prefix_cons] at h1
  · have hbetween : '}' ∉ ')' :: ';' :: ("\nmodule.exports = \x7b\n".toList ++
        e.entries.flatMap fun y => y.line ++ ['\n']) := by
      have hlines := entry_lines_lack he (x := '}') (Or.inr rfl)
      have hfixed : '}' ∉ "\nmodule.exports = \x7b\n".toList := by decide
      simp only [List.mem_cons, List.mem_append, hlines, hfixed, or_self, or_false]
      decide
    have h2 : Setup.closing <:+: "\x7d;\n".toList := Text.infix_right_of_head hbetween h1
    revert h2
    decide

/-- The setup function of an export is found. -/
theorem export_setup : Setup.find e.text = .ok ⟨e.namespaceAlias, e.libraryAlias, e.body⟩ := by
  have hstrip : ∀ n, Text.isName n = true → Text.strip n = n ∧ Text.strip (' ' :: n) = n := by
    intro n hn
    have hpart : ∀ c ∈ n, Text.isBlank c = false := fun c hc => by
      by_contra hb
      have := Text.blank_not_part (by simpa using hb)
      rw [Text.name_parts hn c hc] at this
      simp at this
    have hne : n ≠ [] := by
      rintro rfl
      simp [Text.isName] at hn
    obtain ⟨hhead, hlast⟩ := Text.ends_of_all hne hpart
    refine ⟨Text.trim_of_ends hhead hlast, ?_⟩
    have := Text.trim_between (a := [' ']) (b := []) (by decide) (by simp) hhead hlast
    simpa [Text.strip] using this
  refine Setup.find_iff.2 ⟨[], e.namespaceAlias ++ ", ".toList ++ e.libraryAlias, e.opening,
    e.arguments ++ (e.literal ++ ['\n']), rfl, ?_, ?_, by simp [body], closing_once he, ?_,
    he.namespaceAlias, he.libraryAlias⟩
  · refine ⟨[' '], [' '], by unfold opening; simp, by decide, by decide, ?_⟩
    have hn := library_lacks he.namespaceAlias (x := ')') (by decide)
    have hl := library_lacks he.libraryAlias (x := ')') (by decide)
    simp [hn, hl]
  · intro u v raw' opened' h hv
    simp at h
    exact absurd h.2 hv
  · have hcomma : ∀ n, Text.isName n = true → ∀ c ∈ n, (c == ',') = false := fun n hn c hc => by
      simp only [beq_eq_false_iff_ne, ne_eq]
      rintro rfl
      exact library_lacks hn (x := ',') (by decide) hc
    have hsplit : Text.splitWhere (· == ',') (e.namespaceAlias ++ ',' :: (' ' :: e.libraryAlias)) =
        [e.namespaceAlias, ' ' :: e.libraryAlias] := by
      rw [Text.split_head (hcomma _ he.namespaceAlias) (by decide), Text.split_whole]
      intro c hc
      rcases List.mem_cons.1 hc with rfl | hc
      · decide
      · exact hcomma _ he.libraryAlias c hc
    have hraw : e.namespaceAlias ++ ", ".toList ++ e.libraryAlias =
        e.namespaceAlias ++ ',' :: (' ' :: e.libraryAlias) := by simp
    rw [Text.split_on_where, hraw, hsplit]
    simp [(hstrip _ he.namespaceAlias).1, (hstrip _ he.libraryAlias).2]

end Export

end Restage.Legacy
