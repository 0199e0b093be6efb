import Restage.Proofs.Characters
import Restage.Proofs.CodeStretch
import Restage.Proofs.LegacyForest

/-!
The lines of a legacy forest, as the patterns for headers and calls meet them. A header and a call
of the base class that is sought are fits (`member_fits`, `variable_fits`, `call_fits`); on every
other line both patterns are silent.
-/

set_option autoImplicit false

namespace Restage.Legacy

open Definition Piece

/-! Headers. -/

/-- What the pieces behind the target of a header take. -/
def Head.restParts (h : Head) : List Text :=
  [[' '], ['='], [' '], h.base.text, ".extend(".toList, [], "function".toList, [' '], ['('], h.params,
    [')'], [' '], ['{']]

def Head.parts (library : Text) (h : Head) : List Text :=
  h.indent :: (if h.exported then [library ++ ['.'], []] else ["var".toList, [' ']]) ++
    [[], h.name] ++ h.restParts

theorem parts_flatten (library : Text) (h : Head) :
    (h.parts library).flatten = h.legacyText library := by
  cases he : h.exported <;>
    simp [Head.parts, Head.restParts, Head.legacyText, Head.target, he]

theorem params_char {h : Head} (hw : h.WellFormed) {x : Char} (h1 : Text.isNamePart x = false)
    (h2 : Text.isBlank x = false) (h3 : x ≠ ',') : x ∉ h.params :=
  Text.not_mem_of_all hw.params.1 (by simp [h1, h2, h3])

theorem rest_reads {h : Head} (hw : h.WellFormed) (t : Text) :
    readAll headerRest (h.restParts.flatten ++ t) = some (h.restParts, t) := by
  have hp : ')' ∉ h.params := params_char hw (by decide) (by decide) (by decide)
  have hall : ∀ c ∈ h.params, (c != ')') = true := by
    intro c hc
    rw [bne_iff_ne]
    rintro rfl
    exact hp hc
  have htake : ∀ r : Text, (h.params ++ ')' :: r).takeWhile (· != ')') = h.params :=
    fun r => Text.run_taken hall (by simp)
  have hdrop : ∀ r : Text, (h.params ++ ')' :: r).dropWhile (· != ')') = ')' :: r :=
    fun r => Text.run_left hall (by simp)
  cases hb : h.base <;>
    simp [headerRest, Head.restParts, hb, readAll, htake, hdrop, split?, gap, lit, Text.after?,
      isIndent, Base.all, Base.text, Base.identifier]

theorem name_reads {n t : Text} (hn : Text.isName n = true)
    (ht : t.head?.all (fun c => !Text.isNamePart c) = true) :
    readAll Piece.name (n ++ t) = some ([[], n], t) := by
  obtain ⟨c, u, rfl, hc⟩ := Text.name_head hn
  rw [Piece.name, nextIs, readAll_cons (ahead_split (by simpa using hc)),
    readAll_cons (run_split (by simp) (Text.name_parts hn) ht)]
  rfl

theorem start_not_indent {c : Char} (h : Text.isNameStart c = true) : isIndent c = false := by
  by_contra hi
  have h1 := Text.blank_not_part (Text.indent_blank (by simpa using hi))
  rw [Text.start_part h] at h1
  simp at h1

section

variable {library : Text} {h : Head} (hw : h.WellFormed)
include hw

theorem target_reads {target : List Piece} {u : Text} {parts : List Text} {t : Text}
    (hu : u.head?.any (fun c => !isIndent c) = true)
    (htarget : readAll target (u ++ (h.name ++ (h.restParts.flatten ++ t))) =
      some (parts, h.name ++ (h.restParts.flatten ++ t))) :
    readAll (headerOf target).pieces (h.indent ++ (u ++ (h.name ++ (h.restParts.flatten ++ t)))) =
      some (h.indent :: parts ++ [[], h.name] ++ h.restParts, t) := by
  have hgap : gap.split? (h.indent ++ (u ++ (h.name ++ (h.restParts.flatten ++ t)))) =
      some (h.indent, u ++ (h.name ++ (h.restParts.flatten ++ t))) := by
    apply run_split (Nat.zero_le _) hw.indent
    cases u with
    | nil => simp at hu
    | cons c u => simpa using hu
  have hname := name_reads (t := h.restParts.flatten ++ t) hw.name
    (by simp [Head.restParts]; decide)
  simp only [headerOf, List.append_assoc, List.singleton_append]
  rw [List.cons_append, readAll_cons hgap, readAll_append, htarget, Option.bind_some,
    readAll_append, hname, Option.bind_some, rest_reads hw]
  simp

theorem member_fits (hl : Text.isName library = true) (he : h.exported = true) {b : Option Char}
    (hb : Pattern.lineStart b = true) (t : Text) :
    (memberHeader library).fits? b (h.legacyText library ++ t) = some (h.parts library) := by
  obtain ⟨c, u, hcu, hc⟩ := Text.name_head hl
  have hmember : readAll [.word (library ++ ['.']), .word []]
      ((library ++ ['.']) ++ (h.name ++ (h.restParts.flatten ++ t))) =
      some ([library ++ ['.'], []], h.name ++ (h.restParts.flatten ++ t)) := by
    rw [readAll_cons (word_split _ _)]
    simp [readAll, split?, Text.after?]
  have hreads := target_reads hw (by simp [hcu, start_not_indent hc]) hmember
  have htext : h.legacyText library ++ t =
      h.indent ++ ((library ++ ['.']) ++ (h.name ++ (h.restParts.flatten ++ t))) := by
    simp [Head.legacyText, Head.target, Head.restParts, he]
  rw [htext, memberHeader]
  simpa [Head.parts, he] using Pattern.fits_of_reads hb hreads

theorem variable_fits (he : h.exported = false) {b : Option Char}
    (hb : Pattern.lineStart b = true) (t : Text) :
    variableHeader.fits? b (h.legacyText library ++ t) = some (h.parts library) := by
  obtain ⟨c, u, hcu, hc⟩ := Text.name_head hw.name
  have hgaps : gaps.split? ([' '] ++ (h.name ++ (h.restParts.flatten ++ t))) =
      some ([' '], h.name ++ (h.restParts.flatten ++ t)) :=
    run_split (by simp) (by simp [isIndent]) (by simp [hcu, start_not_indent hc])
  have hvariable : readAll [.lit "var", .gaps]
      ("var ".toList ++ (h.name ++ (h.restParts.flatten ++ t))) =
      some (["var".toList, [' ']], h.name ++ (h.restParts.flatten ++ t)) := by
    rw [show "var ".toList = "var".toList ++ [' '] from rfl, List.append_assoc, lit,
      readAll_cons (word_split _ _), readAll_cons hgaps]
    rfl
  have hreads := target_reads hw (by simp [isIndent]) hvariable
  have htext : h.legacyText library ++ t =
      h.indent ++ ("var ".toList ++ (h.name ++ (h.restParts.flatten ++ t))) := by
    simp [Head.legacyText, Head.target, Head.restParts, he]
  rw [htext, variableHeader]
  simpa [Head.parts, he] using Pattern.fits_of_reads hb hreads

/-- A variable is no member of the library. -/
theorem member_absent (hl : Text.isName library = true) (he : h.exported = false)
    (b : Option Char) (t : Text) :
    (memberHeader library).fits? b (h.legacyText library ++ t) = none := by
  have hgap : gap.split? (h.legacyText library ++ t) = some (h.indent, "var".toList ++ ' ' ::
      (h.name ++ (h.restParts.flatten ++ t))) := by
    have htext : h.legacyText library ++ t = h.indent ++ ("var".toList ++ ' ' ::
        (h.name ++ (h.restParts.flatten ++ t))) := by
      simp [Head.legacyText, Head.target, Head.restParts, he]
    rw [htext]
    exact run_split (Nat.zero_le _) hw.indent (by simp [isIndent])
  have hword : (word (library ++ ['.'])).split? ("var".toList ++ ' ' ::
      (h.name ++ (h.restParts.flatten ++ t))) = none := by
    by_contra hne
    obtain ⟨⟨a, r⟩, hr⟩ := Option.ne_none_iff_exists'.1 hne
    simp only [split?, Option.map_eq_some_iff, Prod.mk.injEq] at hr
    obtain ⟨u, hu, _, _⟩ := hr
    have hsp : ' ' ∉ library ++ ['.'] := by
      have := Text.not_mem_of_all (Text.name_parts hl) (x := ' ') (by decide)
      simp [this]
    have hpre := Text.prefix_of_not_mem hsp ⟨u, (Text.after?_eq_some.1 hu).symm⟩
    have hdot : '.' ∈ "var".toList := hpre.subset (by simp)
    simp at hdot
  have hreads : readAll (memberHeader library).pieces (h.legacyText library ++ t) = none := by
    simp only [memberHeader, headerOf, List.nil_append, List.cons_append]
    rw [readAll_cons hgap, readAll_cons_none hword]
    rfl
  simp [Pattern.fits?, hreads]

end

/-- The characters of a header before its brace. -/
def headerChar (c : Char) : Bool :=
  Text.isNamePart c || Text.isBlank c || ['.', '=', '(', ',', ')'].contains c

theorem header_chars {library : Text} {h : Head} (hl : Text.isName library = true)
    (hw : h.WellFormed) :
    ∃ u, h.legacyText library = u ++ ['\x7b'] ∧ ∀ c ∈ u, headerChar c = true := by
  have hlib : ∀ c ∈ library, headerChar c = true :=
    fun c hc => by simp [headerChar, Text.name_parts hl c hc]
  have hname : ∀ c ∈ h.name, headerChar c = true :=
    fun c hc => by simp [headerChar, Text.name_parts hw.name c hc]
  have hindent : ∀ c ∈ h.indent, headerChar c = true :=
    fun c hc => by simp [headerChar, Text.indent_blank (hw.indent c hc)]
  have hparams : ∀ c ∈ h.params, headerChar c = true := by
    intro c hc
    have := hw.params.1 c hc
    simp only [Bool.or_eq_true, beq_iff_eq] at this
    rcases this with (hp | hp) | rfl
    · simp [headerChar, hp]
    · simp [headerChar, hp]
    · decide
  have htarget : ∀ c ∈ h.target library, headerChar c = true := by
    intro c hc
    simp only [Head.target, List.mem_append] at hc
    rcases hc with hc | hc
    · split at hc
      · rcases List.mem_append.1 hc with hc | hc
        · exact hlib c hc
        · rw [List.mem_singleton.1 hc]; decide
      · revert c; decide
    · exact hname c hc
  have hfixed : ∀ c ∈ " = ".toList ++ ".extend(".toList ++ "function (".toList ++ ") ".toList ++
      Base.animated.text ++ Base.grouping.text, headerChar c = true := by decide
  refine ⟨h.indent ++ h.target library ++ " = ".toList ++ h.base.text ++ ".extend(".toList ++
    "function (".toList ++ h.params ++ ") ".toList, by simp [Head.legacyText], ?_⟩
  have hbase : ∀ c ∈ h.base.text, headerChar c = true := by
    intro c hc
    apply hfixed
    cases hb : h.base <;> simp [hb] at hc ⊢ <;> simp [hc]
  intro c hc
  simp only [List.mem_append] at hc
  rcases hc with ((((((hc | hc) | hc) | hc) | hc) | hc) | hc) | hc
  · exact hindent c hc
  · exact htarget c hc
  · exact hfixed c (by simp only [List.mem_append, hc, true_or])
  · exact hbase c hc
  · exact hfixed c (by simp only [List.mem_append, hc, true_or, or_true])
  · exact hfixed c (by simp only [List.mem_append, hc, true_or, or_true])
  · exact hparams c hc
  · exact hfixed c (by simp only [List.mem_append, hc, true_or, or_true])

/-! Lines that hold no header and no call. -/

/-- Both header patterns are silent on a line, whatever stands around it. -/
def Headless (library s : Text) : Prop :=
  ∀ b t, (memberHeader library).Silent b (s ++ ['\n']) t ∧ variableHeader.Silent b (s ++ ['\n']) t

/-- The pattern for calls is silent on a line, whatever stands around it. -/
def Quiet (b : Base) (s : Text) : Prop :=
  ∀ prev t, (superCallOf b).Silent prev (s ++ ['\n']) t

theorem header_needs (target : List Piece) : (headerOf target).pieces =
    ([Piece.gap] ++ target ++ Piece.name ++
        [Piece.gap, .lit "=", .gap, .oneOf (Base.all.map Base.text)]) ++
      Piece.word ".extend(".toList :: [Piece.gap, .lit "function", .gap, .lit "(", .run 0 (· != ')'),
        .lit ")", .gap, .lit "\x7b"] := by
  simp [headerOf, headerRest, lit]

theorem header_silent {target : List Piece} (ht : ∀ p ∈ target, p.Avoids '\n') {s : Text}
    (hs : ¬ ".extend(".toList <:+: s) (b : Option Char) (t : Text) :
    (headerOf target).Silent b (s ++ ['\n']) t := by
  refine Pattern.silent_absent (header_needs target) ?_ (by decide) hs b t
  intro p hp
  simp only [List.mem_append, List.mem_cons, List.not_mem_nil, or_false, Piece.name] at hp
  rcases hp with ((rfl | hp) | (rfl | rfl)) | (rfl | rfl | rfl | rfl)
  · exact (by decide : isIndent '\n' = false)
  · exact ht p hp
  · trivial
  · exact (by decide : Text.isNamePart '\n' = false)
  · exact (by decide : isIndent '\n' = false)
  · exact (by decide : '\n' ∉ "=".toList)
  · exact (by decide : isIndent '\n' = false)
  · exact (by decide : ∀ w ∈ Base.all.map Base.text, '\n' ∉ w)

theorem headless_of_absent {library s : Text} (hl : Text.isName library = true)
    (hs : ¬ ".extend(".toList <:+: s) : Headless library s := by
  have hno : '\n' ∉ library := Text.not_mem_of_all (Text.name_parts hl) (by decide)
  intro b t
  constructor
  · refine header_silent (fun p hp => ?_) hs b t
    rcases List.mem_cons.1 hp with rfl | hp
    · simp [Avoids, hno]
    · rw [List.mem_singleton.1 hp]
      simp [Avoids]
  · refine header_silent (fun p hp => ?_) hs b t
    rcases List.mem_cons.1 hp with rfl | hp
    · exact (by decide : '\n' ∉ "var".toList)
    · rw [List.mem_singleton.1 hp]
      exact (by decide : isIndent '\n' = false)

theorem call_needs (b : Base) : (superCallOf b).pieces = [.word b.text] ++ .word ".call(".toList ::
    (superCallOf b).pieces.drop 2 := rfl

theorem quiet_of_absent {b : Base} {s : Text} (hs : ¬ ".call(".toList <:+: s) : Quiet b s := by
  intro prev t
  refine Pattern.silent_absent (call_needs b) ?_ (by decide) hs prev t
  intro p hp
  rw [List.mem_singleton.1 hp]
  cases b
  · exact (by decide : '\n' ∉ Base.animated.text)
  · exact (by decide : '\n' ∉ Base.grouping.text)

theorem plain_headless {library s : Text} (hl : Text.isName library = true) (hs : PlainText s) :
    Headless library s := headless_of_absent hl hs.no_extend

theorem plain_quiet {s : Text} (hs : PlainText s) (b : Base) : Quiet b s :=
  quiet_of_absent hs.no_call

theorem foot_absent {indent : Text} (hi : ∀ c ∈ indent, isIndent c = true) {w : Text} :
    ¬ ('.' :: w) <:+: indent ++ "\x7d);".toList := by
  intro h
  have hdot : '.' ∈ indent ++ "\x7d);".toList := h.subset (by simp)
  rcases List.mem_append.1 hdot with hd | hd
  · exact absurd (hi _ hd) (by decide)
  · exact absurd hd (by decide)

theorem base_chars (b : Base) : ∀ c ∈ b.text, Text.isNamePart c = true := by
  cases b <;> decide

theorem header_quiet {library : Text} {h : Head} (hl : Text.isName library = true)
    (hw : h.WellFormed) (b : Base) : Quiet b (h.legacyText library) := by
  apply quiet_of_absent
  intro hin
  have hcut : h.legacyText library = (h.indent ++ h.target library ++ " = ".toList ++ h.base.text ++
      ".extend".toList) ++ '(' :: ("function (".toList ++ h.params ++ ") \x7b".toList) := by
    simp [Head.legacyText]
  have hopen : '(' ∉ h.indent ++ h.target library ++ " = ".toList ++ h.base.text ++
      ".extend".toList := by
    have h1 := Text.not_mem_of_all hw.indent (x := '(') (by decide)
    have h2 := Text.not_mem_of_all (Text.name_parts hl) (x := '(') (by decide)
    have h3 := Text.not_mem_of_all (Text.name_parts hw.name) (x := '(') (by decide)
    have h4 := Text.not_mem_of_all (base_chars h.base) (x := '(') (by decide)
    cases he : h.exported <;> simp [Head.target, he, h1, h2, h3, h4]
  have hdot : '.' ∉ "function (".toList ++ h.params ++ ") \x7b".toList := by
    have h1 : '.' ∉ h.params := params_char hw (by decide) (by decide) (by decide)
    simp [h1]
  rw [hcut] at hin
  rcases Text.infix_cut (w := ".call".toList) (by decide) hopen hin with hs | hs
  · have := List.suffix_of_suffix_length_le hs (List.suffix_append _ ".extend".toList) (by decide)
    revert this
    decide
  · exact hdot (hs.subset (by simp))

/-! Calls. -/

theorem call_line_headless {library lead args : Text} {b : Base} (hl : Text.isName library = true)
    (hlead : ∀ c ∈ lead, Text.isBlank c = true) (ha : PlainText args) :
    Headless library (lead ++ callText b args) := by
  apply headless_of_absent hl
  intro hin
  have hcut : lead ++ callText b args = (lead ++ b.text ++ ".call".toList) ++ '(' ::
      (("this".toList ++ if args = [] then [] else ", ".toList) ++ (args ++ ");".toList)) := by
    simp [callText, callLead]
  have hopen : '(' ∉ lead ++ b.text ++ ".call".toList := by
    have h1 := Text.not_mem_of_all hlead (x := '(') (by decide)
    have h2 := Text.not_mem_of_all (base_chars b) (x := '(') (by decide)
    simp [h1, h2]
  have hdot : '.' ∉ "this".toList ++ if args = [] then [] else ", ".toList := by
    split <;> decide
  rw [hcut] at hin
  rcases Text.infix_cut (w := ".extend".toList) (by decide) hopen hin with hs | hs
  · have := List.suffix_of_suffix_length_le (List.suffix_append _ ".call".toList) hs (by decide)
    revert this
    decide
  · have hargs := Text.infix_right_of_head hdot hs
    exact ha.no_extend (Text.infix_left_of_last (w := ".extend".toList) (by decide) hargs)

/-- What the pieces of the pattern for calls take. -/
def callParts (b : Base) (args : Text) : List Text :=
  [b.text, ".call(".toList, [], "this".toList, [], []] ++
    if args = [] then [[], []] else [[','], [' ']]

theorem call_parts_flatten (b : Base) (args : Text) : (callParts b args).flatten = callLead b args := by
  by_cases h : args = [] <;> simp [callParts, callLead, h]

theorem call_fits {b : Base} {args : Text} (ha : args.head?.all (fun c => !Text.isBlank c) = true)
    {prev : Option Char} (hp : Pattern.freshName prev = true) (t : Text) :
    (superCallOf b).fits? prev (callText b args ++ t) = some (callParts b args) := by
  have hthis : Text.isBlank 't' = false := by decide
  have hcomma : Text.isBlank ',' = false := by decide
  have hround : Text.isBlank ')' = false := by decide
  have hspace : Text.isBlank ' ' = true := by decide
  cases args with
  | nil =>
    apply Pattern.fits_of_reads (r := ");".toList ++ t) hp
    cases b <;> simp [superCallOf, callText, callLead, callParts, readAll, split?, Text.after?,
      lit, blanks, Base.text, Base.identifier, hthis, hround]
  | cons c args =>
    have hc : Text.isBlank c = false := by simpa using ha
    apply Pattern.fits_of_reads (r := (c :: args) ++ ");".toList ++ t) hp
    cases b <;> simp [superCallOf, callText, callLead, callParts, readAll, split?, Text.after?,
      lit, blanks, Base.text, Base.identifier, hthis, hcomma, hspace, hc]

theorem call_rest_absent {args : Text} (ha : PlainText args) :
    ¬ ".call(".toList <:+: args ++ ");".toList :=
  fun hin => ha.no_call (Text.infix_left_of_last (w := ".call".toList) (by decide) hin)

/-- The pattern for calls is silent on a call of the other base class. -/
theorem other_call_quiet {lead args : Text} {b b' : Base} (hb : b' ≠ b)
    (hlead : ∀ c ∈ lead, Text.isBlank c = true) (ha : PlainText args) :
    Quiet b (lead ++ callText b' args) := by
  intro prev t
  apply Pattern.silent_of_needs (w := (b.text ++ ".call".toList) ++ ['('])
  · intro u v h
    have hpre := readAll_words_prefix h
    have hno : '\n' ∉ b.text ++ ".call(".toList := by cases b <;> decide
    have := Text.prefix_of_not_mem hno hpre
    simpa using this.isInfix
  · intro hin
    have hcut : lead ++ callText b' args = (lead ++ (b'.text ++ ".call".toList)) ++ '(' ::
        (("this".toList ++ if args = [] then [] else ", ".toList) ++ (args ++ ");".toList)) := by
      simp [callText, callLead]
    have hopen : '(' ∉ lead ++ (b'.text ++ ".call".toList) := by
      have h1 := Text.not_mem_of_all hlead (x := '(') (by decide)
      have h2 := Text.not_mem_of_all (base_chars b') (x := '(') (by decide)
      simp [h1, h2]
    have hown : '(' ∉ b.text ++ ".call".toList := by cases b <;> decide
    rw [hcut] at hin
    rcases Text.infix_cut hown hopen hin with hs | hs
    · have hsame := List.suffix_of_suffix_length_le hs
        (List.suffix_append lead (b'.text ++ ".call".toList)) (by cases b <;> cases b' <;> decide)
      revert hsame hb
      cases b <;> cases b' <;> decide
    · have hdot : '.' ∉ "this".toList ++ if args = [] then [] else ", ".toList := by
        split <;> decide
      have hcall : ".call(".toList <:+: (b.text ++ ".call".toList) ++ ['('] :=
        ⟨b.text, [], by simp⟩
      exact call_rest_absent ha (Text.infix_right_of_head hdot (hcall.trans hs))

end Restage.Legacy
