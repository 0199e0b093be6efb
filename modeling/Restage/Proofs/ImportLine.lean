import Restage.Proofs.FinalStyle
import Restage.Proofs.LineEnds

/-!
The lexer in an import line. The line is a few names and one string; behind it the lexer is where it
began (`import_lexemes`), so the line leaves the code of a script as it is (`import_mask`).
-/

set_option autoImplicit false

namespace Restage

namespace Text

/-- A class without blanks and byte order marks lies outside the spaces and line ends of scripts. -/
theorem unspaced {p : Char → Bool} (hblank : ∀ n ∈ blankCodes, p (Char.ofNat n) = false)
    (hmark : p '\uFEFF' = false) {c : Char} (hc : p c = true) :
    Script.isNewline c = false ∧ Script.isSpace c = false := by
  have hnone : isBlank c = false := by
    by_contra h
    rw [Bool.not_eq_false] at h
    have := hblank _ (blank_code h)
    rw [Char.ofNat_toNat, hc] at this
    exact Bool.noConfusion this
  have hother : c.toNat ≠ 0xFEFF := by
    intro h
    have hcode : c = '\uFEFF' := by rw [← Char.ofNat_toNat c, h]
    rw [hcode, hmark] at hc
    exact Bool.noConfusion hc
  have hline : Script.isNewline c = false := by
    by_contra h
    rw [Bool.not_eq_false] at h
    have : isBlank c = true := by
      simp only [Script.isNewline, Bool.or_eq_true, beq_iff_eq] at h
      rcases h with ((rfl | rfl) | h) | h
      · decide
      · decide
      · simp [isBlank, h]
      · simp [isBlank, h]
    rw [hnone] at this
    exact Bool.noConfusion this
  exact ⟨hline, by simp [Script.isSpace, hnone, hother]⟩

theorem identifier_unspaced {c : Char} (hc : isIdentifierPart c = true) :
    Script.isNewline c = false ∧ Script.isSpace c = false :=
  unspaced (p := isIdentifierPart) (by decide +kernel) (by decide +kernel) hc

/-- Identifiers are names for the lexer. -/
theorem identifier_name_char {c : Char} (hc : isIdentifierPart c = true) :
    Script.isNameChar c = true := by
  obtain ⟨hline, hspace⟩ := identifier_unspaced hc
  unfold isIdentifierPart at hc
  split at hc
  · simp only [Bool.or_eq_true] at hc
    rcases hc with hc | hc <;> simp [Script.isNameChar, hc]
  · next hlarge =>
    simp [Script.isNameChar, hline, hspace, Nat.le_of_not_lt hlarge]

theorem identifier_start_not_digit {c : Char} (hc : isIdentifierStart c = true) :
    isDigit c = false := by
  by_contra h
  rw [Bool.not_eq_false] at h
  have hall : ∀ n ∈ List.range' 48 10, isIdentifierStart (Char.ofNat n) = false := by decide +kernel
  have hrange : c.toNat ∈ List.range' 48 10 := by
    simp only [isDigit, Bool.and_eq_true, decide_eq_true_eq, Char.le_def, UInt32.le_iff_toNat_le] at h
    have h0 : '0'.val.toNat = 48 := rfl
    have h9 : '9'.val.toNat = 57 := rfl
    have hcode : c.toNat = c.val.toNat := rfl
    rw [List.mem_range'_1]
    omega
  have := hall _ hrange
  rw [Char.ofNat_toNat, hc] at this
  exact Bool.noConfusion this

end Text

namespace Script

/-! Single lexemes. -/

theorem lexemes_cons (st : State) (c : Char) (cs : Text) :
    lexemesFrom st (c :: cs) = ⟨(step st c cs).kind, c :: cs.take (step st c cs).more⟩ ::
      lexemesFrom (step st c cs).state (cs.drop (step st c cs).more) := by
  rw [lexemesFrom]

/-- A word that the lexer takes for a name. -/
structure NameWord (w : Text) : Prop where
  chars : ∀ d ∈ w, isNameChar d = true
  head : ∃ c u, w = c :: u ∧ isNewline c = false ∧ isSpace c = false ∧ Text.isDigit c = false ∧ c ≠ '.'

section

variable (st : State)

theorem name_lexeme {w v : Text} (hw : NameWord w) (hv : v.head?.all (fun d => !isNameChar d) = true) :
    lexemesFrom st (w ++ v) = ⟨.name, w⟩ :: lexemesFrom (st.name w) v := by
  obtain ⟨hchars, c, u, rfl, hline, hspace, hdigit, hdot⟩ := hw
  have hrun := Text.run_taken (fun d hd => hchars d (List.mem_cons_of_mem c hd)) hv
  have hstep : step st c (u ++ v) = ⟨.name, u.length, st.name (c :: u)⟩ := by
    simp [step, hline, hspace, hdigit, hdot, hchars c List.mem_cons_self, hrun]
  rw [List.cons_append, lexemes_cons, hstep]
  simp only [List.take_left, List.drop_left]

theorem space_lexeme {v : Text} (hv : v.head?.all (fun d => !isSpace d) = true) :
    lexemesFrom st ([' '] ++ v) = ⟨.blank, [' ']⟩ :: lexemesFrom st v := by
  have hrun : v.takeWhile isSpace = [] := by
    cases v with
    | nil => rfl
    | cons d v => simpa using hv
  have hstep : step st ' ' v = ⟨.blank, 0, st⟩ := by
    have hline : isNewline ' ' = false := by decide
    have hspace : isSpace ' ' = true := by decide
    simp [step, hline, hspace, hrun]
  rw [List.singleton_append, lexemes_cons, hstep]
  rfl

theorem string_inside {q : Char} (hq : q ≠ '\\') {s : Text} (hs : InQuotes q s) (v : Text) :
    stringLength? q (s ++ q :: v) = some (s.length + 1) := by
  induction s with
  | nil =>
    rw [List.nil_append, stringLength?.eq_4 _ _ _ (fun _ h => absurd h hq)
      fun _ _ h => absurd h hq, if_pos rfl]
    rfl
  | cons c s ih =>
    obtain ⟨h1, h2, h3, h4⟩ := hs c (by simp)
    rw [List.cons_append, stringLength?.eq_4 _ _ _ (fun _ h => absurd h h2)
      fun _ _ h => absurd h h2, if_neg h1, if_neg (by simp [h3, h4]), ih fun d hd => hs d (by simp [hd])]
    rfl

theorem string_lexeme {s : Text} (hs : InQuotes '\x27' s) (v : Text) :
    lexemesFrom st ('\x27' :: (s ++ ['\x27']) ++ v) =
      ⟨.string, '\x27' :: (s ++ ['\x27'])⟩ :: lexemesFrom st.value v := by
  have hlength : (s ++ ['\x27']).length = s.length + 1 := by simp
  have hstep : step st '\x27' ((s ++ ['\x27']) ++ v) = ⟨.string, (s ++ ['\x27']).length, st.value⟩ := by
    have hline : isNewline '\x27' = false := by decide
    have hspace : isSpace '\x27' = false := by decide
    have hdigit : Text.isDigit '\x27' = false := by decide
    have hname : isNameChar '\x27' = false := by decide
    have hinside := string_inside (by decide) hs v
    rw [List.append_assoc, List.singleton_append, hlength]
    simp [step, hline, hspace, hdigit, hname, hinside]
  rw [List.cons_append, lexemes_cons, hstep]
  simp only [List.take_left, List.drop_left]

/-- The lexemes at the end of a line. -/
def endLexemes : List Lexeme := [⟨.mark, [';']⟩, ⟨.blank, ['\n']⟩]

theorem end_lexemes (v : Text) :
    lexemesFrom st (";\n".toList ++ v) =
      endLexemes ++ lexemesFrom (st.semicolon.blank true) v := by
  have hsemicolon : ∀ t, step st ';' t = ⟨.mark, 0, st.semicolon⟩ := by
    have hline : isNewline ';' = false := by decide
    have hspace : isSpace ';' = false := by decide
    have hdigit : Text.isDigit ';' = false := by decide
    have hname : isNameChar ';' = false := by decide
    simp [step, hline, hspace, hdigit, hname, markStep]
  have hnewline : ∀ t, step st.semicolon '\n' t = ⟨.blank, 0, st.semicolon.blank true⟩ := by
    have hline : isNewline '\n' = true := by decide
    simp [step, hline]
  have hcut : ";\n".toList ++ v = ';' :: '\n' :: v := rfl
  rw [hcut, lexemes_cons, hsemicolon]
  simp only [List.drop_zero]
  rw [lexemes_cons, hnewline]
  rfl

/-! The state along the line. -/

theorem keyword_frames (w : Text) : (st.keyword w).frames = st.frames := by
  unfold State.keyword
  split_ifs <;> rfl

/-- A name opens and closes nothing, unless it names the base of a class. -/
theorem name_frames {w : Text} (hw : w ≠ "extends".toList ∨ st.place = .operand) :
    (st.name w).frames = st.frames := by
  unfold State.name
  split
  · rfl
  · rfl
  · rfl
  · next f hplace =>
    rw [if_neg]
    · rfl
    · exact hw.resolve_right (by rw [hplace]; exact fun h => Place.noConfusion h)
  · rfl
  · exact keyword_frames st w

variable {st}

/-- Behind a string, a semicolon and a line end the lexer is where it began, if nothing is open. -/
theorem statement_end (hst : st.frames = State.start.frames) :
    st.value.semicolon.blank true = .start := by
  obtain ⟨place, frames, fresh⟩ := st
  cases hst
  rfl

end

/-! The line. -/

/-- The code of an import line before its string. -/
def importHead (name : Text) : Text := "import ".toList ++ (name ++ " from ".toList)

/-- The string of an import line. -/
def importString (source : Text) : Text := '\x27' :: (source ++ ['\x27'])

theorem import_line_parts (target : Output.Target) : Output.importLine target =
    importHead target.namespaceName ++ (importString target.importSource ++ [';']) := by
  have hfrom : " from '".toList = " from ".toList ++ ['\x27'] := rfl
  have hend : "';".toList = ['\x27'] ++ [';'] := rfl
  unfold Output.importLine importHead importString
  rw [hfrom, hend]
  simp

theorem import_head_words (name rest : Text) : importHead name ++ rest =
    "import".toList ++ ([' '] ++ (name ++ ([' '] ++ ("from".toList ++ ([' '] ++ rest))))) := by
  unfold importHead
  simp

/-- The lexemes of an import line before its string. -/
def headLexemes (name : Text) : List Lexeme :=
  [⟨.name, "import".toList⟩, ⟨.blank, [' ']⟩, ⟨.name, name⟩, ⟨.blank, [' ']⟩,
    ⟨.name, "from".toList⟩, ⟨.blank, [' ']⟩]

theorem head_lexemes_text (name : Text) : (headLexemes name).flatMap (·.text) = importHead name := by
  unfold headLexemes importHead
  simp

theorem identifier_word {name : Text} (hn : Text.isIdentifier name = true) : NameWord name := by
  refine ⟨fun d hd => Text.identifier_name_char (Text.identifier_parts hn d hd), ?_⟩
  cases name with
  | nil => simp [Text.isIdentifier] at hn
  | cons c u =>
    simp only [Text.isIdentifier, Bool.and_eq_true] at hn
    have hpart := Text.start_identifier_part hn.1
    obtain ⟨hline, hspace⟩ := Text.identifier_unspaced hpart
    refine ⟨c, u, rfl, hline, hspace, Text.identifier_start_not_digit hn.1, ?_⟩
    rintro rfl
    exact absurd hpart (by decide)

theorem import_lexemes {name source : Text} (hn : Text.isIdentifier name = true)
    (hs : InQuotes '\x27' source) (v : Text) :
    lexemesFrom .start (importHead name ++ (importString source ++ (";\n".toList ++ v))) =
      headLexemes name ++ (⟨.string, importString source⟩ :: (endLexemes ++
        lexemesFrom .start v)) := by
  have himport : NameWord "import".toList :=
    ⟨by decide, 'i', "mport".toList, rfl, by decide, by decide, by decide, by decide⟩
  have hfrom : NameWord "from".toList :=
    ⟨by decide, 'f', "rom".toList, rfl, by decide, by decide, by decide, by decide⟩
  have hname := identifier_word hn
  have hbehind : ∀ t : Text, ([' '] ++ t).head?.all (fun d => !isNameChar d) = true := by
    have hspace : isNameChar ' ' = false := by decide
    simp [hspace]
  have hahead : ∀ {w : Text} (t : Text), NameWord w →
      (w ++ t).head?.all (fun d => !isSpace d) = true := by
    rintro w t ⟨_, c, u, rfl, _, hspace, _⟩
    simp [hspace]
  have hquote : ∀ t, (importString source ++ t).head?.all (fun d => !isSpace d) = true := by
    have hspace : isSpace '\x27' = false := by decide
    simp [importString, hspace]
  -- none of the words opens anything, whatever the name between them is
  have hplace : (State.start.name "import".toList).place = .operand := by decide +kernel
  have hst : (((State.start.name "import".toList).name name).name "from".toList).frames =
      State.start.frames := by
    have hlast : "from".toList ≠ "extends".toList := by decide
    have hfirst : (State.start.name "import".toList).frames = State.start.frames :=
      name_frames _ (Or.inl (by decide))
    exact (name_frames _ (Or.inl hlast)).trans ((name_frames _ (Or.inr hplace)).trans hfirst)
  rw [import_head_words, name_lexeme _ himport (hbehind _), space_lexeme _ (hahead _ hname),
    name_lexeme _ hname (hbehind _), space_lexeme _ (hahead _ hfrom),
    name_lexeme _ hfrom (hbehind _), space_lexeme _ (hquote _), importString, string_lexeme _ hs,
    end_lexemes, statement_end hst]
  rfl

/-- An import line leaves the code of what stands behind it as it is; its string is no code. -/
theorem import_mask {name source : Text} (hn : Text.isIdentifier name = true)
    (hs : InQuotes '\x27' source) {v : Text} (hv : v.head? ≠ some '#') :
    codeMask (importHead name ++ (importString source ++ (";\n".toList ++ v))) =
      List.replicate (importHead name).length true ++
        (List.replicate (importString source).length false ++ ([true, true] ++ codeMask v)) := by
  have hfirst : (importHead name ++ (importString source ++ (";\n".toList ++ v))).head? ≠
      some '#' := by
    rw [import_head_words]
    exact fun h => absurd (Option.some.inj h) (by decide)
  have hwhole : ∀ x ∈ headLexemes name ++ (⟨.string, importString source⟩ :: endLexemes),
      Whole x.kind := by
    simp [headLexemes, endLexemes, Whole]
  have hsettled := settle_front hwhole (lexemesFrom .start v)
  rw [List.append_assoc, List.cons_append] at hsettled
  have hstring : maskOf [⟨.string, importString source⟩] =
      List.replicate (importString source).length false := by
    simp [maskOf, Kind.isLiteral]
  have hhead : ∀ y ∈ headLexemes name, y.kind.isLiteral = false := by
    simp [headLexemes, Kind.isLiteral]
  have hend : ∀ y ∈ endLexemes, y.kind.isLiteral = false := by
    simp [endLexemes, Kind.isLiteral]
  rw [codeMask, codeMask, lexemes_plain hfirst, lexemes_plain hv, import_lexemes hn hs, hsettled,
    List.append_cons, mask_of_append, mask_of_append, mask_of_append, hstring, mask_code hhead,
    mask_code hend, head_lexemes_text]
  simp [endLexemes]

end Script

end Restage
