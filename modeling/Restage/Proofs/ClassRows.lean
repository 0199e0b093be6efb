import Restage.Proofs.ExportForm
import Restage.Proofs.LegacyConversion
import Restage.Proofs.Splitting

/-!
The class form of a forest, row by row. A row is a line of code or the head of a class, and a style
tells how members of the library and variables are written in heads. The rows of an exportable
forest are fine (`rows_fine`), and their brackets pair up (`class_balanced`).
-/

set_option autoImplicit false

namespace Restage.Legacy

open Piece

/-- How a member of the library and a variable are written. -/
structure Style where
  root : Text
  keyword : Text
deriving DecidableEq, Repr

/-- How the conversion writes them. -/
def Style.converted (library : Text) : Style := ⟨library, "var".toList⟩

inductive Row where
  | code (text : Text)
  | head (indent : Text) (exported : Bool) (name : Text) (base : Base)
deriving Repr

namespace Row

/-- What stands in front of the name of a class. -/
def lead (σ : Style) (exported : Bool) : Text :=
  if exported then σ.root ++ ['.'] else σ.keyword ++ [' ']

/-- What follows the first name of a class. -/
def headRest (name : Text) (base : Base) : Text :=
  " = class ".toList ++ (name ++ (" extends ".toList ++ (base.text ++ " \x7b".toList)))

def text (σ : Style) : Row → Text
  | code s => s
  | head indent exported name base => indent ++ (lead σ exported ++ (name ++ headRest name base))

def name? : Row → Option Text
  | code _ => none
  | head _ _ name _ => some name

/-- A line without literal, arrow and legacy construct. -/
structure Plain (s : Text) : Prop where
  one_line : '\n' ∉ s
  bare : Script.Bare s
  no_extend : ¬ ".extend(".toList <:+: s
  no_call : ¬ ".call(".toList <:+: s
  no_assets : ¬ ".assets".toList <:+: s

instance (s : Text) : Decidable (Plain s) :=
  decidable_of_iff ('\n' ∉ s ∧ ((∀ c ∈ s, Script.opensLiteral c = false) ∧ ¬ "-->".toList <:+: s) ∧
      ¬ ".extend(".toList <:+: s ∧ ¬ ".call(".toList <:+: s ∧ ¬ ".assets".toList <:+: s)
    ⟨fun h => ⟨h.1, h.2.1, h.2.2.1, h.2.2.2.1, h.2.2.2.2⟩,
      fun h => ⟨h.one_line, h.bare, h.no_extend, h.no_call, h.no_assets⟩⟩

def Fine : Row → Prop
  | code s => Plain s
  | head indent _ name _ =>
    (∀ c ∈ indent, isIndent c = true) ∧ Text.isName name = true ∧ name ≠ "var".toList

end Row

def rowsText (σ : Style) (rows : List Row) : Text := rows.flatMap fun r => r.text σ ++ ['\n']

def rowNames (rows : List Row) : List Text := rows.filterMap Row.name?

@[simp] theorem rows_text_nil (σ : Style) : rowsText σ [] = [] := rfl

@[simp] theorem rows_text_cons (σ : Style) (r : Row) (rows : List Row) :
    rowsText σ (r :: rows) = r.text σ ++ '\n' :: rowsText σ rows := by
  simp [rowsText]

theorem rows_text_append (σ : Style) (rows more : List Row) :
    rowsText σ (rows ++ more) = rowsText σ rows ++ rowsText σ more := by
  simp [rowsText]

@[simp] theorem row_names_nil : rowNames [] = [] := rfl

@[simp] theorem row_names_append (rows more : List Row) :
    rowNames (rows ++ more) = rowNames rows ++ rowNames more := by
  simp [rowNames]

@[simp] theorem row_names_code (s : Text) (rows : List Row) :
    rowNames (.code s :: rows) = rowNames rows := rfl

@[simp] theorem row_names_head (indent : Text) (exported : Bool) (name : Text) (base : Base)
    (rows : List Row) : rowNames (.head indent exported name base :: rows) = name :: rowNames rows :=
  rfl

/-! The lines of a text as rows. -/

def codeRows (s : Text) : List Row := (Text.splitOn '\n' s).map .code

theorem code_rows_text (s : Text) (σ : Style) : rowsText σ (codeRows s) = s ++ ['\n'] := by
  have hlines := Text.join_lines (Text.split_on_some '\n' s)
  rw [Text.joinWith_splitOn] at hlines
  rw [hlines, rowsText, codeRows, List.flatMap_map]
  rfl

@[simp] theorem code_rows_names (s : Text) : rowNames (codeRows s) = [] := by
  simp [rowNames, codeRows, Row.name?]

/-! The rows of a forest. -/

def superText (lead args : Text) : Text := lead ++ ("super(".toList ++ (args ++ ");".toList))

def constructorText (indent params : Text) : Text :=
  indent ++ ("    constructor(".toList ++ (params ++ ") \x7b".toList))

namespace Forest

/-- The rows of the class form; as there, a call of the base that is due becomes one of `super`. -/
def rows : Option Base → Forest → List Row
  | _, done => []
  | due, line s r => .code s :: rows due r
  | due, call lead b args r =>
    if due = some b then .code (superText lead args) :: rows none r
    else .code (lead ++ callText b args) :: rows due r
  | due, define h body r =>
    .head h.indent h.exported h.name h.base ::
      (codeRows (constructorText h.indent h.params) ++
        ((if body.calls h.base then [] else [.code (superText (h.indent ++ "        ".toList) [])]) ++
          (rows (some h.base) body ++
            (.code (h.indent ++ ['}']) :: .code (h.indent ++ ['}']) :: rows due r))))

end Forest

theorem lead_target (library : Text) (h : Head) :
    Row.lead (.converted library) h.exported ++ h.name = h.target library := by
  unfold Row.lead Head.target
  split <;> simp [Style.converted]

theorem head_class_text (library : Text) (h : Head) :
    (Row.head h.indent h.exported h.name h.base).text (.converted library) ++
      '\n' :: constructorText h.indent h.params = h.classText library := by
  have hend : " \x7b\n".toList = " \x7b".toList ++ ['\n'] := rfl
  unfold Head.classText
  rw [← lead_target, hend]
  unfold Row.text Row.headRest constructorText
  simp only [List.append_assoc, List.singleton_append]
  rfl

theorem rows_class_text (library : Text) (due : Option Base) (f : Forest) :
    rowsText (.converted library) (f.rows due) = f.classText library due := by
  induction f generalizing due with
  | done => rfl
  | line s r ih => simp [Forest.rows, Forest.classText, Row.text, ih]
  | call lead b args r ih =>
    simp only [Forest.rows, Forest.classText]
    split <;> simp [Row.text, superText, ih]
  | define h body r ihb ihr =>
    simp only [Forest.rows, Forest.classText, rows_text_cons, rows_text_append, code_rows_text, ihb,
      ihr, ← head_class_text]
    split <;> simp [Row.text, Head.insertedText, superText]

theorem rows_names (due : Option Base) (f : Forest) : rowNames (f.rows due) = f.names := by
  induction f generalizing due with
  | done => rfl
  | line s r ih => exact ih due
  | call lead b args r ih =>
    simp only [Forest.rows]
    split
    · exact ih none
    · exact ih due
  | define h body r ihb ihr =>
    simp only [Forest.rows, Forest.names, row_names_head, row_names_append, row_names_code,
      code_rows_names, ihb, ihr]
    split <;> rfl

/-! Fine rows. -/

/-- The characters of lines that the conversion writes by itself. -/
def isWritten (c : Char) : Bool :=
  Text.isNamePart c || isIndent c || Text.isBlank c || [',', '(', ')', '{', '}', ';'].contains c

theorem written_plain {s : Text} (hs : ∀ c ∈ s, isWritten c = true) (hn : '\n' ∉ s) :
    Row.Plain s := by
  have hlacks : ∀ {x : Char}, isWritten x = false → x ∉ s := Text.not_mem_of_all hs
  have hdot : ∀ w : Text, ¬ '.' :: w <:+: s := fun w h => hlacks (x := '.') (by decide)
    (h.subset (by simp))
  refine ⟨hn, bare_without_dash ?_ (hlacks (by decide)), hdot _, hdot _, hdot _⟩
  intro c hc
  by_contra hbad
  simp only [Bool.not_eq_false, Script.opensLiteral, Bool.or_eq_true, beq_iff_eq] at hbad
  rcases hbad with ((rfl | rfl) | rfl) | rfl <;> exact hlacks (by decide) hc

theorem mild_plain {s : Text} (hs : Mild s) : Row.Plain s :=
  ⟨hs.one_line, hs.bare, hs.no_extend, hs.no_call, hs.no_assets⟩

/-- The call of `super` holds what its arguments hold. -/
theorem super_plain {lead args : Text} (hlead : ∀ c ∈ lead, Text.isBlank c = true ∧ c ≠ '\n')
    (ha : Mild args) : Row.Plain (superText lead args) := by
  have hfront : ∀ c ∈ lead ++ "super(".toList, isWritten c = true ∧ c ≠ '\n' := by
    intro c hc
    rcases List.mem_append.1 hc with hc | hc
    · exact ⟨by simp [isWritten, (hlead c hc).1], (hlead c hc).2⟩
    · exact (by decide : ∀ c ∈ "super(".toList, isWritten c = true ∧ c ≠ '\n') c hc
  have hplain := written_plain (fun c hc => (hfront c hc).1) fun h => (hfront _ h).2 rfl
  have hlacks : ∀ {x : Char}, isWritten x = false → x ∉ lead ++ "super(".toList :=
    Text.not_mem_of_all fun c hc => (hfront c hc).1
  have htext : superText lead args = (lead ++ "super(".toList) ++ (args ++ ");".toList) := by
    simp [superText]
  have hword : ∀ {w : Text} {c : Char}, c ∉ ");".toList → ¬ '.' :: (w ++ [c]) <:+: args →
      ¬ '.' :: (w ++ [c]) <:+: superText lead args := by
    intro w c hc hargs h
    rw [htext] at h
    have h1 := Text.infix_right_of_head (hlacks (by decide)) h
    exact hargs (Text.infix_left_of_last (w := '.' :: w) hc h1)
  have hwords : ¬ ".extend(".toList <:+: superText lead args ∧
      ¬ ".call(".toList <:+: superText lead args ∧ ¬ ".assets".toList <:+: superText lead args :=
    ⟨hword (w := "extend".toList) (c := '(') (by decide) ha.no_extend,
      hword (w := "call".toList) (c := '(') (by decide) ha.no_call,
      hword (w := "asset".toList) (c := 's') (by decide) ha.no_assets⟩
  refine ⟨?_, ⟨?_, ?_⟩, hwords.1, hwords.2.1, hwords.2.2⟩
  · rw [htext]
    simp only [List.mem_append, not_or]
    exact ⟨⟨fun h => (hlead _ h).2 rfl, by decide⟩, ha.one_line, by decide⟩
  · intro c hc
    rw [htext] at hc
    rcases List.mem_append.1 hc with hc | hc
    · exact hplain.bare.1 c hc
    · rcases List.mem_append.1 hc with hc | hc
      · exact ha.bare.1 c hc
      · exact (by decide : ∀ c ∈ ");".toList, Script.opensLiteral c = false) c hc
  · intro h
    rw [htext] at h
    have h1 := Text.infix_right_of_head (hlacks (by decide)) h
    exact ha.bare.2 (Text.infix_left_of_last (w := "--".toList) (by decide) h1)

theorem code_rows_fine {s : Text} (hs : ∀ c ∈ s, isWritten c = true) :
    ∀ r ∈ codeRows s, r.Fine := by
  intro r hr
  obtain ⟨l, hl, rfl⟩ := List.mem_map.1 hr
  have hparts := Text.split_on_parts hl
  exact written_plain (fun c hc => hs c (hparts c hc).2) fun h => (hparts _ h).1 rfl

theorem constructor_written {h : Head} (hw : h.WellFormed) :
    ∀ c ∈ constructorText h.indent h.params, isWritten c = true := by
  intro c hc
  simp only [constructorText, List.mem_append] at hc
  rcases hc with hc | hc | hc | hc
  · simp [isWritten, hw.indent c hc]
  · exact (by decide : ∀ c ∈ "    constructor(".toList, isWritten c = true) c hc
  · have := hw.params.1 c hc
    simp only [Bool.or_eq_true, beq_iff_eq] at this
    rcases this with (h1 | h1) | rfl <;> simp [isWritten, *]
  · exact (by decide : ∀ c ∈ ") \x7b".toList, isWritten c = true) c hc

theorem indent_no_line {indent : Text} (hi : ∀ c ∈ indent, isIndent c = true) :
    '\n' ∉ indent := Text.not_mem_of_all hi (by decide)

theorem rows_fine {due : Option Base} {f : Forest} (hf : f.Exportable due) :
    ∀ r ∈ f.rows due, r.Fine := by
  induction f generalizing due with
  | done => simp [Forest.rows]
  | line s r ih =>
    simp only [Forest.rows, List.mem_cons, forall_eq_or_imp]
    exact ⟨mild_plain hf.1, ih hf.2⟩
  | call lead b args r ih =>
    obtain ⟨hdue, hlead, ha, _, hr⟩ := hf
    simp only [Forest.rows, if_pos hdue, List.mem_cons, forall_eq_or_imp]
    exact ⟨super_plain hlead ha, ih hr⟩
  | define h body r ihb ihr =>
    obtain ⟨⟨hw, hname⟩, hbody, hr⟩ := hf
    have hwritten : ∀ u : Text, (∀ c ∈ u, isWritten c = true ∧ c ≠ '\n') →
        Row.Plain (h.indent ++ u) := by
      intro u hu
      refine written_plain ?_ ?_
      · intro c hc
        rcases List.mem_append.1 hc with hc | hc
        · simp [isWritten, hw.indent c hc]
        · exact (hu c hc).1
      · simp only [List.mem_append, not_or]
        exact ⟨indent_no_line hw.indent, fun hc => (hu _ hc).2 rfl⟩
    have hfoot : Row.Plain (h.indent ++ ['}']) := hwritten _ (by decide)
    have hsuper : Row.Plain (superText (h.indent ++ "        ".toList) []) := by
      have := hwritten "        super();".toList (by decide)
      simpa [superText] using this
    have hinserted : ∀ r ∈ (if body.calls h.base then [] else
        [Row.code (superText (h.indent ++ "        ".toList) [])]), r.Fine := by
      split
      · exact fun r hr => absurd hr (List.not_mem_nil)
      · exact fun r hr => (List.mem_singleton.1 hr) ▸ hsuper
    have hrest : ∀ r' ∈ Row.code (h.indent ++ ['}']) :: .code (h.indent ++ ['}']) :: r.rows due,
        r'.Fine := by
      simp only [List.mem_cons, forall_eq_or_imp]
      exact ⟨hfoot, hfoot, ihr hr⟩
    intro r' hr'
    rcases List.mem_cons.1 hr' with rfl | hr'
    · exact ⟨hw.indent, hw.name, hname⟩
    rcases List.mem_append.1 hr' with hr' | hr'
    · exact code_rows_fine (constructor_written hw) r' hr'
    rcases List.mem_append.1 hr' with hr' | hr'
    · exact hinserted r' hr'
    rcases List.mem_append.1 hr' with hr' | hr'
    · exact ihb hbody r' hr'
    · exact hrest r' hr'

/-! Brackets. -/

theorem unbracketed {t : Text} {p : Char → Bool} (ht : ∀ c ∈ t, p c = true)
    (hp : ∀ c, p c = true → Script.isBracket c = false) : t.filter Script.isBracket = [] :=
  List.filter_eq_nil_iff.2 fun c hc => by simp [hp c (ht c hc)]

/-- A character of a class without brackets. -/
theorem not_bracket {p : Char → Bool}
    (hp : ∀ c ∈ ['{', '}', '(', ')', '[', ']'], p c = false) {c : Char} (hc : p c = true) :
    Script.isBracket c = false := by
  by_contra hb
  have hmem : c ∈ ['{', '}', '(', ')', '[', ']'] := by
    simp only [Bool.not_eq_false, Script.isBracket, Script.isCloser, Bool.or_eq_true, beq_iff_eq]
      at hb
    rcases hb with hb | (rfl | rfl) | rfl
    · unfold Script.closerOf? at hb
      split at hb <;> simp at hb ⊢
    all_goals simp
  rw [hp c hmem] at hc
  exact Bool.noConfusion hc

theorem name_not_bracket {c : Char} (hc : Text.isNamePart c = true) : Script.isBracket c = false :=
  not_bracket (by decide) hc

theorem indent_not_bracket {c : Char} (hc : isIndent c = true) : Script.isBracket c = false :=
  not_bracket (by decide) hc

theorem blank_not_bracket {c : Char} (hc : Text.isBlank c = true) : Script.isBracket c = false :=
  not_bracket (by decide) hc

theorem params_not_bracket {h : Head} (hw : h.WellFormed) :
    h.params.filter Script.isBracket = [] := by
  refine unbracketed hw.params.1 fun c hc => ?_
  exact not_bracket (p := fun c => Text.isNamePart c || Text.isBlank c || c == ',') (by decide) hc

theorem class_head_brackets {library : Text} (hl : Text.isName library = true) {h : Head}
    (hw : h.WellFormed) :
    (h.classText library).filter Script.isBracket = ['{', '(', ')', '{'] := by
  have hlib := unbracketed (Text.name_parts hl) fun c => name_not_bracket
  have hname := unbracketed (Text.name_parts hw.name) fun c => name_not_bracket
  have hindent := unbracketed hw.indent fun c => indent_not_bracket
  have hbase := unbracketed (base_chars h.base) fun c => name_not_bracket
  have hbracket : Script.isBracket '{' = true ∧ Script.isBracket '(' = true ∧
    Script.isBracket ')' = true := by decide
  have h1 : (" = class ".toList).filter Script.isBracket = [] := by decide
  have h2 : (" extends ".toList).filter Script.isBracket = [] := by decide
  have h3 : (" \x7b\n".toList).filter Script.isBracket = ['{'] := by decide
  have h4 : ("    constructor(".toList).filter Script.isBracket = ['('] := by decide
  have h5 : (") \x7b".toList).filter Script.isBracket = [')', '{'] := by decide
  have h6 : (h.target library).filter Script.isBracket = [] := by
    have h7 : ("var ".toList).filter Script.isBracket = [] := by decide
    have h8 : ['.'].filter Script.isBracket = [] := by decide
    unfold Head.target
    split <;> simp only [List.filter_append, hlib, hname, h7, h8, List.append_nil]
  simp only [Head.classText, List.filter_append, hname, hindent, hbase, params_not_bracket hw, h1,
    h2, h3, h4, h5, h6, List.append_nil, List.nil_append]
  rfl

/-- The class form of an exportable forest is balanced. -/
theorem class_balanced {library : Text} (hl : Text.isName library = true) {due : Option Base}
    {f : Forest} (hf : f.Exportable due) : Script.Balanced (f.classText library due) := by
  have hline : Script.Balanced ['\n'] := by decide
  induction f generalizing due with
  | done => exact rfl
  | line s r ih => exact Script.balanced_append hf.1.brackets (Script.balanced_append hline (ih hf.2))
  | call lead b args r ih =>
    obtain ⟨hdue, hlead, ha, _, hr⟩ := hf
    have hblank := Script.balanced_without fun c hc => blank_not_bracket (hlead c hc).1
    have hcall : Script.Balanced ('(' :: (args ++ [')'])) :=
      Script.balanced_between rfl (by decide) ha.brackets
    simp only [Forest.classText, if_pos hdue]
    have := Script.balanced_append hblank (Script.balanced_append
      (by decide : Script.Balanced "super".toList) (Script.balanced_append hcall
        (Script.balanced_append (by decide : Script.Balanced ";\n".toList) (ih hr))))
    simpa using this
  | define h body r ihb ihr =>
    obtain ⟨⟨hw, _⟩, hbody, hr⟩ := hf
    have hindent := unbracketed hw.indent fun c => indent_not_bracket
    have hinserted : (if body.calls h.base then [] else h.insertedText).filter Script.isBracket =
        if body.calls h.base then [] else ['(', ')'] := by
      split
      · rfl
      · have h1 : ("        super();".toList).filter Script.isBracket = ['(', ')'] := by decide
        have h2 : Script.isBracket '\n' = false := by decide
        simp only [Head.insertedText, List.cons_append, List.filter_cons, List.filter_append,
          hindent, h1, h2]
        rfl
    have hcall : Script.Balanced (if body.calls h.base then [] else ['(', ')']) := by
      split <;> decide
    have hinner := Script.balanced_append hcall (ihb hbody)
    have hblock : Script.Balanced ('{' :: (("()".toList ++ ('{' ::
        (((if body.calls h.base then [] else ['(', ')']) ++ body.classText library (some h.base)) ++
          ['}']))) ++ ['}'])) :=
      Script.balanced_between rfl (by decide) (Script.balanced_append (by decide)
        (Script.balanced_between rfl (by decide) hinner))
    refine Script.balanced_of_brackets ?_ (Script.balanced_append hblock (ihr hr))
    have h1 : Script.isBracket '\n' = false := by decide
    have h2 : ("\x7d\n".toList).filter Script.isBracket = ['}'] := by decide
    have h3 : ("()".toList).filter Script.isBracket = ['(', ')'] := by decide
    have h4 : Script.isBracket '{' = true ∧ Script.isBracket '}' = true := by decide
    have h5 : (if body.calls h.base then [] else ['(', ')']).filter Script.isBracket =
        if body.calls h.base then [] else ['(', ')'] := by split <;> decide
    simp only [Forest.classText, List.filter_append, List.filter_cons, class_head_brackets hl hw,
      hinserted, hindent, h1, h2, h3, h4, h5]
    simp

end Restage.Legacy
