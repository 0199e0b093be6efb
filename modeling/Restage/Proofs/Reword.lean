import Restage.Proofs.LexerTrace

/-!
The changes that a pass over the references of a script makes: a qualified name takes the place of
another in front of its dot, a keyword or a called name that of another, or a line with a binding is
dropped (`Reword`). Behind a character of a line such a change replaces a word by a word
(`reword_heads`), so that the lexer sees the same at a glance (`glance_cells`), and a word runs on
in names and numbers as the one before it did.
-/

set_option autoImplicit false

namespace Restage.Script

/-- A qualified name without the marks of literals. -/
structure MildName (x : Text) : Prop where
  qualified : Qualified x
  mild : ∀ c ∈ x, isMild c = true

/-- A line that binds a variable to a qualified name, with its line end if it has one. -/
structure Binding (line : Text) : Prop where
  parts : ∃ g₁ g₂ name g₃ g₄ value g₅ stop : Text,
    line = g₁ ++ ("var".toList ++ (g₂ ++ (name ++ (g₃ ++ (['='] ++ (g₄ ++ (value ++
      ([';'] ++ (g₅ ++ stop))))))))) ∧
    (∀ c ∈ g₁ ++ g₂ ++ g₃ ++ g₄ ++ g₅, Piece.isIndent c = true) ∧ g₂ ≠ [] ∧
    PlainName name ∧ (∀ c ∈ name, isMild c = true) ∧ MildName value ∧
    stop ∈ [[], ['\n'], ['\r'], ['\r', '\n']]

/-- What a pass does to a script. -/
inductive Reword : Change
  | link {u x y v : Text} : Pattern.freshName u.getLast? = true → MildName x → MildName y →
    Reword u (x ++ ['.']) (y ++ ['.']) v
  | bind {u v : Text} : Pattern.freshName u.getLast? = true → EndsName v →
    Reword u "var".toList "const".toList v
  | call {u v : Text} : Pattern.freshName u.getLast? = true → EndsName v →
    Reword u "fromFrame".toList "data.getTexture".toList v
  | drop {u line v : Text} : LineFront u → Binding line → (EndsIn isLineEnd line ∨ v = []) →
    Reword u line [] v

/-! Characters. -/

theorem name_char_unspaced {c : Char} (hc : isNameChar c = true) :
    isNewline c = false ∧ isSpace c = false :=
  Text.unspaced (p := isNameChar) (by decide +kernel) (by decide +kernel) hc

theorem word_head_char {c : Char} (hc : isWordHead c = true) :
    isNameChar c = true ∧ Text.isDigit c = false := by
  simpa [isWordHead] using hc

theorem qualified_chars {x : Text} (hx : Qualified x) : ∀ c ∈ x, isNameChar c = true ∨ c = '.' := by
  induction hx with
  | name hw => exact fun c hc => Or.inl (hw.word.chars c hc)
  | member hw _ ih =>
    intro c hc
    rcases List.mem_append.1 hc with hc | hc
    · exact Or.inl (hw.word.chars c hc)
    · rcases List.mem_cons.1 hc with rfl | hc
      · exact Or.inr rfl
      · exact ih c hc

/-! Behind a character of a line. -/

/-- A text that does not end where a line begins. -/
def InLine (u : Text) : Prop := u ≠ [] ∧ u.getLast? ≠ some '\n'

theorem in_line_concat {u : Text} {c : Char} (hc : c ≠ '\n') : InLine (u ++ [c]) := by
  simp [InLine, hc]

theorem in_line_append (u : Text) {w : Text} (hw : w ≠ []) (hlast : w.getLast? ≠ some '\n') :
    InLine (u ++ w) :=
  ⟨by simp [hw], by rwa [List.getLast?_append_of_ne_nil _ hw]⟩

theorem in_line_ends {p : Char → Bool} (hp : p '\n' = false) {u : Text} (hu : EndsIn p u) :
    InLine u := by
  refine ⟨?_, fun h => ?_⟩
  · rintro rfl
    simp [EndsIn] at hu
  · rw [EndsIn, h, Option.any_some, hp] at hu
    exact Bool.noConfusion hu

theorem front_not_in_line {u : Text} (h : LineFront u) : ¬ InLine u := by
  rintro ⟨hsome, hlast⟩
  exact h.elim hsome fun h => hlast h.1

/-- A text that begins with a word. -/
def WordFirst (t : Text) : Prop := ∃ c v, t = c :: v ∧ isWordHead c = true

theorem word_first_append {t : Text} (h : WordFirst t) (v : Text) : WordFirst (t ++ v) := by
  obtain ⟨c, w, rfl, hc⟩ := h
  exact ⟨c, w ++ v, rfl, hc⟩

theorem qualified_first {x : Text} (hx : Qualified x) : WordFirst x := by
  obtain ⟨c, u, rfl, hname, hdigit, _⟩ := qualified_head hx
  exact ⟨c, u, rfl, by simp [isWordHead, hname, hdigit]⟩

theorem word_first_of {t : Text} (h : t.head?.any isWordHead = true) : WordFirst t := by
  cases t with
  | nil => simp at h
  | cons c v => exact ⟨c, v, rfl, by simpa using h⟩

/-- What is put in takes the place of a word; both are names and dots. -/
theorem reword_words {u old new v : Text} (h : Reword u old new v) (hnew : new ≠ []) :
    (WordFirst old ∧ ∀ c ∈ old, isNameChar c = true ∨ c = '.') ∧
      WordFirst new ∧ ∀ c ∈ new, isNameChar c = true ∨ c = '.' := by
  cases h with
  | @link _ x y _ _ hx hy =>
    have hchars : ∀ {z : Text}, MildName z → ∀ c ∈ z ++ ['.'], isNameChar c = true ∨ c = '.' := by
      intro z hz c hc
      rcases List.mem_append.1 hc with hc | hc
      · exact qualified_chars hz.qualified c hc
      · exact Or.inr (List.mem_singleton.1 hc)
    exact ⟨⟨word_first_append (qualified_first hx.qualified) _, hchars hx⟩,
      word_first_append (qualified_first hy.qualified) _, hchars hy⟩
  | bind => exact ⟨⟨word_first_of (by decide), by decide⟩, word_first_of (by decide), by decide⟩
  | call => exact ⟨⟨word_first_of (by decide), by decide⟩, word_first_of (by decide), by decide⟩
  | drop => exact absurd rfl hnew

/-- In a line nothing is dropped. -/
theorem reword_heads {u old new v : Text} (h : Reword u old new v) (hu : InLine u) :
    (WordFirst old ∧ ∀ c ∈ old, isNameChar c = true ∨ c = '.') ∧
      WordFirst new ∧ ∀ c ∈ new, isNameChar c = true ∨ c = '.' := by
  refine reword_words h ?_
  cases h with
  | link => simp
  | bind => simp
  | call => simp
  | drop hfront => exact absurd hu (front_not_in_line hfront)

/-- A class with the characters of qualified names. -/
theorem runs_through {p : Char → Bool} (hline : p '\n' = false) (hname : ∀ c, isNameChar c = true →
    p c = true) (hdot : p '.' = true) : Runs p Reword := by
  intro u old new v h hu
  obtain ⟨⟨⟨c, w, hold, _⟩, holds⟩, _, hnews⟩ := reword_heads h (in_line_ends hline hu)
  have hall : ∀ {t : Text}, (∀ c ∈ t, isNameChar c = true ∨ c = '.') → ∀ c ∈ t, p c = true := by
    intro t ht c hc
    rcases ht c hc with h | rfl
    · exact hname c h
    · exact hdot
  exact Or.inl ⟨by simp [hold], hall holds, hall hnews⟩

/-- A class without the characters that begin a word. -/
theorem runs_against {p : Char → Bool} (hline : p '\n' = false)
    (hhead : ∀ c, isWordHead c = true → p c = false) : Runs p Reword := by
  intro u old new v h hu
  obtain ⟨⟨⟨c, w, hold, hc⟩, _⟩, ⟨d, w', hnew, hd⟩, _⟩ := reword_heads h (in_line_ends hline hu)
  exact Or.inr ⟨⟨c, w, hold, hhead c hc⟩, d, w', hnew, hhead d hd⟩

/-! At a glance. -/

section

variable {u : Text} {cells : List Cell}

/-- In a line the two texts begin with the same character, or each with a word. -/
theorem heads_cells (hw : Woven Reword u cells) (hu : InLine u) :
    cells = [] ∨ (∃ c rest, cells = .keep c :: rest) ∨
      WordFirst (oldText cells) ∧ WordFirst (newText cells) := by
  cases hw with
  | done => exact Or.inl rfl
  | keep h => exact Or.inr (Or.inl ⟨_, _, rfl⟩)
  | swap hrel h =>
    obtain ⟨⟨hold, _⟩, hnew, _⟩ := reword_heads hrel hu
    exact Or.inr (Or.inr ⟨word_first_append hold _, word_first_append hnew _⟩)

theorem glance_word {t : Text} (h : WordFirst t) : glance t = ['a'] := by
  obtain ⟨c, v, rfl, hc⟩ := h
  rw [glance, if_pos hc]

theorem shown_word {t : Text} (h : WordFirst t) : (t.take 1).map shown = ['a'] := by
  obtain ⟨c, v, rfl, hc⟩ := h
  simp [shown, hc]

theorem glance_cells (hw : Woven Reword u cells) (hu : InLine u) :
    glance (newText cells) = glance (oldText cells) := by
  rcases heads_cells hw hu with rfl | ⟨c, rest, rfl⟩ | ⟨hold, hnew⟩
  · rfl
  · rw [old_text_keep, new_text_keep, glance, glance]
    split
    · rfl
    · split
      · rfl
      · next hc =>
        rcases heads_cells (woven_keep hw) (in_line_concat hc) with rfl | ⟨d, rest, rfl⟩ |
          ⟨hold, hnew⟩
        · rfl
        · rfl
        · rw [shown_word hold, shown_word hnew]
  · rw [glance_word hold, glance_word hnew]

theorem head_cells (hw : Woven Reword u cells) (hu : InLine u) {x : Char}
    (hx : isWordHead x = false) (ha : x ≠ 'a') :
    ((newText cells).head? == some x) = ((oldText cells).head? == some x) := by
  have hread : ∀ t : Text, (t.head? == some x) = ((glance t).head? == some x) := by
    intro t
    rw [glance_head]
    cases t with
    | nil => rfl
    | cons c v =>
      rw [Bool.eq_iff_iff]
      simp [shown_mark hx ha]
  rw [hread, hread (oldText cells), glance_cells hw hu]

theorem digit_cells (hw : Woven Reword u cells) (hu : InLine u) :
    (newText cells).head?.any Text.isDigit = (oldText cells).head?.any Text.isDigit := by
  have hread : ∀ t : Text, t.head?.any Text.isDigit = (glance t).head?.any Text.isDigit := by
    intro t
    rw [glance_head]
    cases t with
    | nil => rfl
    | cons c v =>
      have ha : Text.isDigit 'a' = false := by decide
      rw [List.head?_cons, Option.map_some, Option.any_some, Option.any_some, shown]
      split
      · next hc => rw [(word_head_char hc).2, ha]
      · rfl
  rw [hread, hread (oldText cells), glance_cells hw hu]

theorem starts_cells (hw : Woven Reword u cells) (hu : InLine u) :
    Text.startsWith (newText cells) "->".toList = Text.startsWith (oldText cells) "->".toList := by
  rw [← glance_starts, glance_cells hw hu, glance_starts]

theorem mark_step_cells (hw : Woven Reword u cells) (hu : InLine u) (st : State) (c : Char) :
    markStep st c (newText cells) = markStep st c (oldText cells) := by
  rw [mark_step_glance, glance_cells hw hu, ← mark_step_glance]

/-- Behind a name that ends before the pass, a name ends behind the pass. -/
theorem ends_name_cells (hw : Woven Reword u cells) (hu : InLine u) (h : EndsName (oldText cells)) :
    EndsName (newText cells) := by
  rcases heads_cells hw hu with rfl | ⟨c, rest, rfl⟩ | ⟨⟨c, v, hold, hc⟩, _⟩
  · exact h
  · exact h
  · rw [EndsName, hold, List.head?_cons, Option.all_some, (word_head_char hc).1] at h
    exact absurd h (by decide)

end

/-! Literals. -/

theorem mild_append {x y : Text} (hx : ∀ c ∈ x, isMild c = true) (hy : ∀ c ∈ y, isMild c = true) :
    ∀ c ∈ x ++ y, isMild c = true := fun c hc =>
  (List.mem_append.1 hc).elim (hx c) (hy c)

theorem mild_of {w : Text} (hw : w ≠ []) (h : ∀ c ∈ w, isMild c = true)
    (hlast : w.getLast? ≠ some '$') : Mild w := ⟨hw, fun c hc => Or.inl (h c hc), hlast⟩

theorem indent_mild {c : Char} (h : Piece.isIndent c = true) : isMild c = true := by
  simp only [Piece.isIndent, Bool.or_eq_true, beq_iff_eq] at h
  rcases h with rfl | rfl <;> decide

theorem binding_mild {line : Text} (h : Binding line) : Mild line := by
  obtain ⟨g₁, g₂, name, g₃, g₄, value, g₅, stop, rfl, hindent, -, -, hname, hvalue, hstop⟩ :=
    h.parts
  simp only [List.mem_append, or_imp, forall_and] at hindent
  obtain ⟨⟨⟨⟨h1, h2⟩, h3⟩, h4⟩, h5⟩ := hindent
  have hgap : ∀ {g : Text}, (∀ c ∈ g, Piece.isIndent c = true) → ∀ c ∈ g, isMild c = true :=
    fun hg c hc => indent_mild (hg c hc)
  have hend : ∀ c ∈ stop, isMild c = true ∨ isLineEnd c = true := by
    simp only [List.mem_cons, List.not_mem_nil, or_false] at hstop
    rcases hstop with rfl | rfl | rfl | rfl <;> decide
  refine ⟨by simp, fun c hc => ?_, ?_⟩
  · simp only [List.mem_append] at hc
    rcases hc with hc | hc | hc | hc | hc | hc | hc | hc | hc | hc | hc
    · exact Or.inl (hgap h1 c hc)
    · exact Or.inl ((by decide : ∀ c ∈ "var".toList, isMild c = true) c hc)
    · exact Or.inl (hgap h2 c hc)
    · exact Or.inl (hname c hc)
    · exact Or.inl (hgap h3 c hc)
    · exact Or.inl ((by decide : ∀ c ∈ ['='], isMild c = true) c hc)
    · exact Or.inl (hgap h4 c hc)
    · exact Or.inl (hvalue.mild c hc)
    · exact Or.inl ((by decide : ∀ c ∈ [';'], isMild c = true) c hc)
    · exact Or.inl (hgap h5 c hc)
    · exact hend c hc
  · have htail : ∀ t : Text, ([';'] ++ t).getLast? = some '$' → '$' ∈ [';'] ++ t := fun t h =>
      List.mem_of_getLast? h
    intro hlast
    have hcut : ∀ a b : Text, b ≠ [] → (a ++ b).getLast? = b.getLast? := fun a b hb =>
      List.getLast?_append_of_ne_nil a hb
    rw [hcut _ _ (by simp), hcut _ _ (by simp), hcut _ _ (by simp), hcut _ _ (by simp),
      hcut _ _ (by simp), hcut _ _ (by simp), hcut _ _ (by simp), hcut _ _ (by simp)] at hlast
    have hmem := htail _ hlast
    simp only [List.mem_append, List.mem_singleton] at hmem
    rcases hmem with hmem | hmem | hmem
    · exact absurd hmem (by decide)
    · exact absurd (h5 _ hmem) (by decide)
    · rw [List.mem_cons, List.mem_cons, List.mem_cons, List.mem_singleton] at hstop
      rcases hstop with rfl | rfl | rfl | rfl <;> exact absurd hmem (by decide)

theorem reword_mild {u old new v : Text} (h : Reword u old new v) : MildChange u old new v := by
  cases h with
  | link _ hx hy =>
    have hchars : ∀ {z : Text}, MildName z → ∀ c ∈ z ++ ['.'], isMild c = true := fun hz =>
      mild_append hz.mild (by decide)
    have hword : ∀ {z : Text}, MildName z → Mild (z ++ ['.']) := fun hz =>
      mild_of (by simp) (hchars hz) (by simp)
    exact .word (hword hx) (hword hy) (hchars hx) (hchars hy)
  | bind =>
    exact .word (mild_of (by decide) (by decide) (by decide))
      (mild_of (by decide) (by decide) (by decide)) (by decide) (by decide)
  | call =>
    exact .word (mild_of (by decide) (by decide) (by decide))
      (mild_of (by decide) (by decide) (by decide)) (by decide) (by decide)
  | drop hfront hline => exact .line hfront (binding_mild hline)

theorem reword_some {u old new v : Text} (h : Reword u old new v) : old ≠ [] := by
  cases reword_mild h with
  | word hold => exact hold.some
  | line _ hold => exact hold.some

end Restage.Script
