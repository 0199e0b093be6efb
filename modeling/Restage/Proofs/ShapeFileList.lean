import Restage.Proofs.LeadingTrivia
import Restage.Proofs.ObjectEntries

/-!
The shape files of an assets mapping. They are looked for between pairs of quotes, wherever these
stand. In a mapping whose quotes are all those of its strings they are the paths among the contents
of its strings (`shape_files_quoted`), keys included; `shape_files_exact_iff` says when these are the
paths among its values.
-/

set_option autoImplicit false

namespace Restage

namespace Script

/-! Strings among lexemes. -/

theorem string_ends {q : Char} {cs : Text} {n : Nat} (h : stringLength? q cs = some n) :
    ∃ body, cs.take n = body ++ [q] := by
  fun_induction stringLength? q cs generalizing n with
  | case1 => simp at h
  | case2 cs ih =>
    obtain ⟨k, hk, rfl⟩ := Option.map_eq_some_iff.1 h
    obtain ⟨body, hbody⟩ := ih hk
    exact ⟨'\\' :: '\r' :: '\n' :: body, by simp [hbody]⟩
  | case3 c cs _ ih =>
    obtain ⟨k, hk, rfl⟩ := Option.map_eq_some_iff.1 h
    obtain ⟨body, hbody⟩ := ih hk
    exact ⟨'\\' :: c :: body, by simp [hbody]⟩
  | case4 cs _ _ =>
    obtain rfl := Option.some.inj h
    exact ⟨[], by simp⟩
  | case5 => simp at h
  | case6 c cs _ _ _ _ ih =>
    obtain ⟨k, hk, rfl⟩ := Option.map_eq_some_iff.1 h
    obtain ⟨body, hbody⟩ := ih hk
    exact ⟨c :: body, by simp [hbody]⟩

/-- A step that takes a string takes it from its quote to the end that is found for it. -/
def TakesString (c : Char) (cs : Text) (s : Step) : Prop :=
  s.kind = .string → isQuote c = true ∧ stringLength? c cs = some s.more

theorem slash_step_takes (st : State) (c : Char) (cs : Text) :
    TakesString c cs (slashStep st cs) := by
  unfold slashStep
  refine iteInduction (motive := TakesString c cs) (fun _ => ?_) fun _ => nofun
  split <;> exact nofun

/-- Only a quote begins a string. -/
theorem step_takes (st : State) (c : Char) (cs : Text) : TakesString c cs (step st c cs) := by
  unfold step
  refine iteInduction (motive := TakesString c cs) (fun _ => nofun) fun _ => ?_
  refine iteInduction (motive := TakesString c cs) (fun _ => nofun) fun _ => ?_
  refine iteInduction (motive := TakesString c cs) (fun _ => nofun) fun _ => ?_
  refine iteInduction (motive := TakesString c cs) (fun _ => nofun) fun _ => ?_
  refine iteInduction (motive := TakesString c cs) (fun hq => ?_) fun _ => ?_
  · cases hn : stringLength? c cs with
    | none => exact nofun
    | some n => exact fun _ => ⟨hq, hn⟩
  refine iteInduction (motive := TakesString c cs) (fun _ => ?_) fun _ => ?_
  · unfold templateStep
    split <;> exact nofun
  refine iteInduction (motive := TakesString c cs) (fun _ => ?_) fun _ => ?_
  · unfold resumeStep
    split <;> exact nofun
  refine iteInduction (motive := TakesString c cs) (fun _ => nofun) fun _ => ?_
  refine iteInduction (motive := TakesString c cs) (fun _ => ?_) fun _ => ?_
  · unfold blockComment
    split
    · exact nofun
    · exact slash_step_takes st c cs
  refine iteInduction (motive := TakesString c cs) (fun _ => slash_step_takes st c cs) fun _ => ?_
  refine iteInduction (motive := TakesString c cs) (fun _ => nofun) fun _ => ?_
  intro h
  rw [mark_step_kind] at h
  exact nomatch h

/-- A string between its quotes. -/
def Enclosed (x : Lexeme) (body : Text) : Prop := ∃ q, isQuote q = true ∧ x.text = q :: (body ++ [q])

theorem lexeme_text {st : State} {t : Text} {x : Lexeme} (h : x ∈ lexemesFrom st t) :
    x.text ≠ [] ∧ (x.kind = .string → ∃ body, Enclosed x body) := by
  fun_induction lexemesFrom st t with
  | case1 => simp at h
  | case2 st c cs s ih =>
    rcases List.mem_cons.1 h with rfl | h
    · refine ⟨by simp, fun hkind => ?_⟩
      obtain ⟨hq, hlength⟩ := step_takes st c cs hkind
      obtain ⟨body, hbody⟩ := string_ends hlength
      exact ⟨body, c, hq, by simp only [s, hbody]⟩
    · exact ih h

/-- What was settled is as it was, or a mark. -/
theorem settle_mem {xs : List Lexeme} {x : Lexeme} (h : x ∈ (settle xs).1) :
    ∃ y ∈ xs, x.text = y.text ∧ (x = y ∨ x.kind = .mark) := by
  induction xs generalizing x with
  | nil => simp [settle] at h
  | cons z zs ih =>
    have hrest : x ∈ (settle zs).1 → ∃ y ∈ z :: zs, x.text = y.text ∧ (x = y ∨ x.kind = .mark) :=
      fun hx => by
        obtain ⟨y, hy, hxy⟩ := ih hx
        exact ⟨y, List.mem_cons_of_mem z hy, hxy⟩
    rw [settle] at h
    simp only at h
    repeat' split at h
    all_goals
      rcases List.mem_cons.1 h with rfl | h
      · exact ⟨_, List.mem_cons_self, rfl, by simp⟩
      · exact hrest h

theorem object_lexeme_text {t : Text} {x : Lexeme} (h : x ∈ objectLexemes t) :
    x.text ≠ [] ∧ (x.kind = .string → ∃ body, Enclosed x body) := by
  obtain ⟨y, hy, htext, hsame⟩ := settle_mem h
  obtain ⟨hne, hquoted⟩ := lexeme_text hy
  rw [htext]
  refine ⟨hne, fun hkind => ?_⟩
  rcases hsame with rfl | hmark
  · exact hquoted hkind
  · rw [hmark] at hkind
    simp at hkind

end Script

namespace Legacy.Assets

open Script

/-- What stands between the quotes of a string. -/
def content (x : Lexeme) : Text := (x.text.drop 1).dropLast

/-- The contents of the strings inside a mapping. -/
def stringContents (inner : Text) : List Text :=
  ((objectLexemes inner).filter fun x => x.kind == .string).map content

/-- A mapping whose quotes are all those of its strings, no string of which holds a quote or a line
end or stands right behind a name. -/
structure WellQuoted (inner : Text) : Prop where
  strings : ∀ x ∈ objectLexemes inner, x.kind = .string →
    ∀ c ∈ content x, isQuote c = false ∧ c ≠ '\n'
  others : ∀ x ∈ objectLexemes inner, x.kind ≠ .string → ∀ c ∈ x.text, isQuote c = false
  apart : (objectLexemes inner).IsChain fun x y =>
    y.kind = .string → x.text.getLast?.any isNameChar = false

instance (inner : Text) : Decidable (WellQuoted inner) :=
  decidable_of_iff (_ ∧ _ ∧ _) ⟨fun h => ⟨h.1, h.2.1, h.2.2⟩,
    fun h => ⟨h.strings, h.others, h.apart⟩⟩

/-! Scanning for quotes. -/

theorem quoted_skip (u v : Text) : quotedFrom u.length (u ++ v) = quotedFrom 0 v := by
  induction u with
  | nil => rfl
  | cons c u ih => exact ih

theorem quoted_without {u : Text} (hu : ∀ c ∈ u, isQuote c = false) (v : Text) :
    quotedFrom 0 (u ++ v) = quotedFrom 0 v := by
  induction u with
  | nil => rfl
  | cons c u ih =>
    have hc := hu c (by simp)
    rw [List.cons_append, quotedFrom, hc]
    exact ih fun d hd => hu d (by simp [hd])

theorem cut_behind_run {p : Char → Bool} {t : Text} {q : Char}
    (h : t[(t.takeWhile p).length]? = some q) : ∃ v, t = t.takeWhile p ++ q :: v := by
  have hsplit := List.takeWhile_append_dropWhile (p := p) (l := t)
  generalize t.takeWhile p = u at h hsplit ⊢
  generalize t.dropWhile p = w at hsplit
  subst hsplit
  rw [List.getElem?_append_right (Nat.le_refl _), Nat.sub_self] at h
  cases w with
  | nil => simp at h
  | cons c w =>
    obtain rfl : c = q := by simpa using h
    exact ⟨w, rfl⟩

/-- A shape file ends with a name. -/
theorem shape_last {t : Text} (h : isShapeFile t = true) : t.getLast?.any isNameChar = true := by
  simp only [isShapeFile, List.any_eq_true, Bool.and_eq_true] at h
  obtain ⟨s, hs, _, hend⟩ := h
  obtain ⟨u, rfl⟩ := Text.ends_suffix.1 hend
  have hall : ∀ s ∈ shapeSuffixes, s ≠ [] ∧ s.getLast?.any isNameChar = true := by decide
  obtain ⟨hne, hlast⟩ := hall s hs
  rwa [List.getLast?_append_of_ne_nil _ hne]

/-- The lexemes of a well quoted stretch. -/
structure Spelled (xs : List Lexeme) : Prop where
  strings : ∀ x ∈ xs, x.kind = .string →
    ∃ q, isQuote q = true ∧ x.text = q :: (content x ++ [q]) ∧
      ∀ c ∈ content x, isQuote c = false ∧ c ≠ '\n'
  others : ∀ x ∈ xs, x.kind ≠ .string → ∀ c ∈ x.text, isQuote c = false
  some : ∀ x ∈ xs, x.text ≠ []
  apart : xs.IsChain fun x y => y.kind = .string → x.text.getLast?.any isNameChar = false

theorem spelled_of_quoted {inner : Text} (h : WellQuoted inner) :
    Spelled (objectLexemes inner) := by
  refine ⟨fun x hx hkind => ?_, h.others, fun x hx => (object_lexeme_text hx).1, h.apart⟩
  obtain ⟨body, q, hq, htext⟩ := (object_lexeme_text hx).2 hkind
  have hcontent : content x = body := by simp [content, htext]
  exact ⟨q, hq, by rw [hcontent, htext], h.strings x hx hkind⟩

section

variable {x : Lexeme} {xs : List Lexeme} {tail : Text}

theorem spelled_tail (h : Spelled (x :: xs)) : Spelled xs :=
  ⟨fun y hy => h.strings y (by simp [hy]), fun y hy => h.others y (by simp [hy]),
    fun y hy => h.some y (by simp [hy]), h.apart.of_cons⟩

/-- In front of a quote that no string has held yet there is no name. -/
theorem quote_behind {u v : Text} {q : Char} (h : Spelled xs)
    (htail : ∀ c ∈ tail, isQuote c = false) (hq : isQuote q = true)
    (hu : ∀ c ∈ u, isQuote c = false) (hcut : xs.flatMap (·.text) ++ tail = u ++ q :: v) :
    u.getLast?.any isNameChar = false := by
  induction xs generalizing u with
  | nil =>
    have hmem : q ∈ tail := by
      rw [List.flatMap_nil, List.nil_append] at hcut
      simp [hcut]
    rw [htail q hmem] at hq
    exact Bool.noConfusion hq
  | cons x xs ih =>
    rw [List.flatMap_cons, List.append_assoc] at hcut
    by_cases hkind : x.kind = .string
    · obtain ⟨r, hr, htext, _⟩ := h.strings x (by simp) hkind
      cases u with
      | nil => rfl
      | cons c u =>
        rw [htext] at hcut
        obtain rfl : r = c := (List.cons.inj hcut).1
        rw [hu r (by simp)] at hr
        exact Bool.noConfusion hr
    · have hplain := h.others x (by simp) hkind
      obtain ⟨w, rfl, hrest⟩ : ∃ w, u = x.text ++ w ∧
          xs.flatMap (·.text) ++ tail = w ++ q :: v := by
        rcases List.append_eq_append_iff.1 hcut with h | ⟨w, hx, hrest⟩
        · exact h
        · cases w with
          | nil => exact ⟨[], by simpa using hx.symm, hrest.symm⟩
          | cons c w =>
            obtain rfl : q = c := (List.cons.inj hrest).1
            rw [hplain q (by simp [hx])] at hq
            exact Bool.noConfusion hq
      cases w with
      | cons c w =>
        have hlater := ih (spelled_tail h) (fun d hd => hu d (List.mem_append_right _ hd)) hrest
        rwa [List.getLast?_append_of_ne_nil _ (List.cons_ne_nil c w)]
      | nil =>
        rw [List.append_nil]
        -- the quote is the first character of the lexeme behind
        cases xs with
        | nil =>
          have hmem : q ∈ tail := by
            rw [List.flatMap_nil, List.nil_append, List.nil_append] at hrest
            simp [hrest]
          rw [htail q hmem] at hq
          exact Bool.noConfusion hq
        | cons y ys =>
          refine (List.isChain_cons_cons.1 h.apart).1 ?_
          by_contra hy
          have hmem : q ∈ y.text := by
            obtain ⟨c, w, hw⟩ := List.exists_cons_of_ne_nil (h.some y (by simp))
            rw [List.flatMap_cons, hw] at hrest
            simp only [List.cons_append, List.nil_append, List.cons.injEq] at hrest
            simp [hw, hrest.1]
          rw [h.others y (by simp) hy q hmem] at hq
          exact Bool.noConfusion hq

/-- A quote that closes a string opens no shape file. -/
theorem quoted_close {q : Char} (h : Spelled xs) (htail : ∀ c ∈ tail, isQuote c = false)
    (hq : isQuote q = true) :
    quotedFrom 0 (q :: (xs.flatMap (·.text) ++ tail)) =
      quotedFrom 0 (xs.flatMap (·.text) ++ tail) := by
  rw [quotedFrom, if_neg]
  simp only [Bool.and_eq_true, beq_iff_eq]
  rintro ⟨⟨_, hnext⟩, hshape⟩
  have hinner : ∀ c ∈ (xs.flatMap (·.text) ++ tail).takeWhile fun d => !isQuote d && d != '\n',
      isQuote c = false := fun c hc => by
    have hin := List.all_eq_true.1 List.all_takeWhile c hc
    simp only [Bool.and_eq_true, Bool.not_eq_true'] at hin
    exact hin.1
  obtain ⟨v, hcut⟩ := cut_behind_run hnext
  have hlast := quote_behind h htail hq hinner hcut
  rw [shape_last hshape] at hlast
  exact Bool.noConfusion hlast

/-- The quoted stretches that are shape files are contents of strings. -/
theorem quoted_strings (h : Spelled xs) (htail : ∀ c ∈ tail, isQuote c = false) :
    quotedFrom 0 (xs.flatMap (·.text) ++ tail) =
      ((xs.filter fun x => x.kind == .string).map content).filter isShapeFile := by
  induction xs with
  | nil => simpa [quotedFrom] using quoted_without htail []
  | cons x xs ih =>
    have ih := ih (spelled_tail h)
    rw [List.flatMap_cons, List.append_assoc]
    by_cases hkind : x.kind = .string
    · obtain ⟨q, hq, htext, hplain⟩ := h.strings x (by simp) hkind
      have hfilter : (x :: xs).filter (fun x => x.kind == .string) =
          x :: xs.filter fun x => x.kind == .string := by simp [hkind]
      rw [hfilter, List.map_cons, List.filter_cons, htext, ← ih]
      have hinner : (content x ++ q :: (xs.flatMap (·.text) ++ tail)).takeWhile
          (fun d => !isQuote d && d != '\n') = content x := by
        rw [List.takeWhile_append_of_pos, List.takeWhile_cons_of_neg, List.append_nil]
        · simp [hq]
        · intro c hc
          simp [hplain c hc]
      have hall : q :: (content x ++ [q]) ++ (xs.flatMap (·.text) ++ tail) =
          q :: (content x ++ q :: (xs.flatMap (·.text) ++ tail)) := by simp
      rw [hall, quotedFrom, hinner, hq, List.getElem?_append_right (Nat.le_refl _), Nat.sub_self]
      simp only [List.getElem?_cons_zero, beq_self_eq_true, Bool.true_and]
      split
      · next hshape =>
        have hskip := quoted_skip (content x ++ [q]) (xs.flatMap (·.text) ++ tail)
        rw [List.length_append, List.length_singleton, ← List.append_cons] at hskip
        rw [hskip]
      · rw [quoted_without fun c hc => (hplain c hc).1]
        exact quoted_close (spelled_tail h) htail hq
    · have hfilter : (x :: xs).filter (fun x => x.kind == .string) =
          xs.filter fun x => x.kind == .string := by simp [hkind]
      rw [hfilter, quoted_without (h.others x (by simp) hkind), ih]

end

theorem shape_files_quoted {inner : Text} (h : WellQuoted inner) :
    shapeFilesOf ('\x7b' :: inner ++ ['\x7d']) =
      ((stringContents inner).filter isShapeFile).eraseDups := by
  have htext : (objectLexemes inner).flatMap (·.text) = inner := by
    rw [objectLexemes, flatMap_settle, flatMap_lexemesFrom]
  have htail : ∀ c ∈ ['\x7d'], isQuote c = false := by decide
  have hfound := quoted_strings (spelled_of_quoted h) htail
  rw [htext] at hfound
  have hbrace := quoted_without (u := ['\x7b']) (by decide) (inner ++ ['\x7d'])
  rw [shapeFilesOf, List.cons_append, ← List.singleton_append, hbrace, hfound]
  rfl

/-! Values. -/

/-- The content of the one string that an expression consists of, with blanks and comments
around it. -/
def loneString? (t : Text) : Option Text :=
  match (lexemesFrom (State.start.at_ .operand) t).filter fun x => !x.kind.isTrivia with
  | [x] => if x.kind = .string then some (content x) else none
  | _ => none

/-- The content of the string that is the value of an entry. -/
def stringValue? (entry : Text) : Option Text :=
  match objectParts ':' entry with
  | [_, value] => loneString? value
  | _ => none

/-- The values of a mapping that are strings without escapes. -/
def plainValues (inner : Text) : List Text :=
  ((objectEntries inner).filterMap stringValue?).filter fun v => !v.contains '\\'

/-- Whether a text ends as the names of shape files do. -/
def endsInShape (t : Text) : Bool := shapeSuffixes.any fun s => Text.endsWith t s

/-- The shape files among the values of a mapping, each once. -/
def valueFiles (inner : Text) : List Text := ((plainValues inner).filter endsInShape).eraseDups

/-- The inside of the mapping. -/
def inner (a : Assets) : Text := a.mapping.tail.dropLast

theorem shape_iff {t : Text} : isShapeFile t = true ↔ endsInShape t = true ∧ t ∉ shapeSuffixes := by
  have hshort : ∀ s ∈ shapeSuffixes, isShapeFile s = false := by decide
  constructor
  · intro h
    refine ⟨?_, fun hs => by simp [hshort t hs] at h⟩
    simp only [isShapeFile, endsInShape, List.any_eq_true, Bool.and_eq_true] at h ⊢
    obtain ⟨s, hs, _, hend⟩ := h
    exact ⟨s, hs, hend⟩
  · rintro ⟨h, hnot⟩
    simp only [isShapeFile, endsInShape, List.any_eq_true, Bool.and_eq_true,
      decide_eq_true_eq] at h ⊢
    obtain ⟨s, hs, hend⟩ := h
    refine ⟨s, hs, ?_, hend⟩
    obtain ⟨u, rfl⟩ := Text.ends_suffix.1 hend
    have hne : u ≠ [] := by
      rintro rfl
      exact hnot hs
    rw [List.length_append]
    have := List.length_pos_iff.2 hne
    omega

theorem found_shapes (library t : Text) :
    (find library t).shapeFiles = shapeFilesOf ('\x7b' :: (find library t).inner ++ ['\x7d']) := by
  rw [find]
  split
  · decide
  · simp [inner]

end Legacy.Assets

namespace Legacy

open Assets

/-- The shape files of a well quoted mapping are exactly those among its values just if no value is a
bare suffix and the strings that are no values bring in no shape file of their own and none before
its place. -/
theorem shape_files_exact_iff {library t : Text} (h : WellQuoted (find library t).inner) :
    (find library t).shapeFiles = valueFiles (find library t).inner ↔
      (∀ v ∈ plainValues (find library t).inner, v ∉ shapeSuffixes) ∧
      ((stringContents (find library t).inner).filter isShapeFile).eraseDups =
        ((plainValues (find library t).inner).filter isShapeFile).eraseDups := by
  rw [found_shapes, shape_files_quoted h, valueFiles]
  generalize find library t = a at h ⊢
  have hsame : (∀ v ∈ plainValues a.inner, v ∉ shapeSuffixes) →
      (plainValues a.inner).filter endsInShape = (plainValues a.inner).filter isShapeFile := by
    intro hlong
    refine List.filter_congr fun v hv => ?_
    rw [Bool.eq_iff_iff, shape_iff]
    exact ⟨fun hend => ⟨hend, hlong v hv⟩, And.left⟩
  constructor
  · intro heq
    have hlong : ∀ v ∈ plainValues a.inner, v ∉ shapeSuffixes := by
      intro v hv hs
      have hend : ∀ s ∈ shapeSuffixes, endsInShape s = true := by decide
      have hmem : v ∈ ((plainValues a.inner).filter endsInShape).eraseDups :=
        List.mem_eraseDups.2 (List.mem_filter.2 ⟨hv, hend v hs⟩)
      rw [← heq, List.mem_eraseDups, List.mem_filter] at hmem
      exact (shape_iff.1 hmem.2).2 hs
    exact ⟨hlong, by rw [heq, hsame hlong]⟩
  · rintro ⟨hlong, heq⟩
    rw [heq, hsame hlong]

/-- A text that assigns a mapping. -/
def mappingText (inner : Text) : Text :=
  "lib.Scene.assets = \x7b".toList ++ (inner ++ "\x7d;".toList)

/-- Paths in both kinds of quotes, a path twice and another asset. -/
def usualMapping : Text := ("\n  'a': 'images/a.shapes.json', // first\n" ++
  "  \"b\": \"b.shapes.txt\",\n" ++ "  c: 'b.shapes.txt',\n" ++ "  'd': 'd.png'\n").toList

theorem shape_files_usual : (find "lib".toList (mappingText usualMapping)).shapeFiles =
    valueFiles (find "lib".toList (mappingText usualMapping)).inner :=
  (shape_files_exact_iff (by decide +kernel)).2 (by decide +kernel)

/-- A key that is a path. -/
def pathKeyed : Text := "\"old.shapes.json\": \"new.shapes.json\"".toList

/-- The key is listed like the value. -/
theorem path_key_listed : (find "lib".toList (mappingText pathKeyed)).found = true ∧
    valueFiles (find "lib".toList (mappingText pathKeyed)).inner = ["new.shapes.json".toList] ∧
    (find "lib".toList (mappingText pathKeyed)).shapeFiles =
      ["old.shapes.json".toList, "new.shapes.json".toList] := by
  decide +kernel

end Legacy

end Restage
