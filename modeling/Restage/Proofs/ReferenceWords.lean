import Restage.Proofs.ReferencePasses

/-!
How the fits of the substitutions that rename begin: with a name, where one can begin, and a sign
behind it that belongs to no name (`Opens`). A word that is put in has no such fit, unless it has
this name in front of its dot (`dotted_silent`). Which texts fit depends on a word and on what comes
next (`Spells`).
-/

set_option autoImplicit false

namespace Restage

namespace Text

/-- The name part characters at the end of a text. -/
def lastName (t : Text) : Text := (t.reverse.takeWhile isNamePart).reverse

theorem last_name_split (t : Text) : ∃ a, t = a ++ lastName t ∧
    a.getLast?.all (fun c => !isNamePart c) = true := by
  refine ⟨(t.reverse.dropWhile isNamePart).reverse, ?_, ?_⟩
  · rw [lastName, ← List.reverse_append, List.takeWhile_append_dropWhile, List.reverse_reverse]
  · rw [List.getLast?_reverse]
    cases h : (t.reverse.dropWhile isNamePart) with
    | nil => rfl
    | cons c u =>
      have hhead := List.head?_dropWhile_not isNamePart t.reverse
      rw [h] at hhead
      simpa using hhead

theorem last_name_append {a m : Text} (hm : ∀ c ∈ m, isNamePart c = true)
    (ha : a.getLast?.all (fun c => !isNamePart c) = true) : lastName (a ++ m) = m := by
  rw [lastName, List.reverse_append, run_taken (fun c hc => hm c (List.mem_reverse.1 hc)),
    List.reverse_reverse]
  rwa [List.head?_reverse]

end Text

namespace Legacy.Substitution

open Text (endOf)

/-- A substitution whose fits begin with a name and a sign of some kind behind it. -/
structure Opens (s : Substitution) (m : Text) (sep : Char → Bool) : Prop where
  begins : ∀ {b t parts}, s.pattern.fits? b t = some parts →
    Pattern.freshName b = true ∧ ∃ d v, t = m ++ d :: v ∧ sep d = true
  nonempty : m ≠ []
  name : ∀ c ∈ m, Text.isNamePart c = true
  sign : ∀ {d}, sep d = true → Script.isNameChar d = false

section

variable {s : Substitution} {m : Text} {sep : Char → Bool} (hs : s.Opens m sep)
include hs

theorem opens_bound {b : Option Char} (hb : Pattern.freshName b = false) (t : Text) :
    s.pattern.fits? b t = none := by
  cases h : s.pattern.fits? b t with
  | none => rfl
  | some parts =>
    rw [(hs.begins h).1] at hb
    exact Bool.noConfusion hb

/-- A fit at characters of names is the name itself. -/
theorem opens_cut {b : Option Char} {x t : Text} {d : Char}
    (hx : ∀ c ∈ x, Script.isNameChar c = true) (hd : Text.isNamePart d = false)
    (h : s.pattern.fits? b (x ++ d :: t) ≠ none) : x = m ∧ sep d = true := by
  obtain ⟨parts, hfit⟩ := Option.ne_none_iff_exists'.1 h
  obtain ⟨_, e, v, hcut, hsep⟩ := hs.begins hfit
  rcases List.append_eq_append_iff.1 hcut with ⟨k, hk, hrest⟩ | ⟨k, hk, hrest⟩
  · cases k with
    | nil =>
      rw [List.append_nil] at hk
      exact ⟨hk.symm, by rwa [(List.cons.inj hrest).1]⟩
    | cons c k =>
      have hpart := hs.name c (by simp [hk])
      rw [← (List.cons.inj hrest).1, hd] at hpart
      exact Bool.noConfusion hpart
  · cases k with
    | nil =>
      rw [List.append_nil] at hk
      exact ⟨hk, by rwa [← (List.cons.inj hrest).1]⟩
    | cons c k =>
      have hchar := hx c (by simp [hk])
      rw [← (List.cons.inj hrest).1, hs.sign hsep] at hchar
      exact Bool.noConfusion hchar

/-- In a qualified name there is no fit, unless its first part ends with the name and a dot is what
the fits want behind it. -/
theorem dotted_silent {b : Option Char} {x y : Text} (hx : ∀ c ∈ x, Text.isIdentifierPart c = true)
    (hy : ∀ c ∈ y, isChain c = true) (hother : Text.lastName x ≠ m ∨ sep '.' = false)
    (t : Text) : s.pattern.Silent b (x ++ '.' :: y) t := by
  have hdot : Text.isNamePart '.' = false := by decide
  intro a v hcut hv
  by_contra hfit
  have hfresh : Pattern.freshName (endOf b a) = true := by
    by_contra hb
    exact hfit (opens_bound hs (Bool.not_eq_true _ ▸ hb) _)
  rcases List.append_eq_append_iff.1 hcut with ⟨k, rfl, hrest⟩ | ⟨k, rfl, hrest⟩
  · -- behind the first part
    cases k with
    | nil =>
      rw [List.nil_append] at hrest
      subst hrest
      exact hs.nonempty (opens_cut hs (x := []) (by simp) hdot hfit).1.symm
    | cons c k =>
      obtain ⟨rfl, rfl⟩ := List.cons.inj hrest
      have hchain : ∀ c ∈ '.' :: k, isChain c = true := by
        intro c hc
        rcases List.mem_cons.1 hc with rfl | hc
        · decide
        · exact hy c (List.mem_append_left _ hc)
      rw [Text.endOf_append, chain_end (by simp) hchain] at hfresh
      exact Bool.noConfusion hfresh
  · subst hrest
    rw [List.append_assoc, List.cons_append] at hfit
    obtain ⟨rfl, hsep⟩ := opens_cut hs
      (fun c hc => Text.identifier_name_char (hx c (List.mem_append_right _ hc))) hdot hfit
    rcases hother with hother | hother
    · refine hother (Text.last_name_append hs.name ?_)
      rcases List.eq_nil_or_concat a with rfl | ⟨a, c, rfl⟩
      · rfl
      · rw [List.concat_eq_append, Text.endOf_concat] at hfresh
        rw [List.concat_eq_append, List.getLast?_concat]
        simp only [Pattern.freshName, Bool.not_eq_true', Bool.or_eq_false_iff] at hfresh
        simp [hfresh.1]
    · rw [hsep] at hother
      exact Bool.noConfusion hother

/-- Nor is there one in a word without a dot, unless it is the name with such a sign behind it. -/
theorem word_silent {b : Option Char} {w : Text} (hw : ∀ c ∈ w, Text.isNamePart c = true)
    {d : Char} (hd : Text.isNamePart d = false) (hother : w ≠ m ∨ sep d = false) (t : Text) :
    s.pattern.Silent b w (d :: t) := by
  cases w with
  | nil => exact Pattern.silent_nil _ _
  | cons c w =>
    refine Pattern.silent_cons.2 ⟨?_, fun a v hcut _ => opens_bound hs ?_ _⟩
    · by_contra hfit
      obtain ⟨heq, hsep⟩ := opens_cut hs (x := c :: w)
        (fun c hc => Text.part_name_char (hw c hc)) hd hfit
      exact hother.elim (· heq) fun hno => by simp [hsep] at hno
    · rcases List.eq_nil_or_concat a with rfl | ⟨a, e, rfl⟩
      · exact chain_not_fresh (by simp [isChain, hw c])
      · rw [List.concat_eq_append, Text.endOf_concat]
        exact chain_not_fresh (name_chain hw e (by simp [hcut]))

end

/-! The substitutions that rename. -/

theorem swaps_opens {s : Substitution} {w given : Text} {ok : Text → Bool} {sep : Char → Bool}
    (hs : Swaps s w ok given) (hne : w ≠ []) (hw : ∀ c ∈ w, Text.isNamePart c = true)
    (hok : ∀ v, ok v = true → ∃ d v', v = d :: v' ∧ sep d = true)
    (hsign : ∀ {d}, sep d = true → Script.isNameChar d = false) : s.Opens w sep := by
  refine ⟨fun h => ?_, hne, hw, hsign⟩
  obtain ⟨hb, _, v, rfl, hv⟩ := (swaps_fits hs).1 h
  obtain ⟨d, v', rfl, hd⟩ := hok v hv
  exact ⟨hb, d, v', rfl, hd⟩

/-- Whether a character is a dot. -/
def isDot (c : Char) : Bool := c == '.'

theorem dot_sign {d : Char} (h : isDot d = true) : Script.isNameChar d = false := by
  rw [show d = '.' by simpa [isDot] using h]
  decide

theorem first_is {p : Char → Bool} (v : Text) (h : firstIs p v = true) :
    ∃ d v', v = d :: v' ∧ p d = true := by
  cases v with
  | nil => exact Bool.noConfusion h
  | cons d v => exact ⟨d, v, rfl, h⟩

section

variable {n : Names}

theorem namespace_opens {s : Substitution} (hn : Text.isName n.namespaceAlias = true)
    (h : ∀ {b t parts}, s.pattern.fits? b t = some parts → Pattern.freshName b = true ∧
      n.namespaceAlias ++ ['.'] <+: t) : s.Opens n.namespaceAlias isDot := by
  refine ⟨fun {b t parts} hfit => ?_, ?_, Text.name_parts hn, dot_sign⟩
  · obtain ⟨hb, v, rfl⟩ := h hfit
    exact ⟨hb, '.', v, by simp, rfl⟩
  · rintro hnil
    rw [hnil] at hn
    exact Bool.noConfusion hn

theorem members_opens (hn : Text.isName n.namespaceAlias = true) :
    (namespaceMembers n).Opens n.namespaceAlias isDot := by
  refine namespace_opens hn fun {b t parts} h => ?_
  obtain ⟨hb, _, v, rfl, _⟩ := (swaps_fits members_swaps).1 h
  exact ⟨hb, "animate.".toList ++ v, by simp⟩

theorem primitives_opens (hn : Text.isName n.namespaceAlias = true) :
    (renderingPrimitives n).Opens n.namespaceAlias isDot :=
  namespace_opens hn fun h => ⟨(primitives_fits h).1, (primitives_fits h).2.1⟩

theorem library_opens (hl : Text.isName n.libraryAlias = true) :
    (libraryTable n).Opens n.libraryAlias isDot := by
  refine swaps_opens library_swaps ?_ (Text.name_parts hl) (fun v h => first_is v h) dot_sign
  intro h
  rw [h] at hl
  exact Bool.noConfusion hl

theorem shapes_opens : shapesCache.Opens "shapes".toList isDot :=
  swaps_opens shapes_swaps (by decide) (by decide) (fun v h => first_is v h) dot_sign

/-- What stands between a called name and its bracket. -/
def isCallSign (c : Char) : Bool := Text.isBlank c || c == '('

theorem lookup_opens : textureLookup.Opens "fromFrame".toList isCallSign := by
  refine swaps_opens lookup_swaps (by decide) (by decide) (fun v h => ?_) fun {d} h => ?_
  · cases v with
    | nil => exact Bool.noConfusion h
    | cons d v =>
      refine ⟨d, v, rfl, ?_⟩
      cases hd : Text.isBlank d with
      | true => simp [isCallSign, hd]
      | false => simpa [isCallSign, hd] using h
  · simp only [isCallSign, Bool.or_eq_true, beq_iff_eq] at h
    rcases h with h | rfl
    · exact Text.blank_not_name h
    · decide

theorem declarations_opens : declarations.Opens "var".toList Text.isBlank :=
  swaps_opens declarations_swaps (by decide) (by decide) (fun v h => first_is v h)
    Text.blank_not_name

end

/-! What a fit reads. -/

/-- Whether blanks and an opening bracket come next. -/
def callsNext (t : Text) : Bool := (t.dropWhile Text.isBlank).head? == some '('

/-- A substitution whose fits are some words, in front of texts that it tells apart by what comes
next. -/
structure Spells (s : Substitution) (ws : List Text) (ok : Text → Bool) : Prop where
  fits : ∀ {b t}, s.pattern.fits? b t ≠ none ↔
    Pattern.freshName b = true ∧ ∃ w ∈ ws, ∃ v, t = w ++ v ∧ ok v = true
  words : ∀ w ∈ ws, w ≠ [] ∧ ∀ c ∈ w, isChain c = true
  glance : ∀ {t t' : Text}, t.head? = t'.head? → callsNext t = callsNext t' → ok t = ok t'

theorem first_glance {p : Char → Bool} {t t' : Text} (h : t.head? = t'.head?) :
    firstIs p t = firstIs p t' := by
  cases t <;> cases t' <;> simp_all [firstIs]

theorem swaps_spells {s : Substitution} {w given : Text} {ok : Text → Bool}
    (hs : Swaps s w ok given) (hne : w ≠ []) (hw : ∀ c ∈ w, isChain c = true)
    (hok : ∀ {t t' : Text}, t.head? = t'.head? → callsNext t = callsNext t' → ok t = ok t') :
    s.Spells [w] ok := by
  refine ⟨fun {b t} => ⟨fun h => ?_, ?_⟩, List.forall_mem_singleton.2 ⟨hne, hw⟩, hok⟩
  · obtain ⟨parts, hfit⟩ := Option.ne_none_iff_exists'.1 h
    obtain ⟨hb, _, v, hv, hokv⟩ := (swaps_fits hs).1 hfit
    exact ⟨hb, w, by simp, v, hv, hokv⟩
  · rintro ⟨hb, w', hw', v, rfl, hokv⟩
    obtain rfl := List.mem_singleton.1 hw'
    rw [(swaps_fits hs).2 ⟨hb, rfl, v, rfl, hokv⟩]
    simp

section

variable {n : Names}

/-- Whether no character of a name comes next. -/
def stopsName : Text → Bool
  | [] => true
  | c :: _ => !Text.isNamePart c

theorem primitive_read {w : Text} (hw : w ∈ primitives) (v : Text) :
    (Piece.oneOf primitives).split? (w ++ v) = some (w, v) := by
  simp only [primitives, List.map_cons, List.map_nil, List.mem_cons, List.not_mem_nil,
    or_false] at hw
  rcases hw with rfl | rfl | rfl | rfl <;> rfl

theorem primitives_spells (hn : Text.isName n.namespaceAlias = true) :
    (renderingPrimitives n).Spells (primitives.map fun w => n.namespaceAlias ++ '.' :: w)
      stopsName := by
  refine ⟨fun {b t} => ⟨fun h => ?_, ?_⟩, ?_, fun {t t'} h _ => ?_⟩
  · obtain ⟨parts, hfit⟩ := Option.ne_none_iff_exists'.1 h
    obtain ⟨hb, r, hr⟩ := Pattern.fits_some.1 hfit
    obtain ⟨_, u, _, h1, h2, _⟩ := Piece.readAll_cons_iff.1 hr
    obtain ⟨w, v, _, h3, h4, _⟩ := Piece.readAll_cons_iff.1 h2
    obtain ⟨_, _, _, h5, _, _⟩ := Piece.readAll_cons_iff.1 h4
    obtain ⟨hok, _, _⟩ := ahead_takes.1 h5
    obtain ⟨_, rfl⟩ := Piece.word_split_iff.1 h1
    obtain rfl := Piece.split?_append h3
    obtain ⟨w', hw', hsplit⟩ := List.exists_of_findSome?_eq_some h3
    obtain ⟨_, _, heq⟩ := Option.map_eq_some_iff.1 hsplit
    obtain rfl := (Prod.mk.inj heq).1
    refine ⟨hb, _, List.mem_map_of_mem hw', v, by simp, ?_⟩
    cases v <;> exact hok
  · rintro ⟨hb, x, hx, v, rfl, hok⟩
    obtain ⟨w, hw, rfl⟩ := List.mem_map.1 hx
    have hread : Piece.readAll (renderingPrimitives n).pattern.pieces
        ((n.namespaceAlias ++ ['.']) ++ (w ++ v)) =
          some ([n.namespaceAlias ++ ['.'], w, []], v) := by
      refine Piece.readAll_cons_iff.2 ⟨_, _, [w, []], Piece.word_split _ _, ?_, rfl⟩
      refine Piece.readAll_cons_iff.2 ⟨_, _, [[]], primitive_read hw v, ?_, rfl⟩
      refine Piece.readAll_cons_iff.2 ⟨_, _, [], ahead_takes.2 ⟨?_, rfl, rfl⟩, rfl, rfl⟩
      cases v <;> exact hok
    have hcut : (n.namespaceAlias ++ '.' :: w) ++ v = (n.namespaceAlias ++ ['.']) ++ (w ++ v) := by
      simp
    rw [hcut, Pattern.fits_of_reads hb hread]
    simp
  · intro x hx
    obtain ⟨w, hw, rfl⟩ := List.mem_map.1 hx
    refine ⟨by simp, fun c hc => ?_⟩
    rcases List.mem_append.1 hc with hc | hc
    · exact name_chain (Text.name_parts hn) c hc
    · rcases List.mem_cons.1 hc with rfl | hc
      · decide
      · exact name_chain (primitive_word hw).1 c hc
  · cases t <;> cases t' <;> simp_all [stopsName]

/-- Every substitution that renames reads a word and what comes next. -/
theorem links_spell (hn : n.Plain) : ∀ s ∈ links n, ∃ ws ok, s.Spells ws ok := by
  intro s hs
  have hlibrary := name_chain (Text.name_parts hn.libraryAlias)
  simp only [links, List.mem_cons, List.not_mem_nil, or_false] at hs
  rcases hs with rfl | rfl | rfl | rfl | rfl | rfl
  · exact ⟨_, _, swaps_spells members_swaps (by simp) (members_chain hn.namespaceAlias)
      fun h _ => first_glance h⟩
  · exact ⟨_, _, primitives_spells hn.namespaceAlias⟩
  · exact ⟨_, _, swaps_spells library_swaps hn.library_some hlibrary fun h _ => first_glance h⟩
  · exact ⟨_, _, swaps_spells shapes_swaps (by decide) (by decide) fun h _ => first_glance h⟩
  · exact ⟨_, _, swaps_spells lookup_swaps (by decide) (by decide) fun _ h => h⟩
  · exact ⟨_, _, swaps_spells declarations_swaps (by decide) (by decide) fun h _ => first_glance h⟩

end

end Legacy.Substitution

end Restage
