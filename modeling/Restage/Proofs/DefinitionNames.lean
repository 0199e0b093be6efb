import Restage.Legacy.Conversion
import Restage.Proofs.Locality
import Restage.Proofs.Outcome

/-!
The names in an export. Every definition that a search returns has a name made of name characters,
so the classes that a conversion lists have such names too (`classes_are_names`), and the stage that
the assets are assigned to has a name (`stage_is_name`).
-/

set_option autoImplicit false

namespace Restage.Legacy

open Text (endOf)

namespace Definition

theorem header_name {a b : Piece} {prior : Option Char} {t : Text} {parts : List Text}
    (h : (headerOf [a, b]).fits? prior t = some parts) :
    ∀ c ∈ parts.getD 4 [], Text.isNamePart c = true := by
  rw [Pattern.fits?] at h
  split at h
  · rw [Option.map_eq_some_iff] at h
    obtain ⟨⟨parts', r⟩, h, rfl⟩ := h
    change Piece.readAll (_ :: _ :: _ :: _ :: _ :: headerRest) t = some (parts', r) at h
    simp only [Piece.readAll_cons_iff, Piece.run_split_iff] at h
    obtain ⟨_, _, _, _, ⟨_, _, _, _, ⟨_, _, _, _, ⟨_, _, _, _, ⟨name, _, _, ⟨_, _, hname, _⟩, _,
      rfl⟩, rfl⟩, rfl⟩, rfl⟩, rfl⟩ := h
    exact hname
  · simp at h

/-- The name in a header. -/
theorem header_hit_name {library : Text} {w : Window} {h : Hit} {exported : Bool}
    (hh : header? library w = some (h, exported)) : ∀ c ∈ h.part 4, Text.isNamePart c = true := by
  have hmember : ∀ m, (memberHeader library).first? w = some m →
      ∀ c ∈ m.part 4, Text.isNamePart c = true := by
    intro m hm
    obtain ⟨_, _, _, _, _, hfit⟩ := Pattern.first_iff.1 hm
    exact header_name hfit
  have hvariable : ∀ v, variableHeader.first? w = some v →
      ∀ c ∈ v.part 4, Text.isNamePart c = true := by
    intro v hv
    obtain ⟨_, _, _, _, _, hfit⟩ := Pattern.first_iff.1 hv
    exact header_name hfit
  rw [header?] at hh
  split at hh
  · next m v hm hv =>
    split at hh
    · simp only [Option.some.injEq, Prod.mk.injEq] at hh
      exact hh.1 ▸ hmember m hm
    · simp only [Option.some.injEq, Prod.mk.injEq] at hh
      exact hh.1 ▸ hvariable v hv
  · next m hm _ =>
    simp only [Option.some.injEq, Prod.mk.injEq] at hh
    exact hh.1 ▸ hmember m hm
  · next v _ hv =>
    simp only [Option.some.injEq, Prod.mk.injEq] at hh
    exact hh.1 ▸ hvariable v hv
  · simp at hh

theorem of_header_name {ms : List Script.Marked} {t : Text} {h : Hit} {exported : Bool} {stop : Nat}
    {d : Definition} (hd : ofHeader ms t h exported stop = .ok d) : d.name = h.part 4 := by
  rw [ofHeader] at hd
  cases hc : Script.closingBraceIn ms t (h.stop - 1) (some stop) with
  | error f => simp [hc, Except.mapError, bind, Except.bind] at hd
  | ok closeAt =>
    simp only [hc, Except.mapError, bind, Except.bind] at hd
    split at hd
    · simp at hd
    · simp only [Except.ok.injEq] at hd
      rw [← hd]

/-- Every definition that is found has a name of name characters. -/
theorem find_names {library : Text} {ms : List Script.Marked} {t : Text} {fuel start stop : Nat}
    {ds : List Definition} (h : findIn library ms t fuel start stop = .ok ds) :
    ∀ d ∈ walkAll ds, ∀ c ∈ d.name, Text.isNamePart c = true := by
  induction fuel generalizing start stop ds with
  | zero =>
    simp only [findIn, Except.ok.injEq] at h
    subst h
    simp [walkAll]
  | succ fuel ih =>
    rw [findIn] at h
    cases hhead : header? library (t.window start stop) with
    | none =>
      simp only [hhead, Except.ok.injEq] at h
      subst h
      simp [walkAll]
    | some x =>
      obtain ⟨hit, exported⟩ := x
      simp only [hhead, bind, Except.bind] at h
      split at h
      · simp at h
      · next d hd =>
        split at h
        · simp at h
        · next children hchildren =>
          split at h
          · simp at h
          · next rest hrest =>
            simp only [pure, Except.pure, Except.ok.injEq] at h
            subst h
            have hname : ∀ c ∈ d.name, Text.isNamePart c = true := by
              rw [of_header_name hd]
              exact header_hit_name hhead
            simp only [walkAll, walk, List.cons_append, List.mem_cons, List.mem_append]
            rintro e (rfl | he | he)
            · exact hname
            · exact ih hchildren e he
            · exact ih hrest e he

end Definition

/-- What a conversion that succeeds returns. -/
theorem convert_ok {library t : Text} {c : Conversion} (h : (convert library t).result = .ok c) :
    ∃ tree, Definition.findAll library t = .ok tree ∧
      c.definitions = (Definition.walkAll tree).mergeSort Conversion.inOrder ∧
      Edit.applyAll t (c.definitions.flatMap Conversion.edits) = .ok c.text := by
  simp only [convert, Traced.bind_result] at h
  cases hf : Definition.findAll library t with
  | error f => simp [hf, Traced.ofExcept, Except.bind] at h
  | ok tree =>
    simp only [hf, Traced.ofExcept, Except.bind, Traced.noteAll] at h
    cases he : Edit.applyAll t
        (((Definition.walkAll tree).mergeSort Conversion.inOrder).flatMap Conversion.edits) with
    | error i => simp [he, Except.mapError] at h
    | ok out =>
      simp only [he, Except.mapError, Traced.pure_result, Except.ok.injEq] at h
      subst h
      exact ⟨tree, rfl, rfl, he⟩

/-- The classes that a conversion lists have names of name characters. -/
theorem classes_are_names {library t : Text} {c : Conversion}
    (h : (convert library t).result = .ok c) :
    ∀ n ∈ c.classNames, ∀ x ∈ n, Text.isNamePart x = true := by
  obtain ⟨tree, htree, hdefs, _⟩ := convert_ok h
  intro n hn
  rw [Conversion.classNames, hdefs, List.mem_map] at hn
  obtain ⟨d, hd, rfl⟩ := hn
  exact Definition.find_names htree d (List.mem_mergeSort.1 hd)

theorem exports_are_classes (c : Conversion) : ∀ n ∈ c.exports, n ∈ c.classNames := by
  intro n hn
  obtain ⟨d, hd, rfl⟩ := List.mem_map.1 hn
  exact List.mem_map_of_mem (List.mem_filter.1 hd).1

theorem exports_are_names {library t : Text} {c : Conversion}
    (h : (convert library t).result = .ok c) :
    ∀ n ∈ c.exports, ∀ x ∈ n, Text.isNamePart x = true :=
  fun n hn => classes_are_names h n (exports_are_classes c n hn)

/-- The stage is named by a script name. -/
theorem stage_is_name {library t stage : Text}
    (h : (Assets.find library t).stageName = some stage) : Text.isName stage = true := by
  rw [Assets.find] at h
  cases hf : (Assets.assignment library).first? t.entire with
  | none => simp [hf, Assets.missing] at h
  | some hit =>
    simp only [hf, Option.some.injEq] at h
    obtain ⟨u, v, _, _, _, hfit⟩ := Pattern.first_iff.1 hf
    obtain ⟨_, r, hr⟩ := Pattern.fits_some.1 hfit
    have hpieces : (Assets.assignment library).pieces =
        .word (library ++ ['.']) :: Piece.nextIs Text.isNameStart :: .run 1 Text.isNamePart ::
          [.lit ".assets", .blanks, .lit "=", .blanks, .lit "\x7b", .run 0 (· != '}'),
            .lit "\x7d;"] := rfl
    rw [hpieces] at hr
    obtain ⟨_, _, _, _, h1, hparts⟩ := Piece.readAll_cons_iff.1 hr
    obtain ⟨_, _, _, hstart, h2, rfl⟩ := Piece.readAll_cons_iff.1 h1
    obtain ⟨name, _, _, hname, _, rfl⟩ := Piece.readAll_cons_iff.1 h2
    obtain ⟨_, rfl, hhead⟩ := (Piece.next_is_split _ _ _ _).1 hstart
    obtain ⟨rfl, hsome, hchars, _⟩ := Piece.run_split_iff.1 hname
    obtain rfl : stage = name := by
      rw [← h, Hit.part, hparts]
      rfl
    cases stage with
    | nil => simp at hsome
    | cons c cs =>
      simp only [Text.isName, Bool.and_eq_true, List.all_eq_true]
      exact ⟨by simpa using hhead, fun d hd => hchars d (by simp [hd])⟩

/-- Where a stage is named, the assets assignment was found. -/
theorem stage_found {library t stage : Text}
    (h : (Assets.find library t).stageName = some stage) : (Assets.find library t).found = true := by
  rw [Assets.find] at h ⊢
  cases hf : (Assets.assignment library).first? t.entire with
  | none => simp [hf, Assets.missing] at h
  | some hit => rfl

end Restage.Legacy

namespace Restage

open Legacy

/-- A stage among the landmarks of a source has a name, and its assets were found. -/
theorem landmarks_stage {t : Text} {l : Landmarks} (hl : landmarks t = .ok l) {s : Text}
    (hs : l.assets.stageName = some s) : Text.isName s = true ∧ l.assets.found = true := by
  rw [landmarks] at hl
  cases hsetup : Setup.find t with
  | error f => simp [hsetup, Except.map] at hl
  | ok setup =>
    simp only [hsetup, Except.map, Except.ok.injEq] at hl
    subst hl
    exact ⟨stage_is_name hs, stage_found hs⟩

end Restage
