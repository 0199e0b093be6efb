import Restage.Proofs.DefinitionCuts
import Restage.Proofs.Splicing

/-!
A conversion as one splice. The edits of a conversion that succeeds stand one behind another, and the
text it returns is the source with all of them made in one pass (`convert_splice`). The splice can be
evaluated where the sorting of the edits cannot (`spliced_conversion`).
-/

set_option autoImplicit false

namespace Restage

namespace Edit

instance decidableAlong : (i j : Nat) → (es : List Edit) → Decidable (Along i j es)
  | i, j, [] => inferInstanceAs (Decidable (i ≤ j))
  | i, j, e :: es =>
    have := decidableAlong e.span.stop j es
    inferInstanceAs (Decidable (i ≤ e.span.start ∧ e.span.start < e.span.stop ∧ Along e.span.stop j es))

end Edit

namespace Legacy

open Conversion

theorem convert_stands {library t : Text} {c : Conversion} (h : (convert library t).result = .ok c) :
    ∀ d ∈ c.definitions, Definition.Stands t d := by
  obtain ⟨tree, htree, hdefs, _⟩ := convert_ok h
  intro d hd
  rw [hdefs, List.mem_mergeSort] at hd
  exact Definition.find_all_stands htree d hd

/-- Every edit replaces the header, the footer or the call of its definition. -/
theorem mem_edits {d : Definition} {e : Edit} (he : e ∈ edits d) :
    e.span = d.header ∨ e.span = d.footer ∨ d.superCall = some e.span := by
  rw [edits] at he
  split at he
  · next s hs =>
    simp only [List.mem_cons, List.not_mem_nil, or_false] at he
    rcases he with rfl | rfl | rfl
    · exact Or.inr (Or.inr hs)
    · exact Or.inl rfl
    · exact Or.inr (Or.inl rfl)
  · simp only [List.mem_cons, List.not_mem_nil, or_false] at he
    rcases he with rfl | rfl
    · exact Or.inl rfl
    · exact Or.inr (Or.inl rfl)

theorem header_edit (d : Definition) : ∃ e ∈ edits d, e.span = d.header := by
  rw [edits]
  cases d.superCall <;> simp

theorem foot_edit (d : Definition) : ⟨d.footer, classFoot d⟩ ∈ edits d := by
  rw [edits]
  cases d.superCall <;> simp

theorem footer_edit (d : Definition) : ∃ e ∈ edits d, e.span = d.footer := ⟨_, foot_edit d, rfl⟩

theorem edits_within {t : Text} {d : Definition} (h : Definition.Stands t d) :
    Edit.Within t.length (edits d) := by
  obtain ⟨⟨x, hx⟩, hcall⟩ := h
  have hlength : t.length = x.before.length + x.head.length + x.inner.length + x.foot.length +
      x.after.length := by
    rw [hx.text, Cut.text]
    simp only [List.length_append]
    omega
  have hhead : 0 < x.head.length := by simp [Cut.head]
  have hfoot : 0 < x.foot.length := by simp [Cut.foot]
  have hheader : d.header.start < d.header.stop ∧ d.header.stop ≤ t.length := by
    rw [hx.header]
    exact ⟨by simp only; omega, by simp only; omega⟩
  have hfooter : d.footer.start < d.footer.stop ∧ d.footer.stop ≤ t.length := by
    rw [hx.footer, hx.body, hx.header]
    exact ⟨by simp only; omega, by simp only; omega⟩
  have hspan : ∀ s, d.superCall = some s → s.start < s.stop ∧ s.stop ≤ t.length := by
    intro s hs
    obtain ⟨_, u, arg, v, rfl, rfl, _, _⟩ := hcall s hs
    simp only [List.length_append]
    have : 0 < ".call(".toList.length := by decide
    omega
  intro e he
  rcases mem_edits he with hedit | hedit | hedit
  · rw [hedit]
    exact hheader
  · rw [hedit]
    exact hfooter
  · exact hspan e.span hedit

/-- A conversion makes the edits of all its definitions in one pass. -/
theorem convert_splice {library t : Text} {c : Conversion} (h : (convert library t).result = .ok c) :
    ∃ es, es.Perm (c.definitions.flatMap edits) ∧ Edit.Ascending es ∧
      Edit.Within t.length es ∧ c.text = Edit.splice 0 t es := by
  obtain ⟨_, _, _, happly⟩ := convert_ok h
  have hwithin : Edit.Within t.length (c.definitions.flatMap edits) := by
    intro e he
    obtain ⟨d, hd, he⟩ := List.mem_flatMap.1 he
    exact edits_within (convert_stands h d hd) e he
  obtain ⟨es, hperm, hascending, htext⟩ := Edit.apply_all_ok hwithin happly
  exact ⟨es, hperm, hascending, Edit.within_perm hperm hwithin, htext⟩

/-! The splice, evaluated. -/

/-- The edits of some definitions in the order of their places. -/
def placedEdits (ds : List Definition) : List Edit :=
  (ds.flatMap edits).insertionSort fun a b => a.span.start ≤ b.span.start

/-- What a conversion returns, if the definitions of a text are in order and their edits too. -/
def splicedConversion (library t : Text) : Option (Text × List Text × List Text) :=
  match Definition.findAll library t with
  | .error _ => none
  | .ok tree =>
    let ds := Definition.walkAll tree
    if ds.Pairwise (fun a b => inOrder a b = true) ∧ Edit.Along 0 t.length (placedEdits ds) then
      some (Edit.splice 0 t (placedEdits ds), ds.map (·.name), (ds.filter (·.exported)).map (·.name))
    else none

theorem spliced_conversion {library t text : Text} {names exports : List Text}
    (h : splicedConversion library t = some (text, names, exports)) :
    (convert library t).result.toOption.map (fun c => (c.text, c.classNames, c.exports)) =
      some (text, names, exports) := by
  rw [splicedConversion] at h
  cases hf : Definition.findAll library t with
  | error f => simp [hf] at h
  | ok tree =>
    simp only [hf, Option.ite_none_right_eq_some, Option.some.injEq, Prod.mk.injEq] at h
    obtain ⟨⟨horder, halong⟩, rfl, rfl, rfl⟩ := h
    have hsorted : (Definition.walkAll tree).mergeSort inOrder = Definition.walkAll tree :=
      List.mergeSort_of_pairwise horder
    have happly : Edit.applyAll t ((Definition.walkAll tree).flatMap edits) =
        .ok (Edit.splice 0 t (placedEdits (Definition.walkAll tree))) :=
      Edit.apply_all_splice (List.perm_insertionSort _ _).symm (Edit.along_ascending halong)
        (Edit.along_within halong)
    simp only [convert, Traced.bind_result, hf, Traced.ofExcept, Except.bind, Traced.noteAll, hsorted,
      happly, Except.mapError, Traced.pure_result, Except.toOption, Option.map_some]
    rfl

theorem spliced_ok {library t text : Text} {names exports : List Text}
    (h : splicedConversion library t = some (text, names, exports)) :
    ∃ c, (convert library t).result = .ok c ∧ c.text = text ∧ c.classNames = names := by
  have hconverted := spliced_conversion h
  cases hc : (convert library t).result with
  | error f => simp [hc, Except.toOption] at hconverted
  | ok c =>
    simp only [hc, Except.toOption, Option.map_some, Option.some.injEq, Prod.mk.injEq] at hconverted
    exact ⟨c, rfl, hconverted.1, hconverted.2.1⟩

end Legacy

end Restage
