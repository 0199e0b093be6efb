import Restage.Proofs.CarriedWords
import Restage.Proofs.ConversionSplice
import Restage.Proofs.EmittedLines
import Restage.Proofs.StageAttachment

/-!
Assignments of the exports in migrated modules. The last line of a module is the one its mode calls
for; any other assignment of `module.exports` in its code comes from the source, from a part of the
body, the stage literal or the assets mapping that was not taken out (`stale_export_iff`). A stage literal
with an object in it is not recognised and stays (`nested_literal_stays`).
-/

set_option autoImplicit false

namespace Restage

open Legacy Output
open Text (endOf Lends)

def exportWord : Text := "module.exports".toList

theorem export_word_head : exportWord = 'm' :: "odule.exports".toList := rfl

theorem undotted_export {u : Text} (h : '.' ∉ u) : ¬ exportWord <:+: u :=
  fun hin => h (hin.subset (by decide))

/-- A text with `module.exports` across a dot of its own ends with `module` in front of it. -/
theorem export_word_dot {u v : Text} (h : exportWord <:+: u ++ '.' :: v) :
    exportWord <:+: u ∨ exportWord <:+: v ∨ "module".toList <:+ u := by
  have hparts : exportWord = "module".toList ++ '.' :: "exports".toList := rfl
  obtain ⟨p, q, hpq⟩ := h
  rw [hparts] at hpq
  have hcut : (p ++ "module".toList) ++ '.' :: ("exports".toList ++ q) = u ++ '.' :: v := by
    rw [← hpq]
    simp
  rcases List.append_eq_append_iff.1 hcut with ⟨x, rfl, hx⟩ | ⟨x, hx, hv⟩
  · cases x with
    | nil => exact Or.inr (Or.inr (by rw [List.append_nil]; exact List.suffix_append _ _))
    | cons e x =>
      have hpre : "exports".toList <+: x :=
        Text.prefix_of_not_mem (c := '.') (t := v) (by decide) ⟨q, (List.cons.inj hx).2⟩
      obtain ⟨y, rfl⟩ := hpre
      exact Or.inl ⟨p, y, by rw [hparts, ← (List.cons.inj hx).1]; simp⟩
  · cases x with
    | nil =>
      rw [List.append_nil] at hx
      exact Or.inr (Or.inr ⟨p, hx⟩)
    | cons e x =>
      obtain ⟨he, hrest⟩ := List.cons.inj hv
      subst he
      have hcut : p ++ "module".toList = (u ++ ['.']) ++ x := by simpa using hx
      refine Or.inr (Or.inl ?_)
      rcases List.append_eq_append_iff.1 hcut with ⟨y, hy, hword⟩ | ⟨y, rfl, rfl⟩
      · rcases List.eq_nil_or_concat y with rfl | ⟨y, c, rfl⟩
        · exact ⟨[], q, by rw [hrest, hparts, hword]; simp⟩
        · have hlast := congrArg List.getLast? hy
          have hin : c ∈ "module".toList := hword ▸ by simp
          rw [List.concat_eq_append, ← List.append_assoc, List.getLast?_concat, List.getLast?_concat,
            Option.some.injEq] at hlast
          exact absurd (hlast ▸ hin) (by decide)
      · exact ⟨y, q, by rw [hrest, hparts]; simp⟩

/-! The conversion. -/

theorem export_lends {p : Prop} {u : Text} (h : 'm' ∉ u) : Lends exportWord p u :=
  Text.lends_without h

/-- A conversion brings in no `module.exports`. -/
theorem convert_export_word {library t : Text} {c : Conversion}
    (h : (convert library t).result = .ok c) (hin : exportWord <:+: c.text) : exportWord <:+: t := by
  refine convert_word ⟨by decide, fun a ha => ?_, ⟨'.', by decide, by decide⟩, by decide, by decide,
    by decide, by decide, Or.inl (by decide)⟩ h hin
  rw [export_word_head, List.head?_cons, Option.mem_some_iff] at ha
  rw [← ha]
  decide +kernel

/-! The renaming. -/

/-- A namespace whose members may read as `module.exports`. -/
def Bears (name : Text) : Prop := "module".toList <:+ name ∨ exportWord <:+: name

section

variable {n : Names}

theorem emitted_lends : Lends exportWord (Bears n.emitted) (n.emitted ++ ['.']) := by
  intro r h
  rw [List.append_assoc, List.singleton_append] at h
  rcases export_word_dot h with h | h | h
  · exact Or.inl (Or.inr h)
  · exact Or.inr h
  · exact Or.inl (Or.inl h)

theorem fresh_edge : ∀ c ∈ exportWord, Pattern.freshName (some c) = false := by decide

theorem line_edge : ∀ c ∈ exportWord, Pattern.lineStart (some c) = false := by decide

theorem primitive_taken {b : Option Char} {v : Text} {h : Hit}
    (hfit : (Substitution.renderingPrimitives n).pattern.fits? b v = some h.parts) :
    h.part 1 ∈ Substitution.primitives := by
  obtain ⟨_, rest, hread⟩ := Pattern.fits_some.1 hfit
  change Piece.readAll [_, _, _] v = some (h.parts, rest) at hread
  obtain ⟨_, _, _, _, h0, hparts⟩ := Piece.readAll_cons_iff.1 hread
  obtain ⟨primitive, _, _, g1, _, rfl⟩ := Piece.readAll_cons_iff.1 h0
  have hpart : h.part 1 = primitive := by rw [Hit.part, hparts]; rfl
  rw [hpart]
  exact (Piece.one_of_split g1).1

theorem primitive_lends {b : Option Char} {v : Text} {h : Hit}
    (hfit : (Substitution.renderingPrimitives n).pattern.fits? b v = some h.parts) :
    Lends exportWord (Bears n.emitted) ((Substitution.renderingPrimitives n).replacement h) := by
  have hall : ∀ w ∈ Substitution.primitives, 'm' ∉ w := by decide
  have hreplacement : (Substitution.renderingPrimitives n).replacement h =
      (n.emitted ++ ['.']) ++ h.part 1 := rfl
  rw [hreplacement]
  exact Text.lends_append emitted_lends (export_lends (hall _ (primitive_taken hfit)))

/-- A renaming brings in `module.exports` only by the name of the namespace. -/
theorem rename_export_word {t : Text}
    (h : exportWord <:+: (Substitution.runAll (Substitution.all n) t).2) :
    Bears n.emitted ∨ exportWord <:+: t := by
  refine Substitution.run_all_word (fun s hs t h => ?_) h
  simp only [Substitution.all, List.mem_cons, List.not_mem_nil, or_false] at hs
  rcases hs with rfl | rfl | rfl | rfl | rfl | rfl | rfl | rfl
  · exact Substitution.run_word line_edge (fun _ _ _ _ => Text.lends_nil) h
  · exact Substitution.run_word line_edge (fun _ _ _ _ => Text.lends_nil) h
  · exact Substitution.run_word fresh_edge (fun _ _ _ _ => emitted_lends) h
  · exact Substitution.run_word fresh_edge (fun _ _ _ hfit => primitive_lends hfit) h
  · exact Substitution.run_word fresh_edge
      (fun _ _ _ _ => export_lends (u := "data.lib".toList) (by decide)) h
  · exact Substitution.run_word fresh_edge
      (fun _ _ _ _ => export_lends (u := "data.shapes".toList) (by decide)) h
  · exact Substitution.run_word fresh_edge
      (fun _ _ _ _ => export_lends (u := "data.getTexture".toList) (by decide)) h
  · exact Substitution.run_word fresh_edge
      (fun _ _ _ _ => export_lends (u := "const".toList) (by decide)) h

end

/-! The module. -/

namespace Output

section

variable {target : Target} {assets : Assets} {stage : Stage} {body : Text}

theorem attached_export_word (hname : ∀ s, assets.stageName = some s → Text.isName s = true)
    (hfound : ∀ s, assets.stageName = some s → assets.found = true)
    (h : exportWord <:+: attachedBody assets body) : exportWord <:+: body := by
  cases hs : assets.stageName with
  | none =>
    have hkept : attachedBody assets body = body := by
      rw [attachedBody, hs]
      split <;> simp_all
    rwa [hkept] at h
  | some s =>
    by_cases hnone : Unassigned s body
    · rwa [attached_unassigned hs hnone] at h
    · have hsome : s ≠ [] := by
        rintro rfl
        exact absurd (hname _ hs) (by decide)
      obtain ⟨pre, x, post, hfirst, hattached⟩ := attached_assigned hs (hfound s hs) hsome hnone
      have hlends : Lends exportWord False (stageStatement s) := by
        unfold stageStatement
        rw [List.append_assoc]
        exact Text.lends_append (export_lends (by decide)) (Text.lends_until (by decide)
          fun hin => undotted_export (name_lacks (hname s hs) (by decide)) hin)
      rw [hattached] at h
      rw [hfirst.1.cut]
      rcases Text.infix_meeting h with h | h | ⟨⟨c, hc, hlast⟩, _⟩
      · exact h.trans (List.prefix_append _ _).isInfix
      · have hpost := (hlends post h).resolve_left id
        rw [← List.append_assoc]
        exact hpost.trans (List.suffix_append _ _).isInfix
      · have hfresh := hfirst.1.fresh
        rw [Text.endOf_last, hlast, fresh_edge c hc] at hfresh
        exact Bool.noConfusion hfresh

/-- The lines of a module in front of its last one. -/
def frontLines (target : Target) (assets : Assets) (stage : Stage) (mode : Mode)
    (exports : List Text) (body : Text) : List Text :=
  (if mode.autorun then [importLine target] else []) ++
    dataLines target assets stage (attachedBody assets body) ++
    (if mode.autorun then setupCall target :: exports.flatMap exportLines else []) ++ [[]]

theorem emit_last (mode : Mode) (exports : List Text) :
    emitText target assets stage mode exports body =
      moduleText (frontLines target assets stage mode exports body) ++ (lastLine mode ++ ['\n']) := by
  have hlines : lines target assets stage mode exports (attachedBody assets body) =
      frontLines target assets stage mode exports body ++ [lastLine mode] := by
    rw [lines, frontLines]
    simp only [List.append_assoc]
    rfl
  have hlast : moduleText [lastLine mode] = lastLine mode ++ ['\n'] := by simp [moduleText]
  rw [emitText, Text.join_lines (by simp [lines]), hlines, ← hlast, ← module_append]
  rfl

theorem import_export_word (h : exportWord <:+: importLine target) :
    exportWord <:+: target.namespaceName ∨ exportWord <:+: target.importSource := by
  have hline : ∀ name source : Text,
      "import ".toList ++ name ++ " from '".toList ++ source ++ "';".toList =
        "import".toList ++ ' ' :: (name ++ ' ' :: ("from".toList ++ ' ' :: ('\x27' :: (source ++
          '\x27' :: [';'])))) := fun _ _ => by simp
  unfold importLine at h
  rw [hline] at h
  have hspace : ' ' ∉ exportWord := by decide
  have hquote : '\x27' ∉ exportWord := by decide
  rcases Text.infix_across hspace h with h | h
  · exact absurd h (undotted_export (by decide))
  · rcases Text.infix_across hspace h with h | h
    · exact Or.inl h
    · rcases Text.infix_across hspace h with h | h
      · exact absurd h (undotted_export (by decide))
      · rcases Text.infix_across hquote (Text.infix_across (u := []) hquote h |>.resolve_left
          (undotted_export (by simp))) with h | h
        · exact Or.inr h
        · exact absurd h (undotted_export (by decide))

theorem data_export_word {l : Text} (hl : l ∈ dataLines target assets stage body)
    (h : exportWord <:+: l) : exportWord <:+: target.namespaceName ∨ exportWord <:+: assets.mapping ∨
      exportWord <:+: body ∨ ∃ entry ∈ stage.lines, exportWord <:+: entry := by
  have hfixed : ∀ k ∈ ["const data = \x7b".toList, "    stage: null,".toList, "    lib: \x7b\x7d,".toList,
      "    shapes: \x7b\x7d,".toList, "    textures: \x7b\x7d,".toList, "    spritesheets: [],".toList,
      "    \x7d".toList, "\x7d;".toList] ++ textureAccessor, ¬ exportWord <:+: k := by
    unfold textureAccessor
    simp only [List.map_cons, List.map_nil]
    repeat rw [String.toList_ofList]
    decide +kernel
  simp only [dataLines, List.mem_append, List.mem_cons, List.mem_map, List.not_mem_nil,
    or_false] at hl
  rcases hl with (((hl | hl) | hl) | hl) | hl
  · exact absurd h (hfixed l (by rcases hl with rfl | rfl <;> simp))
  · obtain ⟨entry, hentry, rfl⟩ := hl
    exact Or.inr (Or.inr (Or.inr ⟨entry, hentry, Text.infix_right_of_head (by decide) h⟩))
  · rcases hl with rfl | hl | hl | hl | hl
    · rw [List.append_assoc] at h
      exact Or.inr (Or.inl ((Text.infix_across (by decide)
        (Text.infix_right_of_head (by decide) h)).resolve_right (undotted_export (by simp))))
    all_goals exact absurd h (hfixed l (by rw [hl]; simp))
  · exact absurd h (hfixed l (List.mem_append_right _ hl))
  · rcases hl with rfl | rfl | hl | hl
    · have hline : ∀ name : Text, "    setup: function(".toList ++ name ++ ") \x7b".toList =
          "    setup: function(".toList ++ (name ++ ')' :: " \x7b".toList) := fun _ => by simp
      rw [hline] at h
      exact Or.inl ((Text.infix_across (by decide)
        (Text.infix_right_of_head (by decide) h)).resolve_right (undotted_export (by decide)))
    · exact Or.inr (Or.inr (Or.inl (h.trans (Text.trim_infix _ _))))
    all_goals exact absurd h (hfixed l (by rw [hl]; simp))

theorem call_export_word (h : exportWord <:+: setupCall target) :
    exportWord <:+: target.namespaceName := by
  have hline : ∀ name : Text, "data.setup(".toList ++ name ++ ");".toList =
      "data.setup(".toList ++ (name ++ ')' :: [';']) := fun _ => by simp
  unfold setupCall at h
  rw [hline] at h
  exact (Text.infix_across (by decide) (Text.infix_right_of_head (by decide) h)).resolve_right
    (undotted_export (by decide))

theorem binding_export_word {n l : Text} (hn : '.' ∉ n) (hl : l ∈ exportLines n) :
    ¬ exportWord <:+: l := by
  intro h
  rw [exportLines, List.mem_cons, List.mem_singleton] at hl
  rcases hl with rfl | rfl
  · have hline : "const ".toList ++ n ++ " = data.lib.".toList ++ n ++ [';'] =
        "const ".toList ++ (n ++ ' ' :: ("= data.lib.".toList ++ (n ++ [';']))) := by simp
    rw [hline] at h
    rcases Text.infix_across (by decide) (Text.infix_right_of_head (by decide) h) with h | h
    · exact undotted_export hn h
    · exact undotted_export (by simp [hn]) (Text.infix_right_of_head (by decide) h)
  · exact undotted_export (by simp [hn]) h

/-- In front of the last line `module.exports` stands only where a part put into the module has it. -/
theorem front_export_word {mode : Mode} {exports : List Text} (hexports : ∀ n ∈ exports, '.' ∉ n)
    {l : Text} (hl : l ∈ frontLines target assets stage mode exports body)
    (h : exportWord <:+: l) : exportWord <:+: target.namespaceName ∨
      exportWord <:+: target.importSource ∨ exportWord <:+: assets.mapping ∨
      exportWord <:+: attachedBody assets body ∨ ∃ entry ∈ stage.lines, exportWord <:+: entry := by
  simp only [frontLines, List.mem_append] at hl
  rcases hl with ((hl | hl) | hl) | hl
  · split at hl
    · rcases import_export_word (List.mem_singleton.1 hl ▸ h) with h | h
      · exact Or.inl h
      · exact Or.inr (Or.inl h)
    · simp at hl
  · exact (data_export_word hl h).imp_right Or.inr
  · split at hl
    · rcases List.mem_cons.1 hl with rfl | hl
      · exact Or.inl (call_export_word h)
      · obtain ⟨n, hn, hl⟩ := List.mem_flatMap.1 hl
        exact absurd h (binding_export_word (hexports n hn) hl)
    · simp at hl
  · rw [List.mem_singleton.1 hl] at h
    exact absurd h (undotted_export (by simp))

/-- An assignment of the exports stands in the code of a module, behind a front part of it. -/
structure AssignsExports (out front : Text) : Prop where
  begins : ∃ gap rest, out = front ++ (exportWord ++ (gap ++ '=' :: rest)) ∧
    (∀ c ∈ gap, Text.isBlank c = true) ∧ rest.head? ≠ some '='
  fresh : Pattern.freshName (endOf none front) = true
  code : Script.isCode out front.length = true

/-- In a text that ends with the last line of a module no such assignment stands behind the beginning of
that line, and there one stands just if it is that line. -/
theorem last_assigns {mode : Mode} {out front u : Text}
    (hout : out = front ++ (lastLine mode ++ ['\n'])) (hu : front.length ≤ u.length)
    (h : AssignsExports out u) : u = front ∧ mode = .commonjs := by
  obtain ⟨gap, rest, hcut, _, _⟩ := h.begins
  rw [hout] at hcut
  obtain ⟨x, rfl⟩ : front <+: u := List.prefix_of_prefix_length_le ⟨_, hcut⟩ ⟨_, rfl⟩ hu
  rw [List.append_assoc, List.append_cancel_left_eq, export_word_head] at hcut
  have hes6 : 'm' ∉ "export default data;".toList ++ ['\n'] := by decide
  cases mode with
  | commonjs =>
    refine ⟨?_, rfl⟩
    have hlast : lastLine .commonjs ++ ['\n'] = 'm' :: "odule.exports = data;\n".toList := rfl
    rw [hlast] at hcut
    cases x with
    | nil => exact List.append_nil _
    | cons c x =>
      have hrest := (List.cons.inj hcut).2
      exact absurd (hrest ▸ by simp : 'm' ∈ "odule.exports = data;\n".toList) (by decide)
  | es6 => exact absurd (hcut ▸ by simp) hes6
  | es6Autorun => exact absurd (hcut ▸ by simp) hes6

/-- In a text of lines with one behind them such an assignment stands in a line. -/
theorem front_assigns {ls : List Text} {last u : Text} (hne : ls ≠ [])
    (h : AssignsExports (moduleText ls ++ last) u) (hu : u.length < (moduleText ls).length) :
    ∃ l ∈ ls, exportWord <:+: l := by
  obtain ⟨gap, rest, hcut, _, _⟩ := h.begins
  obtain ⟨front, hfront⟩ : ∃ front, moduleText ls = front ++ ['\n'] := by
    obtain ⟨ks, l, rfl⟩ := List.eq_nil_or_concat ls |>.resolve_left hne
    refine ⟨moduleText ks ++ l, ?_⟩
    rw [List.concat_eq_append, module_append, List.append_assoc]
    simp [moduleText]
  rw [hfront, List.append_assoc, List.singleton_append] at hcut
  rw [hfront, List.length_append, List.length_singleton] at hu
  obtain ⟨x, rfl⟩ : u <+: front := List.prefix_of_prefix_length_le ⟨_, hcut.symm⟩ ⟨_, rfl⟩ (by omega)
  rw [List.append_assoc, List.append_cancel_left_eq] at hcut
  have hword : exportWord <+: x := Text.prefix_of_not_mem (by decide) ⟨_, hcut.symm⟩
  refine infix_module (by decide) (by decide) (hword.isInfix.trans ?_)
  rw [hfront, List.append_assoc]
  exact (List.prefix_append x _).isInfix.trans (List.suffix_append u _).isInfix

end

/-- The last line of a module that is no script module is in its code. -/
theorem last_code (target : Target) (assets : Assets) (stage : Stage) (exports : List Text)
    (body : Text) : AssignsExports (emitText target assets stage .commonjs exports body)
      (moduleText (frontLines target assets stage .commonjs exports body)) := by
  have hfront : moduleText (frontLines target assets stage .commonjs exports body) =
      dataText target assets stage body ++ ['\n'] := by
    have hlines : frontLines target assets stage .commonjs exports body =
        dataLines target assets stage (attachedBody assets body) ++ [[]] := by
      simp [frontLines, Mode.autorun]
    rw [hlines, module_append, dataText]
    simp [moduleText]
  refine ⟨⟨[' '], " data;\n".toList, ?_, by decide, by decide⟩, ?_, ?_⟩
  · rw [emit_last]
    rfl
  · rw [hfront, Text.endOf_concat]
    decide
  · have hclosing : ClosingText (moduleText [[], lastLine .commonjs]) :=
      closing_text fun l hl => by
        rw [List.mem_cons, List.mem_singleton] at hl
        rcases hl with rfl | rfl
        · exact empty_closing
        · exact last_closing .commonjs
    have hout : emitText target assets stage .commonjs exports body =
        dataText target assets stage body ++ moduleText [[], lastLine .commonjs] := by
      rw [emit_parts]
      rfl
    rw [hfront, hout, Script.isCode, Script.code_mask_ended (Or.inr (data_ended _ _ _ _))
      (by rw [data_head]; decide) hclosing.tame]
    rw [List.getD_append_right _ _ _ _ (by rw [Script.length_codeMask]; simp)]
    rw [Script.length_codeMask, List.length_append, Nat.add_sub_cancel_left]
    rfl

end Output

/-- The exports are assigned in the last line of a module for the one mode that calls for it, and
nowhere else. -/
def AssignedOnce (mode : Mode) (out : Text) : Prop :=
  ∀ front, AssignsExports out front ↔ mode = .commonjs ∧ out = front ++ (lastLine mode ++ ['\n'])

/-- A part of a source that is put into its module has `module.exports` in it, or the namespace brings it
in. -/
def KeepsExports (settings : Settings) (t : Text) : Prop :=
  Bears settings.target.namespaceName ∨ exportWord <:+: settings.target.importSource ∨
    ∃ l, landmarks t = .ok l ∧ (exportWord <:+: l.assets.mapping ∨ exportWord <:+: l.body ∨
      ∃ entry ∈ l.stage.lines, exportWord <:+: entry)

/-- The last line of a module assigns the exports just in the mode for it. Another assignment stands
in front of that line, and only if a part of the source that was put into the module has it: the
body without the recognised stage literal, a line of that literal, or the assets mapping. -/
theorem stale_export_iff {settings : Settings} {source : String} {mode : Mode} {t : Text}
    {m : Migration} (h : (migrate settings source mode t).result = .ok m) :
    ∃ front, m.output = front ++ (lastLine mode ++ ['\n']) ∧
      (AssignsExports m.output front ↔ mode = .commonjs) ∧
      (AssignedOnce mode m.output ↔
        ∀ u, AssignsExports m.output u → front.length ≤ u.length) ∧
      ((∃ u, AssignsExports m.output u ∧ u.length < front.length) → KeepsExports settings t) := by
  obtain ⟨l, c, hl, hc, _, rfl⟩ := migrate_accepted h
  have hout : l.output settings mode c =
      moduleText (frontLines settings.target l.assets l.stage mode c.exports
        (l.renamed settings c)) ++ (lastLine mode ++ ['\n']) := emit_last mode c.exports
  have hlast : mode = .commonjs → AssignsExports (l.output settings mode c)
      (moduleText (frontLines settings.target l.assets l.stage mode c.exports
        (l.renamed settings c))) := by
    rintro rfl
    exact last_code _ _ _ _ _
  refine ⟨_, hout, ⟨fun h => (last_assigns hout (Nat.le_refl _) h).2, hlast⟩, ?_, ?_⟩
  · constructor
    · intro honce u hu
      have hcut := ((honce u).1 hu).2
      exact Nat.le_of_eq (congrArg List.length (List.append_cancel_right (hout.symm.trans hcut)))
    · intro hbehind u
      constructor
      · intro hu
        obtain ⟨rfl, hmode⟩ := last_assigns hout (hbehind u hu) hu
        exact ⟨hmode, hout⟩
      · rintro ⟨hmode, hcut⟩
        rw [← List.append_cancel_right (hout.symm.trans hcut)]
        exact hlast hmode
  · rintro ⟨u, hu, hshort⟩
    have hexports : ∀ n ∈ c.exports, '.' ∉ n := fun n hn =>
      Text.not_mem_of_all (exports_are_names hc n hn) (by decide)
    have hne : frontLines settings.target l.assets l.stage mode c.exports
        (l.renamed settings c) ≠ [] := by simp [frontLines]
    simp only [hout] at hu
    obtain ⟨line, hline, hword⟩ := front_assigns hne hu hshort
    rcases front_export_word hexports hline hword with h | h | h | h | h
    · exact Or.inl (Or.inr h)
    · exact Or.inr (Or.inl h)
    · exact Or.inr (Or.inr ⟨l, hl, Or.inl h⟩)
    · have hrenamed := attached_export_word (fun s hs => (landmarks_stage hl hs).1)
        (fun s hs => (landmarks_stage hl hs).2) h
      rcases rename_export_word hrenamed with h | h
      · exact Or.inl h
      · exact Or.inr (Or.inr ⟨l, hl, Or.inr (Or.inl (convert_export_word hc h))⟩)
    · exact Or.inr (Or.inr ⟨l, hl, Or.inr (Or.inr h)⟩)

/-! A source whose body assigns the exports a literal. -/

def literalSource (literal : Text) : Text :=
  "(function (PIXI, lib) \x7b\n    run();\n    ".toList ++ literal ++
    "\n\x7d)(PIXI, lib = \x7b\x7d);".toList

def literalBody (literal : Text) : Text := "\n    run();\n    ".toList ++ literal ++ ['\n']

def literalSetup (literal : Text) : Setup := ⟨"PIXI".toList, "lib".toList, literalBody literal⟩

/-- A literal of two numbers, which is recognised. -/
def flatLiteral : Text := "module.exports = \x7b\n        width: 5,\n        height: 6\n    \x7d;".toList

def flatLandmarks : Landmarks := ⟨literalSetup flatLiteral, Assets.missing,
  ⟨["width: 5,".toList, "height: 6,".toList], false, some flatLiteral⟩⟩

theorem stale_export_flat : ∃ m,
    (migrate standard "scene.js" .commonjs (literalSource flatLiteral)).result = .ok m ∧
      AssignedOnce .commonjs m.output := by
  have hlandmarks : landmarks (literalSource flatLiteral) = .ok flatLandmarks := by
    unfold literalSource flatLandmarks literalSetup literalBody flatLiteral
    repeat rw [String.toList_ofList]
    decide +kernel
  have hconversion : flatLandmarks.conversion.toOption.map
        (fun c => (c.text, c.classNames, c.exports)) = some (literalBody [], [], []) := by
    unfold flatLandmarks literalSetup literalBody flatLiteral
    repeat rw [String.toList_ofList]
    decide +kernel
  have hrenamed : (Substitution.runAll (Substitution.all ⟨"PIXI".toList, "lib".toList,
      "animate".toList⟩) (literalBody [])).2 = literalBody [] := by
    decide +kernel
  have hout := congrArg (emitText .default Assets.missing flatLandmarks.stage .commonjs []) hrenamed
  have hpasses : Passing Check.all ⟨emitText .default Assets.missing flatLandmarks.stage .commonjs []
      (literalBody []), [], none⟩ := by
    refine passing_plain ?_ (by simp) (by simp) _
    unfold Script.Bare emitText lines dataLines textureAccessor flatLandmarks literalBody flatLiteral
    simp only [List.map_cons, List.map_nil]
    repeat rw [String.toList_ofList]
    decide +kernel
  obtain ⟨m, hm, _, _⟩ := @Landmarks.accepted flatLandmarks standard .commonjs _ _ _ _ hconversion hout
    (passes_iff.2 hpasses) "scene.js"
  have hm : (migrate standard "scene.js" .commonjs (literalSource flatLiteral)).result = .ok m := by
    rw [migrate_outcome, hlandmarks]
    exact hm
  refine ⟨m, hm, ?_⟩
  obtain ⟨front, _, _, honce, hkeeps⟩ := stale_export_iff hm
  have hnone : ¬ KeepsExports standard (literalSource flatLiteral) := by
    rintro (⟨h | h⟩ | h | ⟨l, hl, h⟩)
    · exact absurd h (by decide)
    · exact absurd h (by decide)
    · exact absurd h (by decide)
    · rw [hlandmarks, Except.ok.injEq] at hl
      subst hl
      rcases h with h | h | ⟨entry, hentry, h⟩
      · exact absurd h (by decide)
      · exact absurd h (by decide +kernel)
      · have hall : ∀ entry ∈ flatLandmarks.stage.lines, ¬ exportWord <:+: entry := by decide
        exact hall entry hentry h
  exact honce.2 fun u hu => Nat.le_of_not_lt fun hshort => hnone (hkeeps ⟨u, hu, hshort⟩)

/-- A literal with an object in it. -/
def nestedLiteral : Text := ("module.exports = \x7b\n        width: 5,\n" ++
  "        meta: \x7b a: 1 \x7d,\n        height: 6\n    \x7d;").toList

/-- It is not recognised, and its module assigns the exports twice. -/
theorem nested_literal_stays : ∃ m,
    (migrate standard "scene.js" .commonjs (literalSource nestedLiteral)).result = .ok m ∧
      ¬ AssignedOnce .commonjs m.output := by
  have hplain : Script.Bare (plainModule (literalBody nestedLiteral)) ∧
      Script.Balanced (plainModule (literalBody nestedLiteral)) ∧
      ¬ ".extend(".toList <:+: plainModule (literalBody nestedLiteral) ∧
      ¬ ".call(".toList <:+: plainModule (literalBody nestedLiteral) := by
    unfold Script.Bare literalBody nestedLiteral
    rw [plain_module_lines]
    simp only [String.toList_append]
    repeat rw [String.toList_ofList]
    decide +kernel
  have hruns : landmarks (literalSource nestedLiteral) =
        .ok (plainLandmarks (literalSetup nestedLiteral)) ∧
      (convert "lib".toList (literalBody nestedLiteral)).result.toOption.map
        (fun c => (c.text, c.classNames, c.exports)) = some (literalBody nestedLiteral, [], []) ∧
      (Substitution.runAll (Substitution.all ⟨"PIXI".toList, "lib".toList, "animate".toList⟩)
        (literalBody nestedLiteral)).2 = literalBody nestedLiteral := by
    unfold literalSource literalSetup literalBody nestedLiteral
    simp only [String.toList_append]
    repeat rw [String.toList_ofList]
    decide +kernel
  obtain ⟨m, hm, hout, _⟩ := plain_migrated (t := literalSource nestedLiteral)
    (s := literalSetup nestedLiteral) hruns.1 hruns.2.1 hruns.2.2
    (passes_iff.2 (passing_plain hplain (by simp) (by simp) _)) "scene.js"
  have hout : m.output = plainModule (literalBody nestedLiteral) := hout
  have hplace : (plainModule (literalBody nestedLiteral)).drop 503 =
      exportWord ++ ([' '] ++ '=' :: (plainModule (literalBody nestedLiteral)).drop 519) ∧
      ((plainModule (literalBody nestedLiteral)).drop 519).head? ≠ some '=' ∧
      Pattern.freshName (endOf none ((plainModule (literalBody nestedLiteral)).take 503)) = true ∧
      (plainModule (literalBody nestedLiteral)).length = 622 := by
    unfold literalBody nestedLiteral
    rw [plain_module_lines]
    simp only [String.toList_append]
    repeat rw [String.toList_ofList]
    decide +kernel
  obtain ⟨hword, hequals, hfresh, hlength⟩ := hplace
  have hstale : AssignsExports m.output (m.output.take 503) := by
    rw [hout]
    refine ⟨⟨[' '], _, ?_, by decide, hequals⟩, hfresh, Script.is_code_plain hplain.1 _⟩
    conv_lhs => rw [← List.take_append_drop 503 (plainModule (literalBody nestedLiteral)), hword]
  refine ⟨m, hm, fun honce => ?_⟩
  have hcut := congrArg List.length ((honce _).1 hstale).2
  have hlast : (lastLine .commonjs ++ ['\n']).length = 23 := by decide
  rw [List.length_append, List.length_take, hlast, hout, hlength] at hcut
  omega

end Restage
