import Restage.Proofs.AddedLines
import Restage.Proofs.DefinitionNames
import Restage.Proofs.Surroundings

/-!
The three export conventions of one source. A mode only chooses the lines around the `data` object,
so a source is migrated in all modes or in none, and the outcomes differ in these lines alone
(`modes_agree`). An import source that spells what a check looks for is the exception
(`spelled_source_refused`).
-/

set_option autoImplicit false

namespace Restage

open Legacy Output
open Export (Assigns assetsWord)
open Script (importText importHead importString InQuotes)

namespace Output

theorem module_append (ls ks : List Text) : moduleText (ls ++ ks) = moduleText ls ++ moduleText ks := by
  simp [moduleText]

/-- The module around the text of a `data` object. -/
def moduleAround (target : Target) (exports : List Text) (data : Text) : Mode → Text
  | .commonjs => data ++ "\nmodule.exports = data;\n".toList
  | .es6 => data ++ "\nexport default data;\n".toList
  | .es6Autorun => importLine target ++ '\n' :: (data ++ (setupCall target ++ '\n' ::
      (moduleText (exports.flatMap exportLines) ++ "\nexport default data;\n".toList)))

/-- The text of the `data` object around a rewritten setup body. -/
def dataText (target : Target) (assets : Assets) (stage : Stage) (body : Text) : Text :=
  moduleText (dataLines target assets stage (attachedBody assets body))

section

variable (target : Target) (assets : Assets) (stage : Stage) (body : Text) (exports : List Text)

/-- The object ends a statement, and its line. -/
theorem data_ended : [';', '\n'] <:+ dataText target assets stage body := by
  have hclose : moduleText ["\x7d;".toList] = ['}'] ++ [';', '\n'] := rfl
  have hlast : ∀ (ls : List Text) (a b c d : Text),
      ls ++ [a, b, c, d] = (ls ++ [a, b, c]) ++ [d] := by simp
  rw [dataText, dataLines, hlast, module_append, hclose, ← List.append_assoc]
  exact List.suffix_append _ _

theorem import_text_line :
    importText target.namespaceName target.importSource = importLine target ++ ['\n'] := by
  have hend : ";\n".toList = [';'] ++ ['\n'] := rfl
  rw [Script.importText, hend, Script.import_line_parts]
  simp only [List.append_assoc]

theorem data_head : (dataText target assets stage body).head? = some 'c' := rfl

theorem emit_parts (mode : Mode) : emitText target assets stage mode exports body =
    (if mode.autorun then importText target.namespaceName target.importSource else []) ++
      (dataText target assets stage body ++ moduleText (closingLines target mode exports)) := by
  have hcut : lines target assets stage mode exports (attachedBody assets body) =
      (if mode.autorun then [importLine target] else []) ++
        (dataLines target assets stage (attachedBody assets body) ++
          closingLines target mode exports) := by
    rw [lines, closingLines]
    simp only [List.append_assoc]
  have himport : moduleText (if mode.autorun then [importLine target] else []) =
      if mode.autorun then importText target.namespaceName target.importSource else [] := by
    split
    · rw [import_text_line, moduleText, List.flatMap_singleton]
    · rfl
  rw [emitText, Text.join_lines (by simp [lines]), dataText, ← himport, ← module_append,
    ← module_append, ← hcut, moduleText]

/-- The modes of a module. -/
theorem emit_around (mode : Mode) : emitText target assets stage mode exports body =
    moduleAround target exports (dataText target assets stage body) mode := by
  have hlast : ∀ mode, moduleText [[], lastLine mode] = '\n' :: (lastLine mode ++ ['\n']) :=
    fun mode => by simp [moduleText]
  rw [emit_parts]
  cases mode with
  | commonjs =>
    have hclosing : closingLines target .commonjs exports = [[], lastLine .commonjs] := rfl
    rw [hclosing, hlast]
    rfl
  | es6 =>
    have hclosing : closingLines target .es6 exports = [[], lastLine .es6] := rfl
    rw [hclosing, hlast]
    rfl
  | es6Autorun =>
    have hclosing : closingLines target .es6Autorun exports =
      setupCall target :: (exports.flatMap exportLines ++ [[], lastLine .es6Autorun]) := rfl
    have hautorun : Mode.autorun .es6Autorun = true := rfl
    rw [hclosing, module_cons, module_append, hlast, hautorun, if_pos rfl, import_text_line,
      moduleAround,
      List.append_assoc]
    rfl

/-- The checks of a module are those of its `data` object. -/
theorem passing_data {names : List Text} {checks : List Check}
    (hn : Text.isIdentifier target.namespaceName = true)
    (hq : InQuotes '\x27' target.importSource)
    (hnames : ∀ n ∈ names, ∀ c ∈ n, Text.isNamePart c = true)
    (hexports : ∀ n ∈ exports, n ∈ names)
    (hstage : ∀ s, assets.stageName = some s → Text.isName s = true)
    (hassigns : ∀ s, assets.stageName = some s → ¬ Assigns s target.importSource)
    (hdeclares : ∀ n ∈ names, ¬ Declares n target.importSource) (mode : Mode) :
    Passing checks ⟨emitText target assets stage mode exports body, names, assets.stageName⟩ ↔
      Passing checks ⟨dataText target assets stage body, names, assets.stageName⟩ := by
  have hended := data_ended target assets stage body
  have hhead : (dataText target assets stage body).head? ≠ some '#' := by
    rw [data_head]
    decide
  have hbehind : Passing checks ⟨dataText target assets stage body ++
      moduleText (closingLines target mode exports), names, assets.stageName⟩ ↔
        Passing checks ⟨dataText target assets stage body, names, assets.stageName⟩ :=
    passing_behind hended hhead
      (closing_text (closing_lines hn mode fun n h => hnames n (hexports n h))) hnames hstage
  rw [emit_parts, ← hbehind]
  split
  · refine passing_import hn hq ?_ hnames hstage hassigns hdeclares
    rwa [Script.head_ended (Or.inr hended)]
  · rfl

end

end Output

/-- A source whose module does not pass its checks is refused. -/
theorem failing_refused {settings : Settings} {mode : Mode} {t : Text} {l : Landmarks}
    {c : Conversion} (hl : landmarks t = .ok l) (hc : l.conversion = .ok c)
    (h : ¬ Passing settings.checks ⟨l.output settings mode c, c.classNames, l.assets.stageName⟩)
    (source : String) :
    ∃ issues, (migrate settings source mode t).result = .error (.invalid issues) := by
  refine ⟨l.issues settings mode c, ?_⟩
  have hsome : (l.issues settings mode c).isEmpty = false := by
    rw [List.isEmpty_eq_false_iff]
    exact fun hnone => h (passes_iff.1 hnone)
  rw [migrate_outcome, hl]
  simp only [Landmarks.outcome, hc, hsome, Bool.false_eq_true, if_false]

/-- An import source that spells nothing that a check looks for in the module of a source: neither
the assignment of the stage's assets nor the declaration of a converted class. -/
structure Neutral (t source : Text) : Prop where
  no_assets : ∀ l, landmarks t = .ok l → ∀ s, l.assets.stageName = some s → ¬ Assigns s source
  no_class : ∀ l c, landmarks t = .ok l → l.conversion = .ok c →
    ∀ n ∈ c.classNames, ¬ Declares n source

/-- The modes differ in the lines around the `data` object only: a source is refused in all of them,
by its structure or by the checks, or is migrated in all of them, and then all that is returned but
the text of the module is the same. -/
theorem modes_agree {settings : Settings}
    (hn : Text.isIdentifier settings.target.namespaceName = true)
    (hq : InQuotes '\x27' settings.target.importSource) {t : Text}
    (hneutral : Neutral t settings.target.importSource) (source : String) :
    (∃ f, ∀ mode, (migrate settings source mode t).result = .error (.structure_ f)) ∨
    (∀ mode, ∃ issues, (migrate settings source mode t).result = .error (.invalid issues)) ∨
    ∃ (data : Text) (m : Migration), ∀ mode, (migrate settings source mode t).result =
      .ok { m with output := moduleAround settings.target m.exports data mode } := by
  cases hl : landmarks t with
  | error f => exact Or.inl ⟨f, fun _ => by rw [migrate_outcome, hl]⟩
  | ok l =>
    cases hc : l.conversion with
    | error f =>
      exact Or.inl ⟨f, fun _ => by rw [migrate_outcome, hl]; simp only [Landmarks.outcome, hc]⟩
    | ok c =>
      have hstage : ∀ s, l.assets.stageName = some s → Text.isName s = true :=
        fun s hs => (landmarks_stage hl hs).1
      let data := dataText settings.target l.assets l.stage (l.renamed settings c)
      have hpassing : ∀ mode,
          Passing settings.checks ⟨l.output settings mode c, c.classNames, l.assets.stageName⟩ ↔
            Passing settings.checks ⟨data, c.classNames, l.assets.stageName⟩ :=
        passing_data _ _ _ _ _ hn hq (classes_are_names hc) (exports_are_classes c) hstage
          (hneutral.no_assets l hl) (hneutral.no_class l c hl hc)
      by_cases hpass : Passing settings.checks ⟨data, c.classNames, l.assets.stageName⟩
      · refine Or.inr (Or.inr ⟨data, ⟨[], l.assets, c.classNames, c.exports,
          (if l.assets.found then [] else [Assets.missingMessage source]) ++ c.warnings⟩,
          fun mode => ?_⟩)
        have hissues : l.issues settings mode c = [] := passes_iff.2 ((hpassing mode).2 hpass)
        have houtput : l.output settings mode c =
            moduleAround settings.target c.exports data mode := emit_around _ _ _ _ _ mode
        rw [migrate_outcome, hl]
        simp only [Landmarks.outcome, hc, hissues, List.isEmpty_nil, if_true, houtput]
      · exact Or.inr (Or.inl fun mode =>
          failing_refused hl hc (fun h => hpass ((hpassing mode).1 h)) source)

theorem source_inside (target : Target) : target.importSource <:+: importLine target :=
  ⟨"import ".toList ++ target.namespaceName ++ " from '".toList, "';".toList, rfl⟩

/-- A source that is migrated in one mode is refused in the mode with an import line when the import
source assigns the assets of its stage. -/
theorem spelled_source_refused {settings : Settings} (hchecks : .legacyResidue ∈ settings.checks)
    {source : String} {mode : Mode} {t : Text} {m : Migration}
    (h : (migrate settings source mode t).result = .ok m) {s : Text}
    (hs : m.assets.stageName = some s) (hname : s ≠ [])
    (hsource : Assigns s settings.target.importSource) :
    ∃ issues, (migrate settings source .es6Autorun t).result = .error (.invalid issues) := by
  obtain ⟨l, c, hl, hc, _, rfl⟩ := migrate_accepted h
  have hinside : settings.target.importSource <:+: l.output settings .es6Autorun c := by
    rw [Landmarks.output, emit_around]
    exact (source_inside settings.target).trans (List.prefix_append _ _).isInfix
  exact failing_refused hl hc (fun h => h.attached hchecks s hs hname
    (Text.spells_within hinside hsource)) source

/-! A source whose body assigns the assets of a stage. -/

def stagedSetup : Setup :=
  ⟨"PIXI".toList, "lib".toList, "\n    lib.Scene.assets = \x7b\x7d;\n".toList⟩

def stagedSource : Text :=
  "(function (PIXI, lib) \x7b".toList ++ stagedSetup.body ++ "\x7d)(PIXI, lib = \x7b\x7d);".toList

def stagedLandmarks : Landmarks :=
  ⟨stagedSetup, ⟨some "Scene".toList, "\x7b\x7d".toList,
    some "lib.Scene.assets = \x7b\x7d;".toList, []⟩, ⟨Stage.fallbackLines, true, none⟩⟩

theorem staged_landmarks : landmarks stagedSource = .ok stagedLandmarks := by
  unfold stagedSource stagedLandmarks stagedSetup
  repeat rw [String.toList_ofList]
  decide +kernel

/-- Its body with the name under which the module holds its library. -/
def stagedBody : Text := "\n    data.lib.Scene.assets = \x7b\x7d;\n".toList

/-- The module that is made of it, for a target and a mode. -/
def stagedModule (target : Target) (mode : Mode) : Text :=
  emitText target stagedLandmarks.assets stagedLandmarks.stage mode [] stagedBody

section

variable {target : Target}
  (hrenamed : (Substitution.runAll (Substitution.all ⟨"PIXI".toList, "lib".toList,
    target.namespaceName⟩) stagedSetup.body).2 = stagedBody)
include hrenamed

theorem staged_converted : ∃ c, stagedLandmarks.conversion = .ok c ∧ c.classNames = [] ∧
    ∀ mode, stagedLandmarks.output ⟨target, Check.all⟩ mode c = stagedModule target mode := by
  have hconversion : stagedLandmarks.conversion.toOption.map
      (fun c => (c.text, c.classNames, c.exports)) = some (stagedSetup.body, [], []) := by
    unfold stagedLandmarks stagedSetup
    repeat rw [String.toList_ofList]
    decide +kernel
  cases hc : stagedLandmarks.conversion with
  | error f => simp [hc, Except.toOption] at hconversion
  | ok c =>
    simp only [hc, Except.toOption, Option.map_some, Option.some.injEq, Prod.mk.injEq]
      at hconversion
    obtain ⟨htext, hnames, hexports⟩ := hconversion
    refine ⟨c, rfl, hnames, fun mode => ?_⟩
    rw [Landmarks.output, Landmarks.renamed, htext, hexports]
    exact congrArg (emitText target _ _ mode []) hrenamed

theorem staged_migrated {mode : Mode}
    (h : Passing Check.all ⟨stagedModule target mode, [], some "Scene".toList⟩) :
    ∃ m, (migrate ⟨target, Check.all⟩ "scene.js" mode stagedSource).result = .ok m ∧
      m.assets.stageName = some "Scene".toList := by
  obtain ⟨c, hc, hnames, hout⟩ := staged_converted hrenamed
  have hissues : stagedLandmarks.issues ⟨target, Check.all⟩ mode c = [] := by
    rw [Landmarks.issues, hout, hnames]
    exact passes_iff.2 h
  refine ⟨⟨stagedModule target mode, stagedLandmarks.assets, c.classNames, c.exports,
    c.warnings⟩, ?_, rfl⟩
  rw [migrate_outcome, staged_landmarks]
  simp only [Landmarks.outcome, hc, hissues, List.isEmpty_nil, if_true, hout]
  rfl

theorem staged_refused {mode : Mode}
    (h : ¬ Passing Check.all ⟨stagedModule target mode, [], some "Scene".toList⟩) :
    ∃ issues, (migrate ⟨target, Check.all⟩ "scene.js" mode stagedSource).result =
      .error (.invalid issues) := by
  obtain ⟨c, hc, hnames, hout⟩ := staged_converted hrenamed
  refine failing_refused staged_landmarks hc ?_ "scene.js"
  rw [hout, hnames]
  exact h

end

/-- The checks of a module without literals and legacy words that declares its classes. -/
theorem passing_plain {out : Text} {names : List Text} {stage : Option Text}
    (h : Script.Bare out ∧ Script.Balanced out ∧
      ¬ ".extend(".toList <:+: out ∧ ¬ ".call(".toList <:+: out)
    (hassets : ∀ s, stage = some s → ¬ assetsWord s <:+: out) (hnames : ∀ n ∈ names, Declares n out)
    (checks : List Check) : Passing checks ⟨out, names, stage⟩ := by
  obtain ⟨hbare, hbrackets, hextend, hcall⟩ := h
  refine ⟨fun _ => ?_, fun _ => legacy_issues_nil_iff.2 fun u v hcut _ hbegins => ?_,
    fun _ name hname _ hin => hassets name hname (Text.spells_word hin), fun _ => hnames⟩
  · rwa [Script.code_text_kept, Script.code_mask_plain hbare, Script.kept_all]
  · obtain ⟨k, hk, _, _, _, hword⟩ := begins_legacy_word hbegins
    have hcut : out = u ++ v := hcut
    have hin : k <:+: out := hk.isInfix.trans (hcut ▸ (List.suffix_append u v).isInfix)
    exact hword.elim (fun h => absurd (h.trans hin) hextend) fun h => absurd (h.trans hin) hcall

/-- The checks of a module without literals, legacy words and classes. -/
theorem passing_bare {out s : Text} (h : Script.Bare out ∧ Script.Balanced out ∧
    ¬ ".extend(".toList <:+: out ∧ ¬ ".call(".toList <:+: out ∧ ¬ assetsWord s <:+: out)
    (checks : List Check) : Passing checks ⟨out, [], some s⟩ := by
  obtain ⟨hbare, hbrackets, hextend, hcall, hassets⟩ := h
  exact passing_plain ⟨hbare, hbrackets, hextend, hcall⟩ (fun _ hs => Option.some.inj hs ▸ hassets)
    (by simp) checks

/-- Renaming puts the module's own library in, whatever the name of the namespace. -/
theorem staged_renamed {name : Text} (h : name = "animate".toList ∨ name = ")(".toList) :
    (Substitution.runAll (Substitution.all ⟨"PIXI".toList, "lib".toList, name⟩)
      stagedSetup.body).2 = stagedBody := by
  unfold stagedSetup stagedBody
  rcases h with rfl | rfl
  all_goals
    repeat rw [String.toList_ofList]
    decide +kernel

/-- The import source is no part of a module without an import line. -/
theorem staged_passes {name : Text} (h : name = "animate".toList ∨ name = ")(".toList)
    (source : Text) :
    Passing Check.all ⟨stagedModule ⟨name, source⟩ .commonjs, [], some "Scene".toList⟩ := by
  have hsource : stagedModule ⟨name, source⟩ .commonjs = stagedModule ⟨name, []⟩ .commonjs := rfl
  rw [hsource]
  refine passing_bare ?_ _
  unfold Script.Bare stagedModule emitText lines dataLines textureAccessor stagedLandmarks stagedBody
  rcases h with rfl | rfl
  all_goals
    simp only [List.map_cons, List.map_nil]
    repeat rw [String.toList_ofList]
    decide +kernel

/-- An import source without dots and blanks spells nothing that a check looks for. -/
theorem neutral_plain (t : Text) {source : Text} (hdot : '.' ∉ source) (hblank : ' ' ∉ source) :
    Neutral t source where
  no_assets _ _ _ _ := undotted_unassigned hdot
  no_class _ _ _ _ n _ h := by
    have hword : ' ' ∈ classWord n := by
      unfold classWord
      simp
    exact hblank ((declares_word h).subset hword)

theorem modes_agree_staged : Text.isIdentifier standard.target.namespaceName = true ∧
    InQuotes '\x27' standard.target.importSource ∧ Neutral stagedSource standard.target.importSource ∧
    ∃ (data : Text) (m : Migration), m.assets.stageName = some "Scene".toList ∧
      ∀ mode, (migrate standard "scene.js" mode stagedSource).result =
        .ok { m with output := moduleAround standard.target m.exports data mode } := by
  have hn : Text.isIdentifier standard.target.namespaceName = true := by decide
  have hq : InQuotes '\x27' standard.target.importSource := by
    unfold InQuotes
    decide
  have hneutral : Neutral stagedSource standard.target.importSource :=
    neutral_plain stagedSource (by decide) (by decide)
  obtain ⟨m, hm, hstage⟩ := staged_migrated (staged_renamed (Or.inl rfl)) (staged_passes (Or.inl rfl) _)
  have hm : (migrate standard "scene.js" .commonjs stagedSource).result = .ok m := hm
  refine ⟨hn, hq, hneutral, ?_⟩
  rcases modes_agree hn hq hneutral "scene.js" with ⟨f, h⟩ | h | ⟨data, k, h⟩
  · simp [h .commonjs] at hm
  · obtain ⟨issues, h⟩ := h .commonjs
    simp [h] at hm
  · refine ⟨data, k, ?_, h⟩
    rw [h] at hm
    rw [← Except.ok.inj hm] at hstage
    exact hstage

/-- An import source that assigns the assets of the stage. -/
def spelledTarget : Target := ⟨"animate".toList, "data.lib.Scene.assets =".toList⟩

/-- A namespace that is no identifier. -/
def crossedTarget : Target := ⟨")(".toList, "pixi-animate".toList⟩

theorem balanced_visible {t : Text} {n : Script.Post} (h : Script.scan .fresh t = some n)
    (hn : n.inString = false) (hfirst : t.head? ≠ some '#') :
    Script.Balanced (Script.codeText t) ↔ Script.Balanced (Script.visible .fresh t) := by
  have hmask := Script.code_mask_scan h hn fun u hu => absurd (by rw [hu]; rfl) hfirst
  rw [Script.Balanced, Script.Balanced, ← Script.pair_brackets, Script.codeText, Script.marked, hmask,
    Script.code_brackets, Script.pair_brackets]

theorem crossed_unbalanced :
    ¬ Script.Balanced (Script.codeText (stagedModule crossedTarget .es6Autorun)) := by
  have hscan : Script.scan .fresh (stagedModule crossedTarget .es6Autorun) = some .fresh ∧
      ¬ Script.Balanced (Script.visible .fresh (stagedModule crossedTarget .es6Autorun)) := by
    unfold stagedModule emitText lines dataLines textureAccessor stagedLandmarks stagedBody
    simp only [List.map_cons, List.map_nil]
    repeat rw [String.toList_ofList]
    decide +kernel
  rw [balanced_visible hscan.1 rfl (by decide)]
  exact hscan.2

/-- The modes of one source need not agree: when the import source assigns the assets of the stage, or
the namespace is no identifier. -/
theorem modes_differ :
    ((∃ m, (migrate ⟨spelledTarget, Check.all⟩ "scene.js" .commonjs stagedSource).result = .ok m) ∧
      ∃ issues, (migrate ⟨spelledTarget, Check.all⟩ "scene.js" .es6Autorun stagedSource).result =
        .error (.invalid issues)) ∧
    (∃ m, (migrate ⟨crossedTarget, Check.all⟩ "scene.js" .commonjs stagedSource).result = .ok m) ∧
      ∃ issues, (migrate ⟨crossedTarget, Check.all⟩ "scene.js" .es6Autorun stagedSource).result =
        .error (.invalid issues) := by
  obtain ⟨m, hm, hstage⟩ := @staged_migrated spelledTarget (staged_renamed (Or.inl rfl)) _
    (staged_passes (Or.inl rfl) _)
  have hcrossed := @staged_renamed crossedTarget.namespaceName (Or.inr rfl)
  obtain ⟨k, hk, _⟩ := staged_migrated hcrossed (staged_passes (Or.inr rfl) _)
  have hassigns : Assigns "Scene".toList spelledTarget.importSource :=
    ⟨" ".toList, by decide, [], [], rfl⟩
  exact ⟨⟨⟨m, hm⟩, spelled_source_refused (by decide) hm hstage (by decide) hassigns⟩, ⟨k, hk⟩,
    staged_refused hcrossed fun h => crossed_unbalanced (h.brackets (by decide))⟩

end Restage
