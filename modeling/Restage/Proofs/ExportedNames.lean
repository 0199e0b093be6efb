import Restage.Proofs.ConversionSplice
import Restage.Proofs.OutputModes

/-!
The names that an autorun module binds. Outside its `data` object a module binds the namespace, `data`
and one name for every definition of the library, nested ones and repeated ones included, so no name is
bound twice exactly when the definitions keep them apart (`bound_once_iff`). Two definitions of
one class bind it twice (`class_bound_twice`).
-/

set_option autoImplicit false

namespace Restage

open Legacy Output
open Script (InQuotes)

namespace Output

def importWord : Text := "import ".toList

def constWord : Text := "const ".toList

/-- The words in front of a name that a line binds. -/
def bindingWords : List Text := [importWord, constWord]

/-- The name that a line binds, if it does so. -/
def boundBy? (l : Text) : Option Text :=
  bindingWords.findSome? fun w => (Text.after? w l).map fun r => r.takeWhile (· != ' ')

/-- The name of the object that a module builds. -/
def dataName : Text := "data".toList

/-- The line that opens the `data` object. -/
def dataOpening : Text := "const ".toList ++ dataName ++ " = \x7b".toList

/-- The lines of an autorun module outside its `data` object, and the line that opens it. -/
def outerLines (target : Target) (exports : List Text) : List Text :=
  importLine target :: dataOpening :: closingLines target .es6Autorun exports

/-- The names that an autorun module binds. -/
def boundNames (target : Target) (exports : List Text) : List Text :=
  target.namespaceName :: dataName :: exports

theorem spaced_append (w name u v x : Text) :
    w ++ name ++ ' ' :: u ++ v ++ x = w ++ (name ++ ' ' :: (u ++ (v ++ x))) := by
  simp only [List.append_assoc, List.cons_append]

section

variable {name rest : Text} (hname : ' ' ∉ name)
include hname

theorem bound_by_word {w : Text} (hw : w ∈ bindingWords) :
    boundBy? (w ++ (name ++ ' ' :: rest)) = some name := by
  have htaken : (name ++ ' ' :: rest).takeWhile (· != ' ') = name :=
    Text.run_taken (fun c hc => by simp [ne_of_mem_of_not_mem hc hname]) (by simp)
  have hother : Text.after? importWord (constWord ++ (name ++ ' ' :: rest)) = none := rfl
  rw [bindingWords, List.mem_cons, List.mem_singleton] at hw
  rcases hw with rfl | rfl
  · rw [boundBy?, bindingWords, List.findSome?_cons, Text.after?_append, Option.map_some, htaken]
  · rw [boundBy?, bindingWords, List.findSome?_cons, hother, Option.map_none, List.findSome?_cons,
      Text.after?_append, Option.map_some, htaken]

end

theorem import_bound : importWord ∈ bindingWords := List.mem_cons_self

theorem const_bound : constWord ∈ bindingWords := List.mem_cons_of_mem _ List.mem_cons_self

theorem opening_binds : boundBy? dataOpening = some dataName := by decide

theorem import_binds {target : Target} (hn : ' ' ∉ target.namespaceName) :
    boundBy? (importLine target) = some target.namespaceName := by
  have hline : importLine target = importWord ++ (target.namespaceName ++
      ' ' :: ("from '".toList ++ (target.importSource ++ "';".toList))) :=
    spaced_append importWord _ "from '".toList _ _
  rw [hline]
  exact bound_by_word hn import_bound

theorem export_binds {n : Text} (hn : ' ' ∉ n) : (exportLines n).filterMap boundBy? = [n] := by
  have hconst : boundBy? ("const ".toList ++ n ++ " = data.lib.".toList ++ n ++ [';']) = some n := by
    have hline : "const ".toList ++ n ++ " = data.lib.".toList ++ n ++ [';'] =
        constWord ++ (n ++ ' ' :: ("= data.lib.".toList ++ (n ++ [';']))) :=
      spaced_append constWord n "= data.lib.".toList n [';']
    rw [hline]
    exact bound_by_word hn const_bound
  have hexport : boundBy? ("export \x7b".toList ++ n ++ "\x7d;".toList) = none := rfl
  rw [exportLines, List.filterMap_cons_some hconst, List.filterMap_cons_none hexport,
    List.filterMap_nil]

theorem exports_bind {exports : List Text} (h : ∀ n ∈ exports, ' ' ∉ n) :
    (exports.flatMap exportLines).filterMap boundBy? = exports := by
  induction exports with
  | nil => rfl
  | cons n exports ih =>
    rw [List.flatMap_cons, List.filterMap_append, export_binds (h n (by simp)),
      ih fun k hk => h k (by simp [hk])]
    rfl

theorem call_binds (target : Target) : boundBy? (setupCall target) = none := rfl

/-- The lines outside the `data` object bind these names, in this order. -/
theorem outer_lines_bind {target : Target} {exports : List Text} (hn : ' ' ∉ target.namespaceName)
    (h : ∀ n ∈ exports, ' ' ∉ n) :
    (outerLines target exports).filterMap boundBy? = boundNames target exports := by
  have hlast : [[], lastLine .es6Autorun].filterMap boundBy? = [] := by decide
  have hclosing : closingLines target .es6Autorun exports =
      setupCall target :: (exports.flatMap exportLines ++ [[], lastLine .es6Autorun]) := rfl
  rw [outerLines, List.filterMap_cons_some (import_binds hn), List.filterMap_cons_some opening_binds,
    hclosing, List.filterMap_cons_none (call_binds target), List.filterMap_append, exports_bind h, hlast,
    List.append_nil]
  rfl

/-- An autorun module is these lines with the rest of the `data` object among them. -/
theorem emit_outer (target : Target) (assets : Assets) (stage : Stage) (exports : List Text)
    (body : Text) : ∃ inside, emitText target assets stage .es6Autorun exports body =
      moduleText (importLine target :: dataOpening :: (inside ++
        closingLines target .es6Autorun exports)) := by
  refine ⟨(dataLines target assets stage (attachedBody assets body)).tail, ?_⟩
  have hdata : dataText target assets stage body = moduleText (dataOpening ::
    (dataLines target assets stage (attachedBody assets body)).tail) := rfl
  have hautorun : Mode.autorun .es6Autorun = true := rfl
  rw [emit_parts, hautorun, if_pos rfl, import_text_line, hdata, ← module_append, module_cons,
    List.append_assoc]
  rfl

end Output

/-- The names of the definitions that assign a member of the library. -/
def memberNames (ds : List Definition) : List Text := (ds.filter (·.exported)).map (·.name)

/-- The members of a library have names of their own: no two are alike, and none is that of the
namespace or of the `data` object, which differ too. -/
structure KeepsApart (target : Target) (names : List Text) : Prop where
  members : names.Nodup
  data : dataName ∉ names
  namespaceName : target.namespaceName ∉ names
  own : target.namespaceName ≠ dataName

theorem bound_nodup_iff {target : Target} {exports names : List Text} (h : exports.Perm names) :
    (boundNames target exports).Nodup ↔ KeepsApart target names := by
  rw [boundNames, List.nodup_cons, List.nodup_cons, List.mem_cons, not_or, h.nodup_iff, h.mem_iff,
    h.mem_iff]
  exact ⟨fun ⟨⟨hown, hspace⟩, hdata, hmembers⟩ => ⟨hmembers, hdata, hspace, hown⟩,
    fun h => ⟨⟨h.own, h.namespaceName⟩, h.data, h.members⟩⟩

/-- An autorun module binds the namespace, `data` and the name of every library definition in the setup
body, so it binds no name twice just if the definitions have names of their own. -/
theorem bound_once_iff {settings : Settings}
    (hn : Text.isIdentifier settings.target.namespaceName = true) {source : String} {t : Text}
    {m : Migration} (h : (migrate settings source .es6Autorun t).result = .ok m) :
    ∃ (l : Landmarks) (tree : List Definition) (inside : List Text), landmarks t = .ok l ∧
      Definition.findAll l.setup.libraryAlias l.body = .ok tree ∧
      m.output = moduleText (importLine settings.target :: dataOpening :: (inside ++
        closingLines settings.target .es6Autorun m.exports)) ∧
      (outerLines settings.target m.exports).filterMap boundBy? =
        boundNames settings.target m.exports ∧
      m.exports.Perm (memberNames (Definition.walkAll tree)) ∧
      ((boundNames settings.target m.exports).Nodup ↔
        KeepsApart settings.target (memberNames (Definition.walkAll tree))) := by
  obtain ⟨l, c, hl, hc, _, rfl⟩ := migrate_accepted h
  obtain ⟨tree, htree, hdefs, _⟩ := convert_ok hc
  obtain ⟨inside, hinside⟩ := emit_outer settings.target l.assets l.stage c.exports
    (l.renamed settings c)
  have hperm : c.exports.Perm (memberNames (Definition.walkAll tree)) := by
    rw [Conversion.exports, memberNames, hdefs]
    exact ((List.mergeSort_perm _ _).filter _).map _
  have hspace : ' ' ∉ settings.target.namespaceName := fun hin => by
    have hword := (Script.identifier_word hn).chars ' ' hin
    exact absurd hword (by decide)
  have hexports : ∀ n ∈ c.exports, ' ' ∉ n := fun n hin =>
    Text.not_mem_of_all (exports_are_names hc n hin) (by decide)
  exact ⟨l, tree, inside, hl, htree, hinside, outer_lines_bind hspace hexports, hperm,
    bound_nodup_iff hperm⟩

/-! A source with definitions of one class. -/

def sceneText : Text := ("    lib.Scene = MovieClip.extend(function () \x7b\n" ++
  "        MovieClip.call(this);\n    \x7d);\n").toList

def sceneSetup (copies : Nat) : Setup :=
  ⟨"PIXI".toList, "lib".toList, '\n' :: (List.replicate copies sceneText).flatten⟩

def sceneSource (copies : Nat) : Text :=
  "(function (PIXI, lib) \x7b".toList ++ (sceneSetup copies).body ++
    "\x7d)(PIXI, lib = \x7b\x7d);".toList

/-- The class that is made of a definition, in the library of that name. -/
def sceneClass (library : String) : Text :=
  ("    " ++ library ++ ".Scene = class Scene extends MovieClip \x7b\n" ++
    "        constructor() \x7b\n        super();\n    \x7d\n    \x7d\n").toList

def sceneBody (library : String) (copies : Nat) : Text :=
  '\n' :: (List.replicate copies (sceneClass library)).flatten

def sceneData (copies : Nat) : Text :=
  dataText .default Assets.missing ⟨Stage.fallbackLines, true, none⟩ (sceneBody "data.lib" copies)

/-- What is evaluated for a number of definitions. -/
structure SceneRuns (copies : Nat) (names : List Text) : Prop where
  found : landmarks (sceneSource copies) = .ok (plainLandmarks (sceneSetup copies))
  converted : splicedConversion "lib".toList (sceneSetup copies).body =
    some (sceneBody "lib" copies, names, names)
  renamed : (Substitution.runAll (Substitution.all ⟨"PIXI".toList, "lib".toList, "animate".toList⟩)
    (sceneBody "lib" copies)).2 = sceneBody "data.lib" copies
  plain : Script.Bare (sceneData copies) ∧ Script.Balanced (sceneData copies) ∧
    ¬ ".extend(".toList <:+: sceneData copies ∧ ¬ ".call(".toList <:+: sceneData copies
  declared : classIssues (sceneData copies) names = []
  names : ∀ n ∈ names, ∀ c ∈ n, Text.isNamePart c = true

theorem scene_migrated {copies : Nat} {names : List Text} (h : SceneRuns copies names) :
    ∃ m, (migrate standard "scene.js" .es6Autorun (sceneSource copies)).result = .ok m ∧
      m.exports = names := by
  have hq : InQuotes '\x27' standard.target.importSource := by
    unfold InQuotes
    decide
  have hspells : ∀ n ∈ names, ¬ Declares n standard.target.importSource :=
    fun n _ hin => absurd ((declares_word hin).subset (List.mem_append_right _ (by decide)) : ' ' ∈ _)
      (by decide)
  have hpasses : Passing Check.all ⟨emitText standard.target Assets.missing
      ⟨Stage.fallbackLines, true, none⟩ .es6Autorun names (sceneBody "data.lib" copies), names, none⟩ :=
    (passing_data standard.target Assets.missing _ _ names (by decide) hq h.names (fun _ hn => hn)
      (by simp [Assets.missing]) (by simp [Assets.missing]) hspells _).2
      (passing_plain h.plain (by simp [Assets.missing]) (class_issues_nil_iff.1 h.declared) _)
  obtain ⟨m, hm, _, _⟩ := @Landmarks.accepted (plainLandmarks (sceneSetup copies)) standard
    .es6Autorun _ _ _ _ (spliced_conversion h.converted)
    (congrArg (emitText standard.target _ _ .es6Autorun names) h.renamed) (passes_iff.2 hpasses)
    "scene.js"
  have hm : (migrate standard "scene.js" .es6Autorun (sceneSource copies)).result = .ok m := by
    rw [migrate_outcome, h.found]
    exact hm
  refine ⟨m, hm, ?_⟩
  obtain ⟨l, c, hl, hc, _, rfl⟩ := migrate_accepted hm
  rw [h.found, Except.ok.injEq] at hl
  subst hl
  have hconverted := spliced_conversion h.converted
  have hc : (convert "lib".toList (sceneSetup copies).body).result = .ok c := hc
  rw [hc] at hconverted
  simp only [Except.toOption, Option.map_some, Option.some.injEq, Prod.mk.injEq] at hconverted
  exact hconverted.2.2

theorem scene_runs {copies : Nat} (h : copies = 1 ∨ copies = 2) :
    SceneRuns copies (List.replicate copies "Scene".toList) := by
  refine ⟨?_, ?_, ?_, ?_, ?_, ?_⟩
  · unfold sceneSource sceneSetup sceneText
    simp only [String.toList_append]
    repeat rw [String.toList_ofList]
    rcases h with rfl | rfl <;> decide +kernel
  · unfold sceneSetup sceneText sceneBody sceneClass
    simp only [String.toList_append]
    repeat rw [String.toList_ofList]
    rcases h with rfl | rfl <;> decide +kernel
  · unfold sceneBody sceneClass
    simp only [String.toList_append]
    repeat rw [String.toList_ofList]
    rcases h with rfl | rfl <;> decide +kernel
  · unfold Script.Bare sceneData dataText dataLines textureAccessor sceneBody sceneClass
    simp only [List.map_cons, List.map_nil, String.toList_append]
    repeat rw [String.toList_ofList]
    rcases h with rfl | rfl <;> decide +kernel
  · unfold sceneData dataText dataLines textureAccessor sceneBody sceneClass
    simp only [List.map_cons, List.map_nil, String.toList_append]
    repeat rw [String.toList_ofList]
    rcases h with rfl | rfl <;> decide +kernel
  · rcases h with rfl | rfl <;> decide

theorem bound_once_sample : ∃ m,
    (migrate standard "scene.js" .es6Autorun (sceneSource 1)).result = .ok m ∧
      (boundNames standard.target m.exports).Nodup ∧
      ∃ inside, m.output = moduleText (importLine standard.target :: dataOpening :: (inside ++
        closingLines standard.target .es6Autorun m.exports)) := by
  obtain ⟨m, hm, hexports⟩ := scene_migrated (scene_runs (Or.inl rfl))
  obtain ⟨_, _, inside, _, _, houtput, _, _, _⟩ := bound_once_iff (by decide) hm
  exact ⟨m, hm, by rw [hexports]; decide, inside, houtput⟩

/-- A class that is defined twice is bound twice. -/
theorem class_bound_twice : ∃ m,
    (migrate standard "scene.js" .es6Autorun (sceneSource 2)).result = .ok m ∧
      ¬ (boundNames standard.target m.exports).Nodup := by
  obtain ⟨m, hm, hexports⟩ := scene_migrated (scene_runs (Or.inr rfl))
  exact ⟨m, hm, by rw [hexports]; decide⟩

end Restage
