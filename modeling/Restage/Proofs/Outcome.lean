import Mathlib
import Restage.Migration

/-!
The outcome of a migration as a function of its landmarks. Of the source text only the setup
function, the assets mapping and the stage literal are used (`migrate_outcome`), so texts with the
same landmarks have the same outcome.
-/

set_option autoImplicit false

namespace Restage

open Legacy Output

namespace Traced

variable {ε α β : Type}

theorem bind_result (x : Traced ε α) (f : α → Traced ε β) :
    (x >>= f).result = x.result.bind fun a => (f a).result := by
  cases h : x.result <;> simp [bind, andThen, h, Except.bind]

theorem pure_result (a : α) : (pure a : Traced ε α).result = .ok a := rfl

end Traced

/-- What is found in a source. -/
structure Landmarks where
  setup : Setup
  assets : Assets
  stage : Stage
deriving DecidableEq, Repr

/-- The landmarks of a source, if it has a setup function. -/
def landmarks (t : Text) : Except Fault Landmarks :=
  (Setup.find t).map fun s => ⟨s, Assets.find s.libraryAlias t, Stage.find t⟩

namespace Output

/-- A setup body with the stage statement in the place of the assets assignment. -/
def attachedBody (assets : Assets) (body : Text) : Text :=
  match assets.found, assets.stageName with
  | true, some name =>
    if name.isEmpty then body
    else match (assetsAssignment name).first? body.entire with
      | some h => body.take h.start ++ stageStatement name ++ body.drop h.stop
      | none => body
  | _, _ => body

def emitText (target : Target) (assets : Assets) (stage : Stage) (mode : Mode)
    (exports : List Text) (body : Text) : Text :=
  Text.joinWith ['\n'] (lines target assets stage mode exports (attachedBody assets body)) ++ ['\n']

theorem attach_result (stage body : Text) : (attachStage stage body).result =
    .ok (match (assetsAssignment stage).first? body.entire with
      | some h => body.take h.start ++ stageStatement stage ++ body.drop h.stop
      | none => body) := by
  cases h : (assetsAssignment stage).first? body.entire <;> simp only [attachStage, h] <;> rfl

theorem emit_result (target : Target) (assets : Assets) (stage : Stage) (mode : Mode)
    (exports : List Text) (body : Text) :
    (emit target assets stage mode exports body).result =
      .ok (emitText target assets stage mode exports body) := by
  cases hfound : assets.found with
  | false => simp only [emit, emitText, attachedBody, hfound]; rfl
  | true =>
    cases hname : assets.stageName with
    | none => simp only [emit, emitText, attachedBody, hfound, hname]; rfl
    | some name =>
      cases hempty : name.isEmpty with
      | true => simp only [emit, emitText, attachedBody, hfound, hname, hempty, if_true]; rfl
      | false =>
        simp only [emit, emitText, attachedBody, hfound, hname, hempty, Bool.false_eq_true, if_false,
          Traced.bind_result, attach_result]
        rfl

end Output

namespace Landmarks

variable (l : Landmarks)

/-- The setup body without the stage literal. -/
def body : Text := bodyWithoutStage l.setup l.stage

def conversion : Except Fault Conversion := (convert l.setup.libraryAlias l.body).result

/-- The setup body in its final form. -/
def renamed (settings : Settings) (c : Conversion) : Text :=
  (Substitution.runAll (Substitution.all ⟨l.setup.namespaceAlias, l.setup.libraryAlias,
    settings.target.namespaceName⟩) c.text).2

def output (settings : Settings) (mode : Mode) (c : Conversion) : Text :=
  emitText settings.target l.assets l.stage mode c.exports (l.renamed settings c)

def issues (settings : Settings) (mode : Mode) (c : Conversion) : List Issue :=
  runChecks settings.checks ⟨l.output settings mode c, c.classNames, l.assets.stageName⟩

/-- The outcome for a source with these landmarks. -/
def outcome (settings : Settings) (source : String) (mode : Mode) : Except Refusal Migration :=
  match l.conversion with
  | .error f => .error (.structure_ f)
  | .ok c =>
    if (l.issues settings mode c).isEmpty then
      .ok ⟨l.output settings mode c, l.assets, c.classNames, c.exports,
        (if l.assets.found then [] else [Assets.missingMessage source]) ++ c.warnings⟩
    else .error (.invalid (l.issues settings mode c))

variable {l}

/-- What is put into the module is the conversion and what comes of it. -/
theorem accepted {settings : Settings} {mode : Mode} {text out : Text} {names exports : List Text}
    (hconversion : l.conversion.toOption.map (fun c => (c.text, c.classNames, c.exports)) =
      some (text, names, exports))
    (hout : emitText settings.target l.assets l.stage mode exports
      (Substitution.runAll (Substitution.all ⟨l.setup.namespaceAlias, l.setup.libraryAlias,
        settings.target.namespaceName⟩) text).2 = out)
    (hissues : runChecks settings.checks ⟨out, names, l.assets.stageName⟩ = []) (source : String) :
    ∃ m, l.outcome settings source mode = .ok m ∧ m.output = out ∧ m.assets = l.assets := by
  cases hc : l.conversion with
  | error f => simp [hc, Except.toOption] at hconversion
  | ok c =>
    simp only [hc, Except.toOption, Option.map_some, Option.some.injEq, Prod.mk.injEq]
      at hconversion
    obtain ⟨htext, hnames, hexports⟩ := hconversion
    have houtput : l.output settings mode c = out := by
      rw [Landmarks.output, Landmarks.renamed, htext, hexports, hout]
    have hnone : l.issues settings mode c = [] := by
      rw [Landmarks.issues, houtput, hnames, hissues]
    rw [Landmarks.outcome, hc]
    simp only [hnone, List.isEmpty_nil, if_true]
    exact ⟨_, rfl, houtput, rfl⟩

end Landmarks

/-- A migration uses nothing of its source but the landmarks. -/
theorem migrate_outcome (settings : Settings) (source : String) (mode : Mode) (t : Text) :
    (migrate settings source mode t).result =
      match landmarks t with
      | .error f => .error (.structure_ f)
      | .ok l => l.outcome settings source mode := by
  unfold landmarks migrate
  simp only [Traced.bind_result, Traced.refuse, findSetup, findAssets, findStage]
  cases hs : Setup.find t with
  | error f => simp [Traced.ofExcept, Except.mapError, Except.map, Except.bind]
  | ok s =>
    simp only [Except.map, Landmarks.outcome, Landmarks.conversion, Landmarks.body]
    cases hc : (convert s.libraryAlias (bodyWithoutStage s (Stage.find t))).result with
    | error f =>
      simp [Traced.ofExcept, Except.bind, Except.mapError, hc, Traced.note, Traced.noteAll, pure,
        Traced.ok]
    | ok c =>
      simp only [Traced.ofExcept, Except.bind, Except.mapError, hc, Traced.note, Traced.noteAll,
        pure, Traced.ok, emit_result, rename]
      cases hi : (Landmarks.issues ⟨s, Assets.find s.libraryAlias t, Stage.find t⟩ settings mode
          c).isEmpty <;>
        simp only [Landmarks.issues, Landmarks.output, Landmarks.renamed] at hi <;>
        simp only [hi] <;> rfl

/-- A migration that succeeds: its module passed the checks, and all it returns follows from the
landmarks and the conversion. -/
theorem migrate_accepted {settings : Settings} {source : String} {mode : Mode} {t : Text}
    {m : Migration} (h : (migrate settings source mode t).result = .ok m) :
    ∃ l c, landmarks t = .ok l ∧ l.conversion = .ok c ∧ l.issues settings mode c = [] ∧
      m = ⟨l.output settings mode c, l.assets, c.classNames, c.exports,
        (if l.assets.found then [] else [Assets.missingMessage source]) ++ c.warnings⟩ := by
  rw [migrate_outcome] at h
  cases hl : landmarks t with
  | error f => simp [hl] at h
  | ok l =>
    simp only [hl, Landmarks.outcome] at h
    cases hc : l.conversion with
    | error f => simp [hc] at h
    | ok c =>
      simp only [hc] at h
      split at h
      · next hissues =>
        simp only [Except.ok.injEq] at h
        exact ⟨l, c, rfl, hc, List.isEmpty_iff.1 hissues, h.symm⟩
      · simp at h

/-- A migration that succeeds, by its landmarks and its conversion. -/
theorem migrate_ok {settings : Settings} {source : String} {mode : Mode} {t : Text} {m : Migration}
    (h : (migrate settings source mode t).result = .ok m) :
    ∃ l c, landmarks t = .ok l ∧ l.conversion = .ok c ∧ m.output = l.output settings mode c ∧
      m.assets = l.assets := by
  obtain ⟨l, c, hl, hc, _, rfl⟩ := migrate_accepted h
  exact ⟨l, c, hl, hc, rfl, rfl⟩

end Restage
