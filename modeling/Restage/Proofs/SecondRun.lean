import Restage.Proofs.DefinitionNames
import Restage.Proofs.DiskFrame
import Restage.Proofs.EmittedLines
import Restage.Proofs.SetupForm
import Restage.Proofs.Surroundings
import Restage.Proofs.Utf8RoundTrip

/-!
A second migration. Whether the output of a migration is taken for an export again depends only on
whether it wraps a body once more (`Reopens`), which it can do only through a function expression
in a part that was put into the template. On disk a second run skips the file and leaves it alone
exactly when the second migration is refused (`second_migration_iff`).
-/

set_option autoImplicit false

namespace Restage

open Legacy Output
open CommandLine (Job)

/-- A text with a setup function whose definitions convert. -/
def Reopens (t : Text) : Prop :=
  ∃ s c, s.Wraps t ∧ (convert s.libraryAlias (bodyWithoutStage s (Stage.find t))).result = .ok c

/-- The structure of a text is refused exactly when it has no such function. -/
theorem structure_refused_iff (settings : Settings) (source : String) (mode : Mode) (t : Text) :
    (∃ f, (migrate settings source mode t).result = .error (.structure_ f)) ↔ ¬ Reopens t := by
  have hreopens : Reopens t ↔ ∃ l c, landmarks t = .ok l ∧ l.conversion = .ok c := by
    unfold Reopens landmarks
    constructor
    · rintro ⟨s, c, hs, hc⟩
      refine ⟨⟨s, Assets.find s.libraryAlias t, Stage.find t⟩, c, ?_, hc⟩
      rw [Setup.find_iff.2 hs]
      rfl
    · rintro ⟨l, c, hl, hc⟩
      cases hs : Setup.find t with
      | error f => simp [hs, Except.map] at hl
      | ok s =>
        simp only [hs, Except.map, Except.ok.injEq] at hl
        subst hl
        exact ⟨s, c, Setup.find_iff.1 hs, hc⟩
  rw [hreopens, migrate_outcome]
  cases hl : landmarks t with
  | error f => simp
  | ok l =>
    cases hc : l.conversion with
    | error f => simp [Landmarks.outcome, hc]
    | ok c =>
      simp only [Landmarks.outcome, hc]
      constructor
      · rintro ⟨f, hf⟩
        split at hf <;> simp at hf
      · intro h
        exact absurd ⟨l, c, rfl, hc⟩ h

/-- A text without the word that opens a function expression has no setup function. -/
theorem not_reopens {t : Text} (h : ¬ functionWord <:+: t) : ¬ Reopens t := by
  rintro ⟨s, c, ⟨front, raw, opened, tail, rfl, ⟨gap, space, rfl, _⟩, _⟩, _⟩
  refine h (List.IsInfix.trans ?_ (List.suffix_append front _).isInfix)
  rw [List.append_assoc, List.append_assoc]
  exact (List.prefix_append functionWord _).isInfix

/-- A part that the migration of a source puts into the template. -/
def Embeds (settings : Settings) (t p : Text) : Prop :=
  ∃ l c, landmarks t = .ok l ∧ l.conversion = .ok c ∧
    p ∈ suppliedParts settings.target l.assets l.stage
      (attachedBody l.assets (l.renamed settings c))

theorem output_function_word {settings : Settings} {source : String} {mode : Mode} {t : Text}
    {m : Migration} (h : (migrate settings source mode t).result = .ok m)
    (hw : functionWord <:+: m.output) : ∃ p, Embeds settings t p ∧ functionWord <:+: p := by
  obtain ⟨l, c, hl, hc, hout, _⟩ := migrate_ok h
  rw [hout] at hw
  have hexports : ∀ n ∈ c.exports, '(' ∉ n := fun n hn =>
    Text.not_mem_of_all (exports_are_names hc n hn) (by decide +kernel)
  obtain ⟨p, hp, hw⟩ := opening_in_parts hexports hw
  exact ⟨p, ⟨l, c, hl, hc, hp⟩, hw⟩

/-! On disk. -/

namespace Batch

/-- A batch of one job that migrates its source to `m` and writes it; none of the shape files that
the source names is the source itself. -/
structure Migrates (settings : Settings) (d : Disk) (job : Job) (m : Migration) : Prop where
  source : ∃ t, (d.readText (sourcePath d.cwd job.path)).1 = .ok t ∧
    (migrate settings (sourcePath d.cwd job.path).str job.mode t).result = .ok m
  migrated : (run settings false d [job]).value.map (·.status) = [.migrated]
  apart : ∀ name ∈ m.assets.shapeFiles,
    d.locate (shapePath (sourcePath d.cwd job.path) name) ≠ d.locate (sourcePath d.cwd job.path)

theorem run_single (settings : Settings) (dryRun : Bool) (d : Disk) (job : Job) :
    (run settings dryRun d [job]).value = [(runJob settings dryRun d job).value] ∧
    (run settings dryRun d [job]).disk = (runJob settings dryRun d job).disk := ⟨rfl, rfl⟩

section

variable {settings : Settings} {d : Disk} {job : Job} {t : Text}

/-- A job whose source is refused is skipped, and nothing is written. -/
theorem run_job_refused {r : Refusal}
    (ht : (d.readText (sourcePath d.cwd job.path)).1 = .ok t)
    (hr : (migrate settings (sourcePath d.cwd job.path).str job.mode t).result = .error r) :
    (runJob settings false d job).value.status = .skipped ∧
    (runJob settings false d job).disk = (d.readText (sourcePath d.cwd job.path)).2 := by
  unfold runJob
  cases hread : d.readText (sourcePath d.cwd job.path) with
  | mk x e =>
    rw [hread] at ht
    cases hm : migrate settings (sourcePath d.cwd job.path).str job.mode t with
    | mk ns x' =>
      rw [hm] at hr
      simp only at ht hr
      subst ht hr
      simp only [hread, hm]
      cases r <;> exact ⟨rfl, trivial⟩

/-- A job whose source migrates is migrated if the module can be written, and has failed
otherwise. -/
theorem run_job_ok {m : Migration}
    (ht : (d.readText (sourcePath d.cwd job.path)).1 = .ok t)
    (hm : (migrate settings (sourcePath d.cwd job.path).str job.mode t).result = .ok m) :
    let path := sourcePath d.cwd job.path
    let written := (d.readText path).2.write path (Utf8.encode m.output)
    (written.1 = .ok () ∧ (runJob settings false d job).value.status = .migrated ∧
      (runJob settings false d job).disk = (shapeSteps false written.2
        (m.assets.shapeFiles.map (shapePath path))).disk) ∨
    ((∃ e, written.1 = .error e) ∧ (runJob settings false d job).value.status = .failed) := by
  intro path written
  have hpath : sourcePath d.cwd job.path = path := rfl
  unfold runJob
  cases hread : d.readText path with
  | mk x e =>
    rw [hpath, hread] at ht
    cases hx : migrate settings path.str job.mode t with
    | mk ns x' =>
      rw [hpath, hx] at hm
      simp only at ht hm
      subst ht hm
      cases hw : e.write path (Utf8.encode m.output) with
      | mk w f =>
        have hwritten : written = (w, f) := by
          rw [← hw]
          show (d.readText path).2.write path _ = _
          rw [hread]
        simp only [hpath, hread, hx, hw, hwritten]
        cases w with
        | ok u => exact Or.inl ⟨rfl, rfl, rfl⟩
        | error x => exact Or.inr ⟨⟨x, rfl⟩, rfl⟩

end

/-- The disk after the first run holds the module. -/
theorem first_run {settings : Settings} {d : Disk} {job : Job} {m : Migration}
    (h : Migrates settings d job m) :
    (run settings false d [job]).disk.cwd = d.cwd ∧
    (run settings false d [job]).disk.readFault = d.readFault ∧
    (run settings false d [job]).disk.lookup (sourcePath d.cwd job.path) =
      .ok (Utf8.encode m.output) := by
  obtain ⟨⟨t, ht, hm⟩, hstatus, hapart⟩ := h
  obtain ⟨b, hb, _⟩ := Disk.read_text_ok ht
  have hread : Rewrites (fun _ => False) d (d.readText (sourcePath d.cwd job.path)).2 := by
    rw [Disk.read_text_disk]
    exact Disk.read_rewrites d _
  have hlookup : (d.readText (sourcePath d.cwd job.path)).2.lookup (sourcePath d.cwd job.path) =
      .ok b := by
    rw [hread.lookup fun _ _ h => h, hb]
  have hwrites := (hread.mono fun _ h => h.elim).trans
    (hread.locate _ ▸ Disk.write_rewrites hlookup (Utf8.encode m.output))
  have hwritten := @Disk.write_lookup _ _ _ hlookup (Utf8.encode m.output)
  rcases run_job_ok ht hm with ⟨hok, _, hdisk⟩ | ⟨_, hfailed⟩
  · have hsteps := shape_steps_rewrites false
      ((d.readText (sourcePath d.cwd job.path)).2.write (sourcePath d.cwd job.path)
        (Utf8.encode m.output)).2
      (m.assets.shapeFiles.map (shapePath (sourcePath d.cwd job.path)))
    rw [(run_single settings false d job).2, hdisk]
    refine ⟨hsteps.cwd.trans hwrites.cwd, hsteps.readFault.trans hwrites.readFault, ?_⟩
    rw [hsteps.lookup, hwritten hok]
    rintro k hk ⟨p, hp, hpk⟩
    obtain ⟨name, hname, rfl⟩ := List.mem_map.1 hp
    rw [hwrites.locate] at hk hpk
    exact hapart name hname (hpk.trans hk.symm)
  · rw [(run_single settings false d job).1, List.map_singleton, hfailed] at hstatus
    simp at hstatus

/-- A job on the same source, perhaps in another mode. -/
def again (job : Job) (mode : Mode) : Job := { job with mode := mode }

/-- A run over a module skips it exactly when its migration is refused, and then leaves it. -/
theorem second_run {settings : Settings} {d : Disk} {job : Job} {out : Text}
    (hout : d.lookup (sourcePath d.cwd job.path) = .ok (Utf8.encode out))
    (hfault : d.readFault d.reads = none) :
    ((run settings false d [job]).value.map (·.status) = [.skipped] ↔
      ∃ r, (migrate settings (sourcePath d.cwd job.path).str job.mode
        (Utf8.unifyLineEnds out)).result = .error r) ∧
    ((run settings false d [job]).value.map (·.status) = [.skipped] →
      (run settings false d [job]).disk.tree = d.tree) := by
  have ht : (d.readText (sourcePath d.cwd job.path)).1 = .ok (Utf8.unifyLineEnds out) := by
    rw [Disk.read_text_of_lookup hfault hout, textOfBytes, Utf8.decode_encode]
  rw [(run_single settings false d job).1, (run_single settings false d job).2, List.map_singleton]
  cases hm : (migrate settings (sourcePath d.cwd job.path).str job.mode
      (Utf8.unifyLineEnds out)).result with
  | error r =>
    obtain ⟨hstatus, hdisk⟩ := run_job_refused ht hm
    rw [hstatus, hdisk, Disk.read_text_disk]
    exact ⟨by simp, fun _ => rfl⟩
  | ok m =>
    have hstatus : (runJob settings false d job).value.status ≠ .skipped := by
      rcases run_job_ok ht hm with ⟨_, hs, _⟩ | ⟨_, hs⟩ <;> simp [hs]
    simp [hstatus]

end Batch

/-- A second migration of the output of a first one, as a text and on disk. It is refused for its
structure unless the output wraps a body again, and the output does so only through a function
expression in a part that was put into the template. -/
theorem second_migration_iff {settings : Settings} {source : String} {mode : Mode} {t : Text}
    {m : Migration} (h : (migrate settings source mode t).result = .ok m) :
    (∀ settings' source' mode',
      (∃ f, (migrate settings' source' mode' m.output).result = .error (.structure_ f)) ↔
        ¬ Reopens m.output) ∧
    ((∀ p, Embeds settings t p → ¬ functionWord <:+: p) →
      ¬ Reopens m.output ∧ ¬ Reopens (Utf8.unifyLineEnds m.output)) ∧
    ∀ d job, Batch.Migrates settings d job m →
      let first := (Batch.run settings false d [job]).disk
      first.readFault first.reads = none → ∀ mode',
        let second := Batch.run settings false first [Batch.again job mode']
        (second.value.map (·.status) = [.skipped] ↔
          ∃ r, (migrate settings (Batch.sourcePath d.cwd job.path).str mode'
            (Utf8.unifyLineEnds m.output)).result = .error r) ∧
        (¬ Reopens (Utf8.unifyLineEnds m.output) →
          second.value.map (·.status) = [.skipped] ∧ second.disk.tree = first.tree) := by
  refine ⟨fun settings' source' mode' => structure_refused_iff settings' source' mode' m.output,
    fun hparts => ?_, ?_⟩
  · have hword : ¬ functionWord <:+: m.output := by
      intro hw
      obtain ⟨p, hp, hpw⟩ := output_function_word h hw
      exact hparts p hp hpw
    exact ⟨not_reopens hword, not_reopens fun hw => hword (Utf8.infix_of_unified (by decide) hw)⟩
  · intro d job hfirst first hfault mode' second
    obtain ⟨hcwd, _, hlookup⟩ := Batch.first_run hfirst
    have hsource : first.lookup (Batch.sourcePath first.cwd (Batch.again job mode').path) =
        .ok (Utf8.encode m.output) := by
      rw [hcwd]
      exact hlookup
    obtain ⟨hskipped, hleft⟩ := @Batch.second_run settings _ _ _ hsource hfault
    rw [hcwd] at hskipped
    refine ⟨hskipped, fun hreopens => ?_⟩
    obtain ⟨f, hf⟩ := (structure_refused_iff settings (Batch.sourcePath d.cwd job.path).str mode'
      (Utf8.unifyLineEnds m.output)).2 hreopens
    have hs := hskipped.2 ⟨_, hf⟩
    exact ⟨hs, hleft hs⟩

/-! A source without function expressions in its body, on a disk of its own. -/

def sampleDisk : Disk :=
  .sound ⟨[(["scene.js".toList], .file (Utf8.encode sampleCore))]⟩ ⟨['/'], []⟩

def sampleJob : Job := ⟨⟨['/'], ["scene.js".toList]⟩, .commonjs⟩

theorem sample_disk_reads :
    (sampleDisk.readText (Batch.sourcePath sampleDisk.cwd sampleJob.path)).1 = .ok sampleCore := by
  have hlookup : sampleDisk.lookup (Batch.sourcePath sampleDisk.cwd sampleJob.path) =
      .ok (Utf8.encode sampleCore) := rfl
  rw [Disk.read_text_of_lookup rfl hlookup, textOfBytes, Utf8.decode_encode]
  simp only [Utf8.unify_plain (t := sampleCore) (by decide +kernel)]

theorem sample_embeds (p : Text) (h : Embeds standard sampleCore p) : ¬ functionWord <:+: p := by
  obtain ⟨l, c, hl, hc, hp⟩ := h
  rw [core_landmarks, Except.ok.injEq] at hl
  subst hl
  have hconversion : (plainLandmarks sampleSetup).conversion.toOption.map
      (fun c => (c.text, c.classNames, c.exports)) = some (sampleBody, [], []) := sample_conversion
  simp only [hc, Except.toOption, Option.map_some, Option.some.injEq, Prod.mk.injEq] at hconversion
  have hrenamed : (plainLandmarks sampleSetup).renamed standard c = sampleBody := by
    rw [Landmarks.renamed, hconversion.1]
    exact sample_renamed
  rw [hrenamed] at hp
  have hall : ∀ q ∈ suppliedParts .default Assets.missing ⟨Stage.fallbackLines, true, none⟩
      sampleBody, ¬ functionWord <:+: q := by decide +kernel
  exact hall p hp

theorem sample_first_run {m : Migration} (hm : (migrate standard
    (Batch.sourcePath sampleDisk.cwd sampleJob.path).str .commonjs sampleCore).result = .ok m)
    (hassets : m.assets = Assets.missing) : Batch.Migrates standard sampleDisk sampleJob m := by
  refine ⟨⟨sampleCore, sample_disk_reads, hm⟩, ?_, ?_⟩
  · rw [(Batch.run_single _ _ _ _).1]
    rcases Batch.run_job_ok sample_disk_reads hm with ⟨_, hstatus, _⟩ | ⟨⟨e, he⟩, _⟩
    · rw [List.map_singleton, hstatus]
    · rw [Disk.read_text_disk] at he
      exact absurd he (by rw [show (Disk.write _ _ (Utf8.encode m.output)).1 = .ok () from rfl]; simp)
  · intro name hname
    rw [hassets] at hname
    simp [Assets.missing] at hname

/-- The second run over the module of a source without function expressions skips it. -/
theorem second_migration_sample :
    ∃ m, (migrate standard (Batch.sourcePath sampleDisk.cwd sampleJob.path).str .commonjs
        sampleCore).result = .ok m ∧
      (∀ p, Embeds standard sampleCore p → ¬ functionWord <:+: p) ∧
      Batch.Migrates standard sampleDisk sampleJob m ∧ ¬ Reopens m.output ∧
      ∀ mode', (Batch.run standard false (Batch.run standard false sampleDisk [sampleJob]).disk
        [Batch.again sampleJob mode']).value.map (·.status) = [.skipped] := by
  obtain ⟨m, hm, hout, hassets⟩ :=
    sample_migrated (Batch.sourcePath sampleDisk.cwd sampleJob.path).str
  have hfirst := sample_first_run hm hassets
  obtain ⟨_, hparts, hdisk⟩ := second_migration_iff hm
  obtain ⟨hreopens, hunified⟩ := hparts sample_embeds
  refine ⟨m, hm, sample_embeds, hfirst, hreopens, fun mode' => ?_⟩
  have hfault := (Batch.first_run hfirst).2.1
  exact ((hdisk sampleDisk sampleJob hfirst (by rw [hfault]; rfl) mode').2 hunified).1

/-! A source with a function expression in its body. -/

def innerBody : Text :=
  "\n    (function (a, b) \x7b\n        a.x = b;\n    \x7d)(PIXI, lib);\n".toList

def innerSource : Text :=
  "(function (PIXI, lib) \x7b".toList ++ innerBody ++ "\x7d)(PIXI, lib = \x7b\x7d);".toList

theorem inner_checked : runChecks Check.all ⟨plainModule innerBody, [], none⟩ = [] := by
  refine checks_bare ?_
  unfold Script.Bare innerBody
  rw [plain_module_lines]
  repeat rw [String.toList_ofList]
  decide +kernel

/-- The module of a source with a function expression migrates again. -/
theorem inner_function_migrates_twice :
    ∃ m, (migrate standard "scene.js" .commonjs innerSource).result = .ok m ∧
      ∃ m', (migrate standard "scene.js" .commonjs m.output).result = .ok m' := by
  have hfirst : landmarks innerSource =
        .ok (plainLandmarks ⟨"PIXI".toList, "lib".toList, innerBody⟩) ∧
      (convert "lib".toList innerBody).result.toOption.map
        (fun c => (c.text, c.classNames, c.exports)) = some (innerBody, [], []) ∧
      (Substitution.runAll (Substitution.all ⟨"PIXI".toList, "lib".toList, "animate".toList⟩)
        innerBody).2 = innerBody := by
    unfold innerSource innerBody
    repeat rw [String.toList_ofList]
    decide +kernel
  obtain ⟨m, hm, hout, _⟩ := plain_migrated (t := innerSource)
    (s := ⟨"PIXI".toList, "lib".toList, innerBody⟩) hfirst.1 hfirst.2.1 hfirst.2.2 inner_checked
    "scene.js"
  -- the body that is left stands in a plain module of its own
  have hsecond : landmarks (plainModule innerBody) =
        .ok (plainLandmarks ⟨"a".toList, "b".toList, "\n        a.x = b;\n    ".toList⟩) ∧
      (convert "b".toList "\n        a.x = b;\n    ".toList).result.toOption.map
        (fun c => (c.text, c.classNames, c.exports)) =
          some ("\n        a.x = b;\n    ".toList, [], []) ∧
      (Substitution.runAll (Substitution.all ⟨"a".toList, "b".toList, "animate".toList⟩)
        "\n        a.x = b;\n    ".toList).2 = "\n        a.x = b;\n    ".toList := by
    unfold innerBody
    rw [plain_module_lines]
    repeat rw [String.toList_ofList]
    decide +kernel
  have hchecked : runChecks Check.all
      ⟨plainModule "\n        a.x = b;\n    ".toList, [], none⟩ = [] := by
    refine checks_bare ?_
    rw [Script.Bare, plain_module_lines]
    repeat rw [String.toList_ofList]
    decide +kernel
  obtain ⟨m', hm', _⟩ := plain_migrated (t := plainModule innerBody)
    (s := ⟨"a".toList, "b".toList, "\n        a.x = b;\n    ".toList⟩) hsecond.1 hsecond.2.1
    hsecond.2.2 hchecked "scene.js"
  exact ⟨m, hm, m', hout ▸ hm'⟩

end Restage
