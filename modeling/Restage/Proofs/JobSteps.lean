import Restage.Proofs.DiskFrame

/-!
How a job can end. `Ran` lists the five ways, each with the disk that is left and the outcome;
every statement about batches goes through these cases. `Meets` names the disk that a job of a
batch begins with.
-/

set_option autoImplicit false

namespace Restage

open CommandLine (Job)

namespace Disk

/-- Reading counts the read and changes nothing else. -/
theorem read_text_counts (d : Disk) (p : Path) :
    (d.readText p).2 = { d with reads := d.reads + 1 } := read_text_disk d p

/-- A write that fails leaves the tree alone, unless the file had been opened. -/
theorem write_error {d : Disk} {p : Path} {content : Bytes} {e : FileError}
    (h : (d.write p content).1 = .error e) : (d.write p content).2.tree = d.tree ∨
      ∃ k x, d.openable p = .ok k ∧ d.writeFault d.writes = some (.emptied x) ∧
        (d.write p content).2.tree = d.tree.set k (.file []) := by
  rw [write] at h ⊢
  cases ho : d.openable p with
  | error x => exact Or.inl rfl
  | ok k =>
    cases hf : d.writeFault d.writes with
    | none => simp [ho, hf] at h
    | some x =>
      cases x with
      | refused x => exact Or.inl rfl
      | emptied x => exact Or.inr ⟨k, x, rfl, rfl, rfl⟩

theorem openable_locate {d : Disk} {p : Path} {k : Key} (h : d.openable p = .ok k) :
    d.locate p = .ok k := by
  rw [openable] at h
  cases hk : d.locate p with
  | error x => simp [hk, bind, Except.bind] at h
  | ok j =>
    simp only [hk, bind, Except.bind] at h
    split at h
    · simp at h
    · simp at h
    · split at h <;> simp_all

/-- A file that can be read can be opened for writing. -/
theorem openable_of_lookup {d : Disk} {p : Path} {b : Bytes} {k : Key} (h : d.lookup p = .ok b)
    (ho : d.openable p = .ok k) : d.tree.node? k = some (.file b) := by
  obtain ⟨j, hj, hn⟩ := lookup_ok_iff.1 h
  rw [openable_locate ho, Except.ok.injEq] at hj
  rw [hj, hn]

end Disk

namespace Batch

/-- The file of a job. -/
def source (d : Disk) (job : Job) : Path := sourcePath d.cwd job.path

/-- The shape files that a migrated source names. -/
def shapePaths (d : Disk) (job : Job) (m : Migration) : List Path :=
  m.assets.shapeFiles.map (shapePath (source d job))

/-- A job's source can be read and migrates. -/
def Yields (settings : Settings) (d : Disk) (job : Job) (m : Migration) : Prop :=
  ∃ t, (d.readText (source d job)).1 = .ok t ∧
    (migrate settings (source d job).str job.mode t).result = .ok m

/-- The disk after a job's source was read. -/
def afterRead (d : Disk) (job : Job) : Disk := (d.readText (source d job)).2

/-- The write of a job's module. -/
def moduleWrite (d : Disk) (job : Job) (m : Migration) : Except FileError Unit × Disk :=
  (afterRead d job).write (source d job) (Utf8.encode m.output)

/-- The ways in which a job can end. -/
inductive Ran (settings : Settings) (dryRun : Bool) (d : Disk) (job : Job) : Disk → Outcome → Prop
  | unreadable {e : ReadError} (h : (d.readText (source d job)).1 = .error e) :
    Ran settings dryRun d job (afterRead d job) (.ended (source d job) job.mode .failed e.message)
  | refused {t : Text} {r : Refusal} (ht : (d.readText (source d job)).1 = .ok t)
      (hr : (migrate settings (source d job).str job.mode t).result = .error r) :
    Ran settings dryRun d job (afterRead d job) (.ended (source d job) job.mode .skipped r.message)
  | previewed {t : Text} {m : Migration} (hdry : dryRun = true)
      (ht : (d.readText (source d job)).1 = .ok t)
      (hm : (migrate settings (source d job).str job.mode t).result = .ok m) :
    Ran settings dryRun d job (shapeSteps true (afterRead d job) (shapePaths d job m)).disk
      { Outcome.ofMigration (source d job) job.mode m with
        shapeFiles := (shapeSteps true (afterRead d job) (shapePaths d job m)).value
        diff := some (diffOf (source d job) t m.output) }
  | unwritten {m : Migration} {e : FileError} (hdry : dryRun = false)
      (hm : Yields settings d job m) (hw : (moduleWrite d job m).1 = .error e) :
    Ran settings dryRun d job (moduleWrite d job m).2
      { Outcome.ofMigration (source d job) job.mode m with
        status := .failed, error := some e.message }
  | written {m : Migration} (hdry : dryRun = false) (hm : Yields settings d job m)
      (hw : (moduleWrite d job m).1 = .ok ()) :
    Ran settings dryRun d job (shapeSteps false (moduleWrite d job m).2 (shapePaths d job m)).disk
      { Outcome.ofMigration (source d job) job.mode m with
        shapeFiles := (shapeSteps false (moduleWrite d job m).2 (shapePaths d job m)).value }

variable {settings : Settings} {dryRun : Bool} {d : Disk} {job : Job}

theorem run_job_ran (settings : Settings) (dryRun : Bool) (d : Disk) (job : Job) :
    Ran settings dryRun d job (runJob settings dryRun d job).disk
      (runJob settings dryRun d job).value := by
  have hsource : sourcePath d.cwd job.path = source d job := rfl
  unfold runJob
  simp only [hsource]
  cases hread : d.readText (source d job) with
  | mk x e =>
    have he : e = afterRead d job := by rw [afterRead, hread]
    cases x with
    | error x =>
      rw [he]
      exact .unreadable (by rw [hread])
    | ok t =>
      have ht : (d.readText (source d job)).1 = .ok t := by rw [hread]
      cases hmigrate : migrate settings (source d job).str job.mode t with
      | mk ns r =>
        have hr : (migrate settings (source d job).str job.mode t).result = r := by rw [hmigrate]
        cases r with
        | error r =>
          rw [he]
          simp only [hmigrate]
          cases r <;> exact .refused ht hr
        | ok m =>
          cases dryRun with
          | true =>
            rw [he]
            simp only [hmigrate, if_true]
            exact .previewed rfl ht hr
          | false =>
            simp only [hmigrate, Bool.false_eq_true, if_false]
            have hwrite : e.write (source d job) (Utf8.encode m.output) = moduleWrite d job m := by
              rw [he, moduleWrite]
            rw [hwrite]
            cases hw : moduleWrite d job m with
            | mk w f =>
              have hf : f = (moduleWrite d job m).2 := by rw [hw]
              cases w with
              | error x =>
                rw [hf]
                exact .unwritten rfl ⟨t, ht, hr⟩ (by rw [hw])
              | ok u =>
                rw [hf]
                exact .written rfl ⟨t, ht, hr⟩ (by rw [hw])

theorem run_job_path (settings : Settings) (dryRun : Bool) (d : Disk) (job : Job) :
    (runJob settings dryRun d job).value.path = source d job := by
  have hran := run_job_ran settings dryRun d job
  generalize (runJob settings dryRun d job).disk = e at hran
  generalize (runJob settings dryRun d job).value = o at hran ⊢
  cases hran <;> rfl

/-- A job whose module cannot be written fails. -/
theorem run_job_unwritten {m : Migration} {e : FileError} (hm : Yields settings d job m)
    (hw : (moduleWrite d job m).1 = .error e) :
    (runJob settings false d job).value.status = .failed ∧
      (runJob settings false d job).disk = (moduleWrite d job m).2 := by
  have hran := run_job_ran settings false d job
  generalize (runJob settings false d job).disk = f at hran ⊢
  generalize (runJob settings false d job).value = o at hran ⊢
  obtain ⟨t, ht, hr⟩ := hm
  cases hran with
  | unreadable h => simp [ht] at h
  | refused ht' hr' =>
    rw [ht, Except.ok.injEq] at ht'
    subst ht'
    simp [hr] at hr'
  | previewed hdry => simp at hdry
  | unwritten hdry hm' hw' =>
    obtain ⟨t', ht', hr'⟩ := hm'
    rw [ht, Except.ok.injEq] at ht'
    subst ht'
    rw [hr, Except.ok.injEq] at hr'
    subst hr'
    exact ⟨rfl, rfl⟩
  | written hdry hm' hw' =>
    obtain ⟨t', ht', hr'⟩ := hm'
    rw [ht, Except.ok.injEq] at ht'
    subst ht'
    rw [hr, Except.ok.injEq] at hr'
    subst hr'
    simp [hw] at hw'

/-! One job and the disk. -/

theorem after_read_rewrites (d : Disk) (job : Job) :
    Rewrites (fun _ => False) d (afterRead d job) := by
  rw [afterRead, Disk.read_text_counts]
  exact ⟨rfl, rfl, rfl, fun _ => Or.inl rfl⟩

theorem yields_lookup {m : Migration} (hm : Yields settings d job m) :
    ∃ b, (afterRead d job).lookup (source d job) = .ok b := by
  obtain ⟨t, ht, _⟩ := hm
  obtain ⟨b, hb, _⟩ := Disk.read_text_ok ht
  exact ⟨b, by rw [(after_read_rewrites d job).lookup fun _ _ h => h, hb]⟩

theorem module_write_rewrites {m : Migration} (hm : Yields settings d job m) :
    Rewrites (fun k => d.locate (source d job) = .ok k) d (moduleWrite d job m).2 := by
  obtain ⟨b, hb⟩ := yields_lookup hm
  have hread := after_read_rewrites d job
  have hwrite := Disk.write_rewrites hb (Utf8.encode m.output)
  rw [hread.locate] at hwrite
  exact (hread.mono fun _ h => h.elim).trans hwrite

/-- What a job may write to: its source, and the shape files that the source names. -/
def Reaches (settings : Settings) (d : Disk) (job : Job) (k : Key) : Prop :=
  ∃ m, Yields settings d job m ∧
    (d.locate (source d job) = .ok k ∨ ∃ p ∈ shapePaths d job m, d.locate p = .ok k)

/-- A job changes the contents of files that it reaches, and nothing else. -/
theorem run_job_rewrites (settings : Settings) (dryRun : Bool) (d : Disk) (job : Job) :
    Rewrites (Reaches settings d job) d (runJob settings dryRun d job).disk := by
  have hread : Rewrites (Reaches settings d job) d (afterRead d job) :=
    (after_read_rewrites d job).mono fun _ h => h.elim
  have hran := run_job_ran settings dryRun d job
  generalize (runJob settings dryRun d job).disk = e at hran ⊢
  generalize (runJob settings dryRun d job).value = o at hran
  cases hran with
  | unreadable h => exact hread
  | refused ht hr => exact hread
  | @previewed t m hdry ht hm =>
    have hsteps := shape_steps_rewrites true (afterRead d job) (shapePaths d job m)
    simp only [hread.locate] at hsteps
    exact hread.trans (hsteps.mono fun k hk => ⟨m, ⟨t, ht, hm⟩, Or.inr hk⟩)
  | @unwritten m e hdry hm hw =>
    exact (module_write_rewrites hm).mono fun k hk => ⟨m, hm, Or.inl hk⟩
  | @written m hdry hm hw =>
    have hwrite := module_write_rewrites hm
    have hsteps := shape_steps_rewrites false (moduleWrite d job m).2 (shapePaths d job m)
    simp only [hwrite.locate] at hsteps
    exact (hwrite.mono fun k hk => ⟨m, hm, Or.inl hk⟩).trans
      (hsteps.mono fun k hk => ⟨m, hm, Or.inr hk⟩)

/-! Batches. -/

theorem run_jobs_append (settings : Settings) (dryRun : Bool) (d : Disk) (before after : List Job) :
    (runJobs settings dryRun d (before ++ after)).value =
      (runJobs settings dryRun d before).value ++
        (runJobs settings dryRun (runJobs settings dryRun d before).disk after).value ∧
    (runJobs settings dryRun d (before ++ after)).disk =
      (runJobs settings dryRun (runJobs settings dryRun d before).disk after).disk := by
  induction before generalizing d with
  | nil => exact ⟨rfl, rfl⟩
  | cons j js ih =>
    obtain ⟨hvalue, hdisk⟩ := ih (runJob settings dryRun d j).disk
    simp only [List.cons_append, runJobs]
    exact ⟨by rw [hvalue], hdisk⟩

/-- The job of a batch and the disk that it begins with. -/
def Meets (settings : Settings) (dryRun : Bool) (d : Disk) (jobs : List Job) (job : Job)
    (e : Disk) : Prop :=
  ∃ before after, jobs = before ++ job :: after ∧ e = (runJobs settings dryRun d before).disk

theorem meets_head (settings : Settings) (dryRun : Bool) (d : Disk) (job : Job) (jobs : List Job) :
    Meets settings dryRun d (job :: jobs) job d := ⟨[], jobs, rfl, rfl⟩

theorem meets_tail {jobs : List Job} {j : Job} {e : Disk}
    (h : Meets settings dryRun (runJob settings dryRun d j).disk jobs job e) :
    Meets settings dryRun d (j :: jobs) job e := by
  obtain ⟨before, after, rfl, rfl⟩ := h
  exact ⟨j :: before, after, rfl, rfl⟩

/-- A batch keeps the directories and the set of files. -/
theorem run_jobs_rewrites (settings : Settings) (dryRun : Bool) (d : Disk) (jobs : List Job) :
    Rewrites (fun _ => True) d (runJobs settings dryRun d jobs).disk := by
  induction jobs generalizing d with
  | nil => exact Rewrites.refl _ d
  | cons j js ih =>
    exact ((run_job_rewrites settings dryRun d j).mono fun _ _ => trivial).trans (ih _)

end Batch
end Restage
