import Restage.Proofs.JobSteps
import Restage.Proofs.SecondRun

/-!
Files that a batch fails on. Such a file, and a shape file whose migration fails, holds what it
held before, unless a write to it failed after the file was opened: writing goes over the only
copy, so that nothing is left then (`failed_files_kept`).
-/

set_option autoImplicit false

namespace Restage

open CommandLine (Job)

namespace Shape

/-- A shape file that is not migrated is left alone or, after a write that failed in the middle,
left empty. -/
theorem migrate_file_error {d : Disk} {p : Path} {x : FileFault}
    (h : (migrateFile d p false).1.result = .error x) :
    (migrateFile d p false).2.tree = d.tree ∨
      ∃ k errno, d.locate p = .ok k ∧ d.writeFault d.writes = some (.emptied errno) ∧
        (migrateFile d p false).2.tree = d.tree.set k (.file []) := by
  have hload : (load d p).2.tree = d.tree ∧ (load d p).2.writes = d.writes ∧
      (load d p).2.writeFault = d.writeFault := by
    rcases load_disk d p with hl | hl
    · rw [hl]
      exact ⟨rfl, rfl, rfl⟩
    · rw [hl, Disk.read_text_counts]
      exact ⟨rfl, rfl, rfl⟩
  have hlocate := (load_rewrites d p).locate p
  rw [migrateFile] at h ⊢
  cases hl : load d p with
  | mk r e =>
    rw [hl] at hload hlocate
    obtain ⟨htree, hwrites, hfault⟩ := hload
    cases r with
    | error x => exact Or.inl htree
    | ok s =>
      simp only [hl, Bool.false_eq_true, if_false] at h ⊢
      cases hw : e.write p (Utf8.encode s.migrate.dump) with
      | mk w f =>
        cases w with
        | ok u => simp [hw] at h
        | error y =>
          have herror := Disk.write_error (d := e) (p := p)
            (by rw [hw] : (e.write p (Utf8.encode s.migrate.dump)).1 = .error y)
          rw [hw, htree, hwrites, hfault] at herror
          rcases herror with herror | ⟨k, errno, ho, hx, herror⟩
          · exact Or.inl herror
          · exact Or.inr ⟨k, errno, hlocate ▸ Disk.openable_locate ho, hx, herror⟩

end Shape

namespace Batch

/-- A file that no job of a batch migrates, be it as its source or as a shape file of another. -/
structure NeverMigrated (settings : Settings) (d : Disk) (jobs : List Job) (k : Key) : Prop where
  outcomes : ∀ o ∈ (run settings false d jobs).value, d.locate o.path = .ok k →
    o.status = .failed ∨ o.status = .skipped
  shapes : ∀ job e m, Meets settings false d jobs job e → d.locate (source d job) ≠ .ok k →
    Yields settings e job m → ∀ p ∈ shapePaths e job m, d.locate p ≠ .ok k

/-- A write of a module under this key fails after the file was opened. -/
def Truncates (settings : Settings) (d : Disk) (jobs : List Job) (k : Key) : Prop :=
  ∃ job e errno, Meets settings false d jobs job e ∧ d.locate (source d job) = .ok k ∧
    e.writeFault e.writes = some (.emptied errno)

/-- A file under two disks: the same, or empty on the second. -/
def KeptOr (lost : Prop) (d e : Disk) (k : Key) : Prop :=
  e.tree.node? k = d.tree.node? k ∨ e.tree.node? k = some (.file []) ∧ lost

variable {settings : Settings} {d : Disk} {jobs : List Job} {k : Key}

theorem run_job_source (settings : Settings) (dryRun : Bool) (d : Disk) (j job : Job) :
    source (runJob settings dryRun d j).disk job = source d job := by
  rw [source, (run_job_rewrites settings dryRun d j).cwd, source]

/-- A job that does not migrate the file under a key keeps it or empties it. -/
theorem run_job_kept {job : Job}
    (hstatus : d.locate (source d job) = .ok k →
      (runJob settings false d job).value.status ≠ .migrated)
    (hshapes : d.locate (source d job) ≠ .ok k →
      ∀ m, Yields settings d job m → ∀ p ∈ shapePaths d job m, d.locate p ≠ .ok k) :
    KeptOr (d.locate (source d job) = .ok k ∧ ∃ errno, d.writeFault d.writes =
      some (.emptied errno)) d (runJob settings false d job).disk k := by
  by_cases hk : d.locate (source d job) = .ok k
  · have hstatus := hstatus hk
    have hran := run_job_ran settings false d job
    generalize (runJob settings false d job).disk = e at hran ⊢
    generalize (runJob settings false d job).value = o at hran hstatus
    have hread : (afterRead d job).tree = d.tree ∧ (afterRead d job).writes = d.writes ∧
        (afterRead d job).writeFault = d.writeFault := by
      rw [afterRead, Disk.read_text_counts]
      exact ⟨rfl, rfl, rfl⟩
    obtain ⟨htree, hwrites, hfault⟩ := hread
    cases hran with
    | unreadable h => exact Or.inl (by rw [htree])
    | refused ht hr => exact Or.inl (by rw [htree])
    | previewed hdry => simp at hdry
    | @unwritten m x hdry hm hw =>
      have herror := Disk.write_error hw
      rw [htree, hwrites, hfault] at herror
      rcases herror with herror | ⟨j, errno, ho, hx, herror⟩
      · exact Or.inl (by rw [← herror]; rfl)
      · have hj := Disk.openable_locate ho
        rw [(after_read_rewrites d job).locate, hk, Except.ok.injEq] at hj
        subst hj
        obtain ⟨b, hb⟩ := yields_lookup hm
        have hfile := Disk.openable_of_lookup hb ho
        have hroot : k ≠ [] := by
          rintro rfl
          simp [Tree.node_root] at hfile
        refine Or.inr ⟨?_, hk, errno, hx⟩
        rw [show (moduleWrite d job m).2.tree = d.tree.set k (.file []) from herror,
          Tree.node_set _ hroot, if_pos rfl]
    | written hdry hm hw => exact absurd rfl hstatus
  · rcases (run_job_rewrites settings false d job).nodes k with h | ⟨⟨m, hm, hreach⟩, _⟩
    · exact Or.inl h
    · rcases hreach with hsource | ⟨p, hp, hpk⟩
      · exact absurd hsource hk
      · exact absurd hpk (hshapes hk m hm p hp)

/-- A batch keeps or empties a file that it never migrates. -/
theorem run_jobs_kept (hnever : NeverMigrated settings d jobs k) :
    KeptOr (Truncates settings d jobs k) d (runJobs settings false d jobs).disk k := by
  induction jobs generalizing d with
  | nil => exact Or.inl rfl
  | cons j js ih =>
    have hrewrites := run_job_rewrites settings false d j
    have hsource := run_job_source settings false d j
    have hstep : KeptOr (Truncates settings d (j :: js) k) d
        (runJob settings false d j).disk k := by
      refine (run_job_kept ?_ ?_).imp_right fun ⟨hempty, hk, errno, hx⟩ =>
        ⟨hempty, j, d, errno, meets_head settings false d j js, hk, hx⟩
      · intro hk
        have := hnever.outcomes _ (List.mem_cons_self) (by rw [run_job_path]; exact hk)
        rcases this with h | h <;> rw [h] <;> decide
      · exact fun hk m hm => hnever.shapes j d m (meets_head settings false d j js) hk hm
    have hrest : KeptOr (Truncates settings (runJob settings false d j).disk js k)
        (runJob settings false d j).disk
        (runJobs settings false (runJob settings false d j).disk js).disk k := by
      refine ih ⟨fun o ho hk => ?_, fun job e m hmeets hk hm p hp => ?_⟩
      · exact hnever.outcomes o (List.mem_cons_of_mem _ ho) (by rw [← hrewrites.locate]; exact hk)
      · rw [hrewrites.locate] at hk ⊢
        rw [hsource] at hk
        exact hnever.shapes job e m (meets_tail hmeets) hk hm p hp
    have htail : Truncates settings (runJob settings false d j).disk js k →
        Truncates settings d (j :: js) k := by
      rintro ⟨job, e, errno, hmeets, hk, hx⟩
      rw [hsource, hrewrites.locate] at hk
      exact ⟨job, e, errno, meets_tail hmeets, hk, hx⟩
    rcases hrest with hrest | ⟨hempty, hlost⟩
    · rcases hstep with hstep | ⟨hempty, hlost⟩
      · exact Or.inl (hrest.trans hstep)
      · exact Or.inr ⟨hrest.trans hempty, hlost⟩
    · exact Or.inr ⟨hempty, htail hlost⟩

def sampleKey : Key := ["scene.js".toList]

def faultyDisk (f : WriteFault) : Disk := { sampleDisk with writeFault := fun _ => some f }

theorem faulty_locate (f : WriteFault) :
    (faultyDisk f).locate (source (faultyDisk f) sampleJob) = .ok sampleKey := by
  show sampleDisk.locate (source sampleDisk sampleJob) = .ok sampleKey
  decide +kernel

theorem faulty_openable (f : WriteFault) :
    (afterRead (faultyDisk f) sampleJob).openable (source (faultyDisk f) sampleJob) =
      .ok sampleKey := by
  rw [afterRead, Disk.read_text_counts]
  show sampleDisk.openable (source sampleDisk sampleJob) = .ok sampleKey
  decide +kernel

theorem faulty_yields (f : WriteFault) :
    ∃ m, Yields standard (faultyDisk f) sampleJob m ∧ (Utf8.encode m.output).isEmpty = false := by
  obtain ⟨m, hm, hout, _⟩ := sample_migrated (source (faultyDisk f) sampleJob).str
  exact ⟨m, ⟨sampleCore, sample_disk_reads, hm⟩, by rw [hout]; decide +kernel⟩

theorem faulty_fault (f : WriteFault) : (afterRead (faultyDisk f) sampleJob).writeFault
    (afterRead (faultyDisk f) sampleJob).writes = some f := by
  rw [afterRead, Disk.read_text_counts]
  rfl

theorem faulty_write {f : WriteFault} {m : Migration}
    (hsome : (Utf8.encode m.output).isEmpty = false) :
    ∃ e, (moduleWrite (faultyDisk f) sampleJob m).1 = .error e := by
  rw [moduleWrite, Disk.write, faulty_openable, faulty_fault]
  cases f with
  | refused x => exact ⟨_, rfl⟩
  | emptied x => exact ⟨⟨x, none⟩, by simp [hsome]⟩

theorem faulty_never (f : WriteFault) :
    NeverMigrated standard (faultyDisk f) [sampleJob] sampleKey := by
  obtain ⟨m, hm, hsome⟩ := faulty_yields f
  obtain ⟨e, hw⟩ := faulty_write (f := f) hsome
  refine ⟨fun o ho _ => ?_, fun job e m' hmeets hk => ?_⟩
  · rw [(run_single _ _ _ _).1, List.mem_singleton] at ho
    rw [ho]
    exact Or.inl (run_job_unwritten hm hw).1
  · obtain ⟨before, after, hsplit, _⟩ := hmeets
    have hjob : job ∈ [sampleJob] := by simp [hsplit]
    rw [List.mem_singleton.1 hjob] at hk
    exact absurd (faulty_locate f) hk

end Batch
end Restage
