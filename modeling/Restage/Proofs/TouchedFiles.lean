import Restage.Proofs.JobSteps
import Restage.Proofs.Splitting

/-!
The files that a batch may change. Each of them is the source of a job that migrates, or a shape
file that such a source names and that held records when it was first written to
(`run_touches`). No file or directory comes or goes.
-/

set_option autoImplicit false

namespace Restage

open CommandLine (Job)

/-- The files of a disk whose key and content a condition holds of. -/
def Disk.Holding (cause : Key → Bytes → Prop) (d : Disk) (k : Key) : Prop :=
  ∃ b, d.tree.node? k = some (.file b) ∧ cause k b

/-- A file that two changes touch was as the first one found it. -/
theorem Rewrites.first {cause : Key → Bytes → Prop} {d e f : Disk}
    (h : Rewrites (d.Holding cause) d e) (g : Rewrites (e.Holding cause) e f) :
    Rewrites (d.Holding cause) d f := by
  refine ⟨g.cwd.trans h.cwd, g.readFault.trans h.readFault, g.writeFault.trans h.writeFault, ?_⟩
  intro k
  rcases h.nodes k with hsame | ⟨hcause, b, b', hb, hb'⟩
  · rcases g.nodes k with hkeep | ⟨⟨x, hx, hcause⟩, c, c', hc, hc'⟩
    · exact Or.inl (hkeep.trans hsame)
    · exact Or.inr ⟨⟨x, hsame ▸ hx, hcause⟩, c, c', hsame ▸ hc, hc'⟩
  · rcases g.nodes k with hkeep | ⟨_, c, c', hc, hc'⟩
    · exact Or.inr ⟨hcause, b, b', hb, hkeep.trans hb'⟩
    · exact Or.inr ⟨hcause, b, c', hb, hc'⟩

namespace Shape

theorem records_from_length {i : Nat} {vs : List Json.Value} {rs : List (Record Json.Value)}
    (h : Shapes.recordsFrom i vs = .ok rs) : rs.length = vs.length := by
  induction vs generalizing i rs with
  | nil =>
    rw [Shapes.recordsFrom, Except.ok.injEq] at h
    rw [← h]
    rfl
  | cons v vs ih =>
    cases v with
    | arr items =>
      rw [Shapes.recordsFrom] at h
      cases hr : Shapes.recordsFrom (i + 1) vs with
      | error x => simp [hr, Except.map] at h
      | ok rest =>
        simp only [hr, Except.map, Except.ok.injEq] at h
        rw [← h, List.length_cons, List.length_cons, ih hr]
    | _ => simp [Shapes.recordsFrom] at h

/-- A shape file that is read has records. -/
theorem parse_lengths {f : Format} {t : Text} {s : Shapes} (h : Shapes.parse f t = .ok s) :
    s.lengths ≠ [] := by
  cases f with
  | txt =>
    rw [Shapes.parse, Except.ok.injEq] at h
    obtain ⟨w, ws, hw, _⟩ := Text.split_tail (p := (· == '\n')) (u := []) (by simp) t
    rw [← h, Shapes.ofText, Text.split_on_where, hw]
    simp [Shapes.lengths]
  | json =>
    rw [Shapes.parse] at h
    cases hv : Json.parse t with
    | error x => simp [hv] at h
    | ok v =>
      simp only [hv] at h
      match v, h with
      | .arr (v :: vs), h =>
        rw [Shapes.ofValue] at h
        cases hr : Shapes.recordsFrom 0 (v :: vs) with
        | error x => simp [hr, Except.map] at h
        | ok rs =>
          simp only [hr, Except.map, Except.ok.injEq] at h
          have hlength := records_from_length hr
          rw [← h]
          intro hnil
          simp [Shapes.lengths] at hnil
          simp [hnil] at hlength

/-- A content that is migrated under a path: UTF-8 text that holds at least one record, under a
name with one of the two extensions. -/
def Migratable (p : Path) (b : Bytes) : Prop :=
  ∃ f t s, Format.ofPath p = .ok f ∧ textOfBytes b = .ok t ∧ Shapes.parse f t = .ok s ∧
    s.lengths ≠ []

theorem load_migratable {d : Disk} {p : Path} {s : Shapes} (h : (load d p).1 = .ok s) :
    ∃ b, d.lookup p = .ok b ∧ Migratable p b := by
  rw [load] at h
  cases hf : Format.ofPath p with
  | error x => simp [hf] at h
  | ok f =>
    simp only [hf] at h
    cases hr : (d.readText p).1 with
    | error x => cases x <;> simp [hr, ofRead] at h
    | ok t =>
      obtain ⟨b, hb, ht⟩ := Disk.read_text_ok hr
      refine ⟨b, hb, f, t, s, hf, ht, ?_⟩
      cases hs : Shapes.parse f t with
      | error x => simp [hr, ofRead, hs, Except.mapError] at h
      | ok s' =>
        simp only [hr, ofRead, hs, Except.mapError, Except.ok.injEq] at h
        subst h
        exact ⟨rfl, parse_lengths hs⟩

/-- The one file that a path denotes, where the run is not dry and the content is migrated. -/
def Written (dryRun : Bool) (d : Disk) (p : Path) (k : Key) (b : Bytes) : Prop :=
  dryRun = false ∧ d.locate p = .ok k ∧ Migratable p b

theorem migrate_file_touches (d : Disk) (p : Path) (dryRun : Bool) :
    Rewrites (d.Holding (Written dryRun d p)) d (migrateFile d p dryRun).2 := by
  have hread : Rewrites (d.Holding (Written dryRun d p)) d (load d p).2 :=
    (load_rewrites d p).mono fun _ h => h.elim
  cases hl : (load d p).1 with
  | error x =>
    rw [migrate_file_unread hl]
    exact hread
  | ok s =>
    cases dryRun with
    | true =>
      rw [migrate_file_dry hl]
      exact hread
    | false =>
      obtain ⟨b, hb, hmigratable⟩ := load_migratable hl
      refine (migrate_file_rewrites d p false).mono fun k hk => ?_
      obtain ⟨j, hj, hn⟩ := Disk.lookup_ok_iff.1 hb
      rw [hk, Except.ok.injEq] at hj
      exact ⟨b, hj ▸ hn, rfl, hk, hmigratable⟩

end Shape

namespace Batch

variable {settings : Settings} {dryRun : Bool}

/-- A shape file among some paths that is written to. -/
def Named (dryRun : Bool) (d : Disk) (ps : List Path) (k : Key) (b : Bytes) : Prop :=
  ∃ p ∈ ps, Shape.Written dryRun d p k b

theorem shape_steps_touch (dryRun : Bool) (d : Disk) (ps : List Path) :
    Rewrites (d.Holding (Named dryRun d ps)) d (shapeSteps dryRun d ps).disk := by
  induction ps generalizing d with
  | nil => exact Rewrites.refl _ d
  | cons p ps ih =>
    have hstep : Rewrites (d.Holding (Named dryRun d (p :: ps))) d (shapeStep d p dryRun).disk := by
      have h := Shape.migrate_file_touches d p dryRun
      have hmono : Rewrites (d.Holding (Named dryRun d (p :: ps))) d
          (Shape.migrateFile d p dryRun).2 := by
        refine h.mono ?_
        rintro k ⟨b, hb, hw⟩
        exact ⟨b, hb, p, by simp, hw⟩
      rw [shapeStep]
      split <;> next heq => rw [heq] at hmono; exact hmono
    have hrest := ih (shapeStep d p dryRun).disk
    rw [shapeSteps]
    refine hstep.first (hrest.mono ?_)
    rintro k ⟨b, hb, q, hq, hdry, hk, hm⟩
    exact ⟨b, hb, q, by simp [hq], hdry, hstep.locate q ▸ hk, hm⟩

/-- What a job may write to, unless the run is dry: its source, if that migrates, and the shape
files that the source names, if they hold records. -/
def JobTouches (settings : Settings) (dryRun : Bool) (d : Disk) (job : Job) (k : Key)
    (b : Bytes) : Prop :=
  dryRun = false ∧ ∃ m, Yields settings d job m ∧ (d.locate (source d job) = .ok k ∨
    ∃ p ∈ shapePaths d job m, d.locate p = .ok k ∧ Shape.Migratable p b)

theorem module_write_touches {d : Disk} {job : Job} {m : Migration} (hdry : dryRun = false)
    (hm : Yields settings d job m) :
    Rewrites (d.Holding (JobTouches settings dryRun d job)) d (moduleWrite d job m).2 := by
  refine (module_write_rewrites hm).mono fun k hk => ?_
  obtain ⟨b, hb⟩ := yields_lookup hm
  have hread := after_read_rewrites d job
  obtain ⟨j, hj, hn⟩ := Disk.lookup_ok_iff.1 hb
  rw [hread.locate, hk, Except.ok.injEq] at hj
  rw [afterRead, Disk.read_text_counts] at hn
  exact ⟨b, hj ▸ hn, hdry, m, hm, Or.inl hk⟩

theorem run_job_touches (settings : Settings) (dryRun : Bool) (d : Disk) (job : Job) :
    Rewrites (d.Holding (JobTouches settings dryRun d job)) d
      (runJob settings dryRun d job).disk := by
  have hread : Rewrites (d.Holding (JobTouches settings dryRun d job)) d (afterRead d job) :=
    (after_read_rewrites d job).mono fun _ h => h.elim
  have hran := run_job_ran settings dryRun d job
  generalize (runJob settings dryRun d job).disk = e at hran ⊢
  generalize (runJob settings dryRun d job).value = o at hran
  cases hran with
  | unreadable h => exact hread
  | refused ht hr => exact hread
  | @previewed t m hdry ht hm =>
    refine hread.first ((shape_steps_touch true _ _).mono ?_)
    rintro k ⟨b, hb, p, hp, hfalse, _⟩
    simp at hfalse
  | unwritten hdry hm hw => exact module_write_touches hdry hm
  | @written m hdry hm hw =>
    have hwrite := module_write_touches hdry hm
    refine hwrite.first ((shape_steps_touch false _ _).mono ?_)
    rintro k ⟨b, hb, p, hp, _, hk, hmigratable⟩
    exact ⟨b, hb, hdry, m, hm, Or.inr ⟨p, hp, hwrite.locate p ▸ hk, hmigratable⟩⟩

/-- What a batch may write to: what one of its jobs may, on the disk that the job begins with. The
sources and the shape files are those of the first disk. -/
def Touches (settings : Settings) (dryRun : Bool) (d : Disk) (jobs : List Job) (k : Key)
    (b : Bytes) : Prop :=
  dryRun = false ∧ ∃ job e m, Meets settings dryRun d jobs job e ∧ Yields settings e job m ∧
    (d.locate (source d job) = .ok k ∨
      ∃ p ∈ shapePaths d job m, d.locate p = .ok k ∧ Shape.Migratable p b)

theorem run_jobs_touches (settings : Settings) (dryRun : Bool) (d : Disk) (jobs : List Job) :
    Rewrites (d.Holding (Touches settings dryRun d jobs)) d
      (runJobs settings dryRun d jobs).disk := by
  induction jobs generalizing d with
  | nil => exact Rewrites.refl _ d
  | cons j js ih =>
    have hjob : Rewrites (d.Holding (Touches settings dryRun d (j :: js))) d
        (runJob settings dryRun d j).disk := by
      refine (run_job_touches settings dryRun d j).mono ?_
      rintro k ⟨b, hb, hdry, m, hm, hcause⟩
      exact ⟨b, hb, hdry, j, d, m, meets_head settings dryRun d j js, hm, hcause⟩
    refine hjob.first ((ih _).mono ?_)
    rintro k ⟨b, hb, hdry, job, e, m, hmeets, hm, hcause⟩
    have hsource : source (runJob settings dryRun d j).disk job = source d job := by
      rw [source, hjob.cwd, source]
    simp only [shapePaths, hsource, hjob.locate] at hcause
    exact ⟨b, hb, hdry, job, e, m, meets_tail hmeets, hm, hcause⟩

/-- A batch creates and deletes nothing. A file that it changes is the source of a job that
migrated at its turn, or a shape file of such a source that held records. -/
theorem run_touches (settings : Settings) (dryRun : Bool) (d : Disk) (jobs : List Job) :
    let left := (run settings dryRun d jobs).disk
    (∀ k, (∃ b, left.tree.node? k = some (.file b)) ↔ ∃ b, d.tree.node? k = some (.file b)) ∧
    (∀ k, left.tree.node? k = some .directory ↔ d.tree.node? k = some .directory) ∧
    ∀ k, left.tree.node? k = d.tree.node? k ∨ d.Holding (Touches settings dryRun d jobs) k := by
  intro left
  have hnodes : ∀ k, left.tree.node? k = d.tree.node? k ∨
      d.Holding (Touches settings dryRun d jobs) k ∧ ∃ b c, d.tree.node? k = some (.file b) ∧
        left.tree.node? k = some (.file c) := (run_jobs_touches settings dryRun d jobs).nodes
  refine ⟨fun k => ?_, fun k => ?_, fun k => (hnodes k).imp_right And.left⟩
  · rcases hnodes k with h | ⟨_, b, c, hb, hc⟩
    · rw [h]
    · exact ⟨fun _ => ⟨b, hb⟩, fun _ => ⟨c, hc⟩⟩
  · rcases hnodes k with h | ⟨_, b, c, hb, hc⟩
    · rw [h]
    · simp [hb, hc]

end Batch
end Restage
