import Restage.Proofs.FaultlessDisk
import Restage.Proofs.Outcome

/-!
Jobs that do not reach each other's sources. On a disk where nothing fails by itself, the outcome
of such a job is a function of the disk that the batch begins with (`foreseen`), and so is what the
batch leaves under each key (`Left`), in whatever order the jobs run and however often they migrate
the same shape file.
-/

set_option autoImplicit false

namespace Restage

open CommandLine (Job)
open Shape (loads Denotes settled Ripens)

namespace Batch

/-! Shape files in a row. -/

theorem shape_step_file (d : Disk) (p : Path) (dryRun : Bool) :
    (shapeStep d p dryRun).value = (Shape.migrateFile d p dryRun).1.result.isOk ∧
      (shapeStep d p dryRun).disk = (Shape.migrateFile d p dryRun).2 := by
  rw [shapeStep]
  split <;> next heq => rw [heq]; exact ⟨rfl, rfl⟩

theorem migrate_file_dry_tree (d : Disk) (p : Path) :
    (Shape.migrateFile d p true).2.tree = d.tree := by
  cases hl : (Shape.load d p).1 with
  | error x => rw [Shape.migrate_file_unread hl, Shape.load_tree]
  | ok s => rw [Shape.migrate_file_dry hl, Shape.load_tree]

theorem shape_steps_dry (d : Disk) (ps : List Path) :
    (shapeSteps true d ps).disk.tree = d.tree := by
  induction ps generalizing d with
  | nil => rfl
  | cons p ps ih => rw [shapeSteps, ih, (shape_step_file d p true).2, migrate_file_dry_tree]

section

variable {d : Disk} (hd : d.Faultless)
include hd

theorem shape_step_loads (p : Path) (dryRun : Bool) (q : Path) :
    loads (shapeStep d p dryRun).disk q = loads d q := by
  refine Shape.loads_of_node ((shape_step_rewrites d p dryRun).locate q) fun k _ => ?_
  rw [(shape_step_file d p dryRun).2]
  cases dryRun with
  | true => exact Or.inl (by rw [migrate_file_dry_tree])
  | false =>
    rcases Shape.migrate_file_ripens hd p k with ⟨f, hf, hn⟩ | ⟨_, hn⟩
    · exact Or.inr ⟨p, f, hf, hn⟩
    · exact Or.inl hn

/-- The shape files that are migrated are those that can be read, also where one is named twice. -/
theorem shape_steps_value (dryRun : Bool) (ps : List Path) :
    (shapeSteps dryRun d ps).value = ps.filter (loads d) := by
  induction ps generalizing d with
  | nil => rfl
  | cons p ps ih =>
    have hstep := shape_step_rewrites d p dryRun
    rw [shapeSteps, List.filter_cons]
    simp only [ih (hd.rewrites hstep), (shape_step_file d p dryRun).1,
      Shape.migrate_file_ok hd p dryRun]
    rw [List.filter_congr fun q _ => shape_step_loads hd p dryRun q]

theorem shape_steps_ripen (ps : List Path) (k : Key) :
    Ripens (fun f => ∃ p ∈ ps, Denotes d p f k) (d.tree.node? k)
      ((shapeSteps false d ps).disk.tree.node? k) := by
  induction ps generalizing d with
  | nil => exact Or.inr ⟨by simp, rfl⟩
  | cons p ps ih =>
    have hrewrites := shape_step_rewrites d p false
    have hstep := Shape.migrate_file_ripens hd p k
    rw [← (shape_step_file d p false).2] at hstep
    have hrest := ih (hd.rewrites hrewrites)
    simp only [Denotes, hrewrites.locate] at hrest
    have hboth := hstep.trans (fun f g hf ⟨q, _, hq⟩ => Shape.denotes_format hf hq) hrest
    rw [shapeSteps]
    simp only [List.exists_mem_cons_iff]
    exact hboth

end

/-! One job. -/

variable {settings : Settings}

/-- The outcome of a job, as the disk it begins with has it: the shape files that are migrated are
those that can be read. -/
def foreseen (settings : Settings) (dryRun : Bool) (d : Disk) (job : Job) : Outcome :=
  match d.textAt (source d job) with
  | .error e => .ended (source d job) job.mode .failed e.message
  | .ok t =>
    match (migrate settings (source d job).str job.mode t).result with
    | .error r => .ended (source d job) job.mode .skipped r.message
    | .ok m =>
      { Outcome.ofMigration (source d job) job.mode m with
        shapeFiles := (shapePaths d job m).filter (loads d)
        diff := if dryRun then some (diffOf (source d job) t m.output) else none }

/-- A migrated source is none of the shape files that it names. -/
def NotOwnShape (settings : Settings) (d : Disk) (job : Job) : Prop :=
  ∀ m, Yields settings d job m → ∀ p ∈ shapePaths d job m, ∀ k, d.locate p = .ok k →
    d.locate (source d job) ≠ .ok k

theorem module_write_loads {d : Disk} {job : Job} {m : Migration} (hm : Yields settings d job m)
    (hown : NotOwnShape settings d job) {p : Path} (hp : p ∈ shapePaths d job m) :
    loads (moduleWrite d job m).2 p = loads d p := by
  refine Shape.loads_of_node ((module_write_rewrites hm).locate p) fun k hk => Or.inl ?_
  rcases (module_write_rewrites hm).nodes k with h | ⟨h, _⟩
  · exact h
  · exact absurd h (hown m hm p hp k hk)

theorem yields_unique {d : Disk} {job : Job} {m m' : Migration} (h : Yields settings d job m)
    (h' : Yields settings d job m') : m = m' := by
  obtain ⟨t, ht, hm⟩ := h
  obtain ⟨t', ht', hm'⟩ := h'
  rw [ht, Except.ok.injEq] at ht'
  subst ht'
  rw [hm, Except.ok.injEq] at hm'
  exact hm'

theorem foreseen_yields {d : Disk} (hd : d.Faultless) {job : Job} {m : Migration}
    (hm : Yields settings d job m) : foreseen settings false d job =
      { Outcome.ofMigration (source d job) job.mode m with
        shapeFiles := (shapePaths d job m).filter (loads d) } := by
  obtain ⟨t, ht, hr⟩ := hm
  rw [Disk.read_text_faultless hd] at ht
  simp only [foreseen, ht, hr, Bool.false_eq_true, if_false]
  rfl

section

variable {d : Disk} (hd : d.Faultless) {job : Job}
include hd

/-- The module of a migrated source is written. -/
theorem module_write_faultless {m : Migration} (hm : Yields settings d job m) :
    ∃ k b, d.locate (source d job) = .ok k ∧ d.tree.node? k = some (.file b) ∧
      (moduleWrite d job m).1 = .ok () ∧
      (moduleWrite d job m).2.tree = d.tree.set k (.file (Utf8.encode m.output)) := by
  have hread := after_read_rewrites d job
  obtain ⟨b, hb⟩ := yields_lookup hm
  obtain ⟨k, hk, hn⟩ := Disk.lookup_ok_iff.1 hb
  have hwrite := Disk.write_faultless (hd.rewrites hread) hk hn (Utf8.encode m.output)
  have htree : (afterRead d job).tree = d.tree := by rw [afterRead, Disk.read_text_counts]
  rw [hread.locate] at hk
  rw [htree] at hn hwrite
  exact ⟨k, b, hk, hn, by rw [moduleWrite, hwrite], by rw [moduleWrite, hwrite]⟩

/-- A job ends as foreseen. -/
theorem run_job_foreseen (dryRun : Bool) (hown : NotOwnShape settings d job) :
    (runJob settings dryRun d job).value = foreseen settings dryRun d job := by
  have hran := run_job_ran settings dryRun d job
  generalize (runJob settings dryRun d job).disk = e at hran
  generalize (runJob settings dryRun d job).value = o at hran ⊢
  have htext := Disk.read_text_faultless hd (source d job)
  cases hran with
  | unreadable h =>
    rw [htext] at h
    simp only [foreseen, h]
  | refused ht hr =>
    rw [htext] at ht
    simp only [foreseen, ht, hr]
  | @previewed t m hdry ht hm =>
    have hread := after_read_rewrites d job
    have hloads : loads (afterRead d job) = loads d := funext fun p => by
      refine Shape.loads_of_node (hread.locate p) fun k _ => Or.inl ?_
      rw [afterRead, Disk.read_text_counts]
    rw [htext] at ht
    rw [shape_steps_value (hd.rewrites hread), hloads]
    simp only [foreseen, ht, hm, hdry, if_true]
  | unwritten hdry hm hw =>
    obtain ⟨k, b, _, _, hok, _⟩ := module_write_faultless hd hm
    rw [hok] at hw
    simp at hw
  | @written m hdry hm hw =>
    subst hdry
    rw [foreseen_yields hd hm, shape_steps_value (hd.rewrites (module_write_rewrites hm)),
      List.filter_congr fun p hp => module_write_loads hm hown hp]

end

/-- What a batch leaves under a key: a module, shapes that were migrated, or what was there. -/
inductive Left (settings : Settings) (d : Disk) (jobs : List Job) (k : Key) : Option Node → Prop
  | module {job : Job} {m : Migration} (hjob : job ∈ jobs) (hm : Yields settings d job m)
      (hk : d.locate (source d job) = .ok k) :
    Left settings d jobs k (some (.file (Utf8.encode m.output)))
  | shape {job : Job} {m : Migration} {p : Path} {f : Shape.Format} (hjob : job ∈ jobs)
      (hm : Yields settings d job m) (hp : p ∈ shapePaths d job m) (hk : Denotes d p f k) :
    Left settings d jobs k (settled f (d.tree.node? k))
  | kept (hsource : ∀ job ∈ jobs, ∀ m, Yields settings d job m →
        d.locate (source d job) ≠ .ok k)
      (hshape : ∀ job ∈ jobs, ∀ m, Yields settings d job m → ∀ p ∈ shapePaths d job m, ∀ f,
        ¬ Denotes d p f k) :
    Left settings d jobs k (d.tree.node? k)

theorem left_kept {d e : Disk} {jobs : List Job} {k : Key}
    (hnone : ∀ job ∈ jobs, ∀ m, ¬ Yields settings d job m) (htree : e.tree = d.tree) :
    Left settings d jobs k (e.tree.node? k) := by
  rw [htree]
  exact .kept (fun job hjob m hm => absurd hm (hnone job hjob m))
    fun job hjob m hm => absurd hm (hnone job hjob m)

/-- What one job leaves. -/
theorem run_job_left {d : Disk} (hd : d.Faultless) {job : Job} (hown : NotOwnShape settings d job)
    (k : Key) : Left settings d [job] k ((runJob settings false d job).disk.tree.node? k) := by
  have hran := run_job_ran settings false d job
  generalize (runJob settings false d job).disk = e at hran ⊢
  generalize (runJob settings false d job).value = o at hran
  have hread : (afterRead d job).tree = d.tree := by rw [afterRead, Disk.read_text_counts]
  cases hran with
  | unreadable h =>
    refine left_kept ?_ hread
    rintro j hj m ⟨t, ht, _⟩
    rw [List.mem_singleton.1 hj, h] at ht
    simp at ht
  | refused ht hr =>
    refine left_kept ?_ hread
    rintro j hj m ⟨t, ht', hm⟩
    rw [List.mem_singleton.1 hj] at ht' hm
    rw [ht, Except.ok.injEq] at ht'
    subst ht'
    simp [hr] at hm
  | previewed hdry => simp at hdry
  | unwritten hdry hm hw =>
    obtain ⟨_, _, _, _, hok, _⟩ := module_write_faultless hd hm
    rw [hok] at hw
    simp at hw
  | @written m hdry hm hw =>
    obtain ⟨j, b, hj, hn, _, htree⟩ := module_write_faultless hd hm
    have hwrites := module_write_rewrites hm
    have hroot : j ≠ [] := by
      rintro rfl
      simp [Tree.node_root] at hn
    have hripens := shape_steps_ripen (hd.rewrites hwrites) (shapePaths d job m) k
    simp only [Denotes, hwrites.locate, htree, Tree.node_set _ hroot] at hripens
    rcases hripens with ⟨f, ⟨p, hp, hf⟩, hsettled⟩ | ⟨hnone, hsame⟩
    · have hkj : k ≠ j := by
        rintro rfl
        exact hown m hm p hp k hf.2 hj
      rw [hsettled, if_neg hkj]
      exact .shape (List.mem_singleton_self job) hm hp hf
    · by_cases hkj : k = j
      · rw [hsame, if_pos hkj]
        exact .module (List.mem_singleton_self job) hm (hkj ▸ hj)
      · rw [hsame, if_neg hkj]
        refine .kept (fun i hi m' hm' hk => hkj ?_) fun i hi m' hm' p hp f hf => ?_
        · rw [List.mem_singleton.1 hi, hj] at hk
          exact (Except.ok.inj hk).symm
        · rw [List.mem_singleton.1 hi] at hm' hp
          obtain rfl := yields_unique hm hm'
          exact hnone f ⟨p, hp, hf⟩

/-! Batches. -/

/-- Two jobs on different files. -/
def Separate (d : Disk) (i j : Job) : Prop :=
  ∀ k, d.locate (source d i) = .ok k → d.locate (source d j) ≠ .ok k

instance (d : Disk) : Std.Symm (Separate d) := ⟨fun _ _ h k hj hi => h k hi hj⟩

/-- The jobs denote different files, and none of these is a shape file that a migrated source
names. -/
structure Apart (settings : Settings) (d : Disk) (jobs : List Job) : Prop where
  sources : jobs.Pairwise (Separate d)
  shapes : ∀ i ∈ jobs, ∀ m, Yields settings d i m → ∀ p ∈ shapePaths d i m, ∀ j ∈ jobs, ∀ k,
    d.locate p = .ok k → d.locate (source d j) ≠ .ok k

/-- A disk on the way through a batch that began with `d` and has run some jobs. -/
structure Partway (settings : Settings) (dryRun : Bool) (d : Disk) (jobs : List Job) (e : Disk) :
    Prop where
  rewrites : Rewrites (fun _ => True) d e
  dry : dryRun = true → e.tree = d.tree
  real : dryRun = false → ∀ k, Left settings d jobs k (e.tree.node? k)

section

variable {d e : Disk} {dryRun : Bool} {jobs : List Job} {job : Job}
  (happart : Apart settings d (jobs ++ [job])) (hpart : Partway settings dryRun d jobs e)
include hpart

theorem partway_nodes (k : Key) :
    Left settings d jobs k (e.tree.node? k) ∨ e.tree.node? k = d.tree.node? k := by
  cases dryRun with
  | true => exact Or.inr (by rw [hpart.dry rfl])
  | false => exact Or.inl (hpart.real rfl k)

theorem partway_source (job : Job) : source e job = source d job := by
  rw [source, source, hpart.rewrites.cwd]

theorem partway_paths (job : Job) (m : Migration) : shapePaths e job m = shapePaths d job m := by
  rw [shapePaths, shapePaths, partway_source hpart]

include happart

/-- The source of the next job is as it was. -/
theorem source_kept {k : Key} (hk : d.locate (source d job) = .ok k) :
    e.tree.node? k = d.tree.node? k := by
  rcases partway_nodes hpart k with hleft | hsame
  · generalize e.tree.node? k = n at hleft ⊢
    cases hleft with
    | @module i m hi hm hi' =>
      have hpair := (List.pairwise_append.1 happart.sources).2.2 i hi job (by simp)
      exact absurd hk (hpair k hi')
    | @shape i m p f hi hm hp hf =>
      exact absurd hk (happart.shapes i (by simp [hi]) m hm p hp job (by simp) k hf.2)
    | kept => rfl
  · exact hsame

/-- The shape files of the next job are as they were, or migrated. -/
theorem shape_kept {m : Migration} (hm : Yields settings d job m) {p : Path}
    (hp : p ∈ shapePaths d job m) : loads e p = loads d p := by
  refine Shape.loads_of_node (hpart.rewrites.locate p) fun k hk => ?_
  rcases partway_nodes hpart k with hleft | hsame
  · generalize e.tree.node? k = n at hleft ⊢
    cases hleft with
    | @module i m' hi hm' hi' =>
      exact absurd hi' (happart.shapes job (by simp) m hm p hp i (by simp [hi]) k hk)
    | @shape i m' q f hi hm' hq hf => exact Or.inr ⟨q, f, hf, rfl⟩
    | kept => exact Or.inl rfl
  · exact Or.inl hsame

theorem text_kept : e.textAt (source d job) = d.textAt (source d job) := by
  have hlookup : e.lookup (source d job) = d.lookup (source d job) := by
    rw [Disk.lookup, Disk.lookup, hpart.rewrites.locate]
    cases hk : d.locate (source d job) with
    | error x => rfl
    | ok k => simp only [bind, Except.bind, source_kept happart hpart hk]
  rw [Disk.textAt, Disk.textAt, hlookup]

variable (hd : d.Faultless)
include hd

theorem yields_kept (m : Migration) : Yields settings e job m ↔ Yields settings d job m := by
  rw [Yields, Yields, partway_source hpart, Disk.read_text_faultless hd,
    Disk.read_text_faultless (hd.rewrites hpart.rewrites), text_kept happart hpart]

/-- The next job ends as foreseen at the beginning of the batch. -/
theorem foreseen_kept : foreseen settings dryRun e job = foreseen settings dryRun d job := by
  rw [foreseen, foreseen, partway_source hpart, text_kept happart hpart]
  cases ht : d.textAt (source d job) with
  | error x => rfl
  | ok t =>
    simp only
    cases hm : (migrate settings (source d job).str job.mode t).result with
    | error r => rfl
    | ok m =>
      have hyields : Yields settings d job m := ⟨t, by rw [Disk.read_text_faultless hd, ht], hm⟩
      simp only [partway_paths hpart,
        List.filter_congr fun p hp => shape_kept happart hpart hyields hp]

theorem own_kept : NotOwnShape settings e job := by
  intro m hm p hp k hk
  rw [partway_source hpart, hpart.rewrites.locate]
  rw [yields_kept happart hpart hd] at hm
  rw [partway_paths hpart] at hp
  rw [hpart.rewrites.locate] at hk
  exact happart.shapes job (by simp) m hm p hp job (by simp) k hk

/-- What the next job leaves, in terms of the beginning of the batch. -/
theorem left_step {k : Key} {n : Option Node} (hreal : dryRun = false)
    (h : Left settings e [job] k n) : Left settings d (jobs ++ [job]) k n := by
  have hold := hpart.real hreal k
  cases h with
  | @module j m hj hm hk =>
    rw [List.mem_singleton.1 hj, yields_kept happart hpart hd] at hm
    rw [List.mem_singleton.1 hj, partway_source hpart, hpart.rewrites.locate] at hk
    exact .module (by simp) hm hk
  | @shape j m p f hj hm hp hf =>
    rw [List.mem_singleton.1 hj, yields_kept happart hpart hd] at hm
    rw [List.mem_singleton.1 hj, partway_paths hpart] at hp
    rw [Denotes, hpart.rewrites.locate] at hf
    have hshape : Left settings d (jobs ++ [job]) k (settled f (d.tree.node? k)) :=
      .shape (by simp) hm hp hf
    generalize e.tree.node? k = x at hold ⊢
    cases hold with
    | @module i m' hi hm' hi' =>
      exact absurd hi' (happart.shapes job (by simp) m hm p hp i (by simp [hi]) k hf.2)
    | @shape i m' q g hi hm' hq hg =>
      rw [Shape.denotes_format hg hf, Shape.settled_again]
      exact hshape
    | kept => exact hshape
  | kept hsource hshape =>
    generalize e.tree.node? k = x at hold ⊢
    cases hold with
    | @module i m' hi hm' hi' => exact .module (by simp [hi]) hm' hi'
    | @shape i m' q g hi hm' hq hg => exact .shape (by simp [hi]) hm' hq hg
    | kept hsources hshapes =>
      refine .kept (fun i hi m hm => ?_) fun i hi m hm p hp f => ?_
      · rcases List.mem_append.1 hi with hi | hi
        · exact hsources i hi m hm
        · rw [List.mem_singleton.1 hi] at hm ⊢
          have := hsource job (by simp) m ((yields_kept happart hpart hd m).2 hm)
          rwa [partway_source hpart, hpart.rewrites.locate] at this
      · rcases List.mem_append.1 hi with hi | hi
        · exact hshapes i hi m hm p hp f
        · rw [List.mem_singleton.1 hi] at hm hp
          have := hshape job (by simp) m ((yields_kept happart hpart hd m).2 hm) p
            (by rwa [partway_paths hpart]) f
          rwa [Denotes, hpart.rewrites.locate] at this

end

theorem Apart.init {d : Disk} {jobs more : List Job} (h : Apart settings d (jobs ++ more)) :
    Apart settings d jobs :=
  ⟨(List.pairwise_append.1 h.sources).1, fun i hi m hm p hp j hj =>
    h.shapes i (by simp [hi]) m hm p hp j (by simp [hj])⟩

theorem partway_nil (settings : Settings) (dryRun : Bool) (d : Disk) :
    Partway settings dryRun d [] d :=
  ⟨Rewrites.refl _ d, fun _ => rfl, fun _ _ => .kept (by simp) (by simp)⟩

/-- A dry job leaves everything as it was. -/
theorem run_job_dry (settings : Settings) (d : Disk) (job : Job) :
    (runJob settings true d job).disk.tree = d.tree := by
  have hran := run_job_ran settings true d job
  generalize (runJob settings true d job).disk = e at hran ⊢
  generalize (runJob settings true d job).value = o at hran
  have hread : (afterRead d job).tree = d.tree := by rw [afterRead, Disk.read_text_counts]
  cases hran with
  | unreadable h => exact hread
  | refused ht hr => exact hread
  | previewed hdry ht hm => rw [shape_steps_dry, hread]
  | unwritten hdry => simp at hdry
  | written hdry => simp at hdry

/-- A batch of jobs that are apart ends as foreseen, and leaves what its jobs leave one by one. -/
theorem run_jobs_apart (dryRun : Bool) {d : Disk} (hd : d.Faultless) {jobs : List Job}
    (h : Apart settings d jobs) :
    (runJobs settings dryRun d jobs).value = jobs.map (foreseen settings dryRun d) ∧
      Partway settings dryRun d jobs (runJobs settings dryRun d jobs).disk := by
  induction jobs using List.reverseRecOn with
  | nil => exact ⟨rfl, partway_nil settings dryRun d⟩
  | append_singleton jobs job ih =>
    obtain ⟨hvalue, hpart⟩ := ih h.init
    obtain ⟨happend, hdisk⟩ := run_jobs_append settings dryRun d jobs [job]
    rw [happend, hdisk, hvalue]
    generalize (runJobs settings dryRun d jobs).disk = e at hpart ⊢
    have he := hd.rewrites hpart.rewrites
    have hown := own_kept h hpart hd
    have hjob := run_job_rewrites settings dryRun e job
    show jobs.map (foreseen settings dryRun d) ++ [(runJob settings dryRun e job).value] = _ ∧
      Partway settings dryRun d (jobs ++ [job]) (runJob settings dryRun e job).disk
    refine ⟨?_, hpart.rewrites.trans (hjob.mono fun _ _ => trivial), fun hdry => ?_,
      fun hreal k => ?_⟩
    · rw [run_job_foreseen he dryRun hown, foreseen_kept h hpart hd, List.map_append,
        List.map_singleton]
    · subst hdry
      rw [run_job_dry, hpart.dry rfl]
    · have hleft := run_job_left he hown k
      subst hreal
      exact left_step h hpart hd rfl hleft

/-- What is left does not depend on the order of the jobs. -/
theorem left_unique {d : Disk} {jobs jobs' : List Job} (h : Apart settings d jobs)
    (hperm : jobs'.Perm jobs) {k : Key} {n n' : Option Node} (hn : Left settings d jobs k n)
    (hn' : Left settings d jobs' k n') : n' = n := by
  have hmem : ∀ {i}, i ∈ jobs' → i ∈ jobs := fun hi => hperm.mem_iff.1 hi
  cases hn with
  | @module i m hi hm hk =>
    cases hn' with
    | @module j m' hj hm' hk' =>
      have hsame : i = j := by
        by_contra hne
        exact h.sources.forall hi (hmem hj) hne k hk hk'
      subst hsame
      rw [yields_unique hm hm']
    | @shape j m' p f hj hm' hp hf =>
      exact absurd hk (h.shapes j (hmem hj) m' hm' p hp i hi k hf.2)
    | kept hsource _ => exact absurd hk (hsource i (hperm.mem_iff.2 hi) m hm)
  | @shape i m p f hi hm hp hf =>
    cases hn' with
    | @module j m' hj hm' hk' =>
      exact absurd hk' (h.shapes i hi m hm p hp j (hmem hj) k hf.2)
    | @shape j m' q g hj hm' hq hg => rw [Shape.denotes_format hg hf]
    | kept _ hshape => exact absurd hf (hshape i (hperm.mem_iff.2 hi) m hm p hp f)
  | kept hsource hshape =>
    cases hn' with
    | @module j m' hj hm' hk' => exact absurd hk' (hsource j (hmem hj) m' hm')
    | @shape j m' q g hj hm' hq hg => exact absurd hg (hshape j (hmem hj) m' hm' q hq g)
    | kept => rfl

theorem Apart.perm {d : Disk} {jobs jobs' : List Job} (h : Apart settings d jobs)
    (hperm : jobs'.Perm jobs) : Apart settings d jobs' := by
  refine ⟨?_, fun i hi m hm p hp j hj => ?_⟩
  · exact (hperm.pairwise_iff fun hxy => Std.Symm.symm _ _ hxy).2 h.sources
  · exact h.shapes i (hperm.mem_iff.1 hi) m hm p hp j (hperm.mem_iff.1 hj)

/-! Two jobs whose sources name one shape file. -/

open Legacy in
def twinLandmarks : Landmarks :=
  ⟨⟨"PIXI".toList, "lib".toList,
      "\n    lib.Main.assets = \x7b \"a\": \"art.shapes.txt\" \x7d;\n    run();\n".toList⟩,
    ⟨some "Main".toList, "\x7b \"a\": \"art.shapes.txt\" \x7d".toList,
      some "lib.Main.assets = \x7b \"a\": \"art.shapes.txt\" \x7d;".toList,
      ["art.shapes.txt".toList]⟩,
    ⟨Stage.fallbackLines, true, none⟩⟩

def twinText : Text :=
  "(function (PIXI, lib) \x7b".toList ++ twinLandmarks.setup.body ++
    "\x7d)(PIXI, lib = \x7b\x7d);".toList

def twinDisk : Disk := .sound
  ⟨[(["a.js".toList], .file (Utf8.encode twinText)),
    (["b.js".toList], .file (Utf8.encode twinText)),
    (["art.shapes.txt".toList], .file (Utf8.encode "m 1 2 c".toList))]⟩ ⟨['/'], []⟩

theorem twin_faultless : twinDisk.Faultless := Disk.sound_faultless _ _

def twinJob (name : String) : Job := ⟨⟨['/'], [name.toList]⟩, .commonjs⟩

def twinJobs : List Job := [twinJob "a.js", twinJob "b.js"]

/-- Migration into the default target without checks. -/
def unchecked : Settings := ⟨.default, []⟩

theorem twin_landmarks : landmarks twinText = .ok twinLandmarks := by decide +kernel

theorem twin_conversion : twinLandmarks.conversion.toOption.map
    (fun c => (c.text, c.classNames, c.exports)) = some (twinLandmarks.setup.body, [], []) := by
  decide +kernel

theorem twin_text : ∀ job ∈ twinJobs, twinDisk.textAt (source twinDisk job) = .ok twinText := by
  have hbytes : textOfBytes (Utf8.encode twinText) = .ok twinText := by
    rw [textOfBytes, Utf8.decode_encode]
    simp only [Utf8.unify_plain (t := twinText) (by decide +kernel)]
  intro job hjob
  have hlookup : twinDisk.lookup (source twinDisk job) = .ok (Utf8.encode twinText) := by
    simp only [twinJobs, List.mem_cons, List.not_mem_nil, or_false] at hjob
    rcases hjob with rfl | rfl <;> rfl
  rw [Disk.textAt, hlookup]
  exact hbytes

theorem twin_yields : ∀ job ∈ twinJobs, ∃ m, Yields unchecked twinDisk job m := fun job hjob => by
  obtain ⟨m, hm, _, _⟩ := @Landmarks.accepted twinLandmarks unchecked .commonjs _ _ _ _
    twin_conversion rfl rfl (source twinDisk job).str
  refine ⟨m, twinText, ?_, ?_⟩
  · rw [Disk.read_text_faultless twin_faultless]
    exact twin_text job hjob
  · have hmode : job.mode = .commonjs := by
      simp only [twinJobs, List.mem_cons, List.not_mem_nil, or_false] at hjob
      rcases hjob with rfl | rfl <;> rfl
    rw [migrate_outcome, twin_landmarks, hmode]
    exact hm

theorem twin_paths {job : Job} (hjob : job ∈ twinJobs) {m : Migration}
    (hm : Yields unchecked twinDisk job m) :
    shapePaths twinDisk job m = [⟨['/'], ["art.shapes.txt".toList]⟩] := by
  obtain ⟨t, ht, hm⟩ := hm
  rw [Disk.read_text_faultless twin_faultless] at ht
  obtain rfl : twinText = t := Except.ok.inj ((twin_text job hjob).symm.trans ht)
  obtain ⟨l, c, hl, _, _, hassets⟩ := migrate_ok hm
  rw [twin_landmarks, Except.ok.injEq] at hl
  subst hl
  rw [shapePaths, hassets]
  simp only [twinJobs, List.mem_cons, List.not_mem_nil, or_false] at hjob
  rcases hjob with rfl | rfl <;> decide +kernel

theorem twin_apart : Apart unchecked twinDisk twinJobs := by
  have hlocate : ∀ job ∈ twinJobs, ∀ k, twinDisk.locate (source twinDisk job) = .ok k →
      twinDisk.locate ⟨['/'], ["art.shapes.txt".toList]⟩ ≠ .ok k := by
    intro job hjob k hk
    rw [← hk]
    simp only [twinJobs, List.mem_cons, List.not_mem_nil, or_false] at hjob
    rcases hjob with rfl | rfl <;> decide +kernel
  refine ⟨?_, fun i hi m hm p hp j hj k hk hk' => ?_⟩
  · refine List.pairwise_pair.2 fun k hk => ?_
    rw [← hk]
    decide +kernel
  · rw [twin_paths hi hm, List.mem_singleton] at hp
    exact hlocate j hj k hk' (hp ▸ hk)

end Batch
end Restage
