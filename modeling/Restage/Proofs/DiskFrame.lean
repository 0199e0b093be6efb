import Mathlib
import Restage.Batch

/-!
What the operations on a disk leave alone. `Rewrites` says of two disks that the second has the
files and directories of the first, with other contents at most under some keys. Reads, writes to
files that can be read, and the steps of a batch are such changes, and they compose.
-/

set_option autoImplicit false

namespace Restage

namespace Tree

theorem node_root (t : Tree) : t.node? [] = some .directory := rfl

theorem node_key {k : Key} (t : Tree) (hk : k ≠ []) :
    t.node? k = (t.nodes.find? fun x => x.1 == k).map (·.2) := by
  cases k with
  | nil => exact absurd rfl hk
  | cons n k => rfl

theorem find_set_nodes (k j : Key) (n : Node) (xs : List (Key × Node)) :
    ((setNodes k n xs).find? fun x => x.1 == j).map (·.2) =
      if j = k then some n else (xs.find? fun x => x.1 == j).map (·.2) := by
  induction xs with
  | nil =>
    by_cases hj : j = k
    · simp [setNodes, hj]
    · simp [setNodes, hj, Ne.symm hj]
  | cons x xs ih =>
    by_cases hx : x.1 = k
    · rw [setNodes, if_pos hx]
      by_cases hj : j = k
      · simp [hj]
      · simp [hj, Ne.symm hj, hx]
    · rw [setNodes, if_neg hx]
      by_cases hxj : x.1 = j
      · have hj : j ≠ k := fun h => hx (hxj.trans h)
        simp [hxj, hj]
      · simpa [hxj] using ih

theorem node_set (t : Tree) {k : Key} (hk : k ≠ []) (n : Node) (j : Key) :
    (t.set k n).node? j = if j = k then some n else t.node? j := by
  cases j with
  | nil => rw [if_neg (Ne.symm hk), node_root, node_root]
  | cons m j =>
    rw [node_key _ (by simp), node_key _ (by simp)]
    exact find_set_nodes k (m :: j) n t.nodes

/-- Two trees with the same directories and the same files, of any content. -/
def Alike (t u : Tree) : Prop :=
  ∀ k, u.node? k = t.node? k ∨ ∃ b c, t.node? k = some (.file b) ∧ u.node? k = some (.file c)

/-- The way to a key depends on no content. -/
theorem locate_alike {t u : Tree} (h : Alike t u) (done names : List Text) :
    u.locateFrom done names = t.locateFrom done names := by
  induction names generalizing done with
  | nil => rfl
  | cons p ps ih =>
    rw [locateFrom, locateFrom]
    rcases h done.reverse with hnode | ⟨b, c, hb, hc⟩
    · rw [hnode]
      split
      · rfl
      · rfl
      · rw [ih, ih]
    · rw [hb, hc]

end Tree

/-- The second disk is the first one with other contents at most under certain keys. -/
structure Rewrites (touched : Key → Prop) (d e : Disk) : Prop where
  cwd : e.cwd = d.cwd
  readFault : e.readFault = d.readFault
  writeFault : e.writeFault = d.writeFault
  nodes : ∀ k, e.tree.node? k = d.tree.node? k ∨
    touched k ∧ ∃ b c, d.tree.node? k = some (.file b) ∧ e.tree.node? k = some (.file c)

namespace Rewrites

variable {touched more : Key → Prop} {d e f : Disk}

theorem refl (touched : Key → Prop) (d : Disk) : Rewrites touched d d :=
  ⟨rfl, rfl, rfl, fun _ => Or.inl rfl⟩

theorem mono (h : Rewrites touched d e) (hmore : ∀ k, touched k → more k) : Rewrites more d e :=
  ⟨h.cwd, h.readFault, h.writeFault, fun k => (h.nodes k).imp_right (And.imp_left (hmore k))⟩

theorem trans (h : Rewrites touched d e) (g : Rewrites touched e f) : Rewrites touched d f := by
  refine ⟨g.cwd.trans h.cwd, g.readFault.trans h.readFault, g.writeFault.trans h.writeFault, ?_⟩
  intro k
  rcases g.nodes k with hg | ⟨hk, b, c, hb, hc⟩
  · rw [hg]
    exact h.nodes k
  · rcases h.nodes k with hh | ⟨_, a, b', ha, _⟩
    · exact Or.inr ⟨hk, b, c, by rw [← hh, hb], hc⟩
    · exact Or.inr ⟨hk, a, c, ha, hc⟩

theorem alike (h : Rewrites touched d e) : Tree.Alike d.tree e.tree :=
  fun k => (h.nodes k).imp_right And.right

theorem locate (h : Rewrites touched d e) (p : Path) : e.locate p = d.locate p := by
  rw [Disk.locate, Disk.locate, h.cwd]
  exact Tree.locate_alike h.alike [] _

/-- What stands under an untouched key is read as before. -/
theorem lookup (h : Rewrites touched d e) {p : Path}
    (hp : ∀ k, d.locate p = .ok k → ¬ touched k) : e.lookup p = d.lookup p := by
  rw [Disk.lookup, Disk.lookup, h.locate p]
  cases hk : d.locate p with
  | error x => rfl
  | ok k =>
    rcases h.nodes k with hn | ⟨ht, _⟩
    · simp only [bind, Except.bind, hn]
    · exact absurd ht (hp k hk)

end Rewrites

namespace Disk

variable {d e : Disk} {p : Path} {b : Bytes}

theorem lookup_ok_iff : d.lookup p = .ok b ↔
    ∃ k, d.locate p = .ok k ∧ d.tree.node? k = some (.file b) := by
  rw [lookup]
  cases d.locate p with
  | error x => simp [bind, Except.bind]
  | ok k =>
    cases hn : d.tree.node? k with
    | none => simp [bind, Except.bind, hn]
    | some n => cases n <;> simp [bind, Except.bind, hn]

theorem read_rewrites (d : Disk) (p : Path) : Rewrites (fun _ => False) d (d.read p).2 :=
  ⟨rfl, rfl, rfl, fun _ => Or.inl rfl⟩

theorem read_text_disk (d : Disk) (p : Path) : (d.readText p).2 = (d.read p).2 := by
  rw [readText]
  cases h : d.read p with
  | mk r e => cases r <;> rfl

theorem read_text_ok {t : Text} (h : (d.readText p).1 = .ok t) :
    ∃ b, d.lookup p = .ok b ∧ textOfBytes b = .ok t := by
  rw [readText] at h
  cases hr : d.read p with
  | mk r e =>
    rw [hr] at h
    cases r with
    | error x => simp at h
    | ok b =>
      refine ⟨b, ?_, h⟩
      rw [read] at hr
      simp only [Prod.mk.injEq] at hr
      cases hf : d.readFault d.reads with
      | some x => simp [hf, Except.mapError] at hr
      | none =>
        cases hl : d.lookup p with
        | error x => simp [hf, hl, Except.mapError] at hr
        | ok b' => simpa [hf, hl, Except.mapError] using hr.1

/-- A file is read as the text it holds unless the read itself fails. -/
theorem read_text_of_lookup (hf : d.readFault d.reads = none) (h : d.lookup p = .ok b) :
    (d.readText p).1 = textOfBytes b := by
  rw [readText, read, hf, h]
  rfl

/-- A write to a file changes nothing but the content of that file. -/
theorem write_rewrites (h : d.lookup p = .ok b) (content : Bytes) :
    Rewrites (fun k => d.locate p = .ok k) d (d.write p content).2 := by
  obtain ⟨k, hk, hn⟩ := lookup_ok_iff.1 h
  have hroot : k ≠ [] := by
    rintro rfl
    simp [Tree.node_root] at hn
  have hset : ∀ c, Rewrites (fun k => d.locate p = .ok k) d
      { d with writes := d.writes + 1, tree := d.tree.set k (.file c) } := by
    intro c
    refine ⟨rfl, rfl, rfl, fun j => ?_⟩
    simp only [Tree.node_set _ hroot]
    by_cases hj : j = k
    · exact Or.inr ⟨hj ▸ hk, b, c, hj ▸ hn, if_pos hj⟩
    · exact Or.inl (if_neg hj)
  have hsame : Rewrites (fun k => d.locate p = .ok k) d { d with writes := d.writes + 1 } :=
    ⟨rfl, rfl, rfl, fun _ => Or.inl rfl⟩
  rw [write]
  cases ho : d.openable p with
  | error x => exact hsame
  | ok j =>
    have hj : j = k := by
      rw [openable, hk] at ho
      simp only [bind, Except.bind, hn] at ho
      split at ho <;> simp at ho
      exact ho.symm
    subst hj
    simp only
    split
    · exact hsame
    · exact hset []
    · exact hset content

/-- What a file holds after a write that succeeded. -/
theorem write_lookup (h : d.lookup p = .ok b) {content : Bytes}
    (hw : (d.write p content).1 = .ok ()) : (d.write p content).2.lookup p = .ok content := by
  obtain ⟨k, hk, hn⟩ := lookup_ok_iff.1 h
  have hroot : k ≠ [] := by
    rintro rfl
    simp [Tree.node_root] at hn
  have hlocate := (write_rewrites h content).locate p
  rw [hk] at hlocate
  rw [lookup_ok_iff]
  refine ⟨k, hlocate, ?_⟩
  rw [write] at hw ⊢
  cases ho : d.openable p with
  | error x => simp [ho] at hw
  | ok j =>
    have hj : j = k := by
      rw [openable, hk] at ho
      simp only [bind, Except.bind, hn] at ho
      split at ho <;> simp at ho
      exact ho.symm
    subst hj
    simp only [ho] at hw ⊢
    cases hf : d.writeFault d.writes with
    | none => simp [Tree.node_set _ hroot]
    | some x =>
      cases x with
      | refused x => simp [hf] at hw
      | emptied x =>
        cases content with
        | nil => simp [Tree.node_set _ hroot]
        | cons c cs => simp [hf] at hw

end Disk

/-! Steps of a batch. -/

namespace Shape

theorem load_disk (d : Disk) (p : Path) :
    (load d p).2 = d ∨ (load d p).2 = (d.readText p).2 := by
  rw [load]
  cases Format.ofPath p with
  | error x => exact Or.inl rfl
  | ok f => exact Or.inr rfl

theorem load_ok {d : Disk} {p : Path} {s : Shapes} (h : (load d p).1 = .ok s) :
    ∃ b, d.lookup p = .ok b := by
  rw [load] at h
  cases hf : Format.ofPath p with
  | error x => simp [hf] at h
  | ok f =>
    simp only [hf] at h
    cases hr : (d.readText p).1 with
    | error x => cases x <;> simp [hr, ofRead] at h
    | ok t =>
      obtain ⟨b, hb, _⟩ := Disk.read_text_ok hr
      exact ⟨b, hb⟩

theorem load_rewrites (d : Disk) (p : Path) : Rewrites (fun _ => False) d (load d p).2 := by
  rcases load_disk d p with h | h
  · rw [h]
    exact Rewrites.refl _ d
  · rw [h, Disk.read_text_disk]
    exact Disk.read_rewrites d p

/-- A shape file that cannot be read is left alone. -/
theorem migrate_file_unread {d : Disk} {p : Path} {x : FileFault} (h : (load d p).1 = .error x)
    (dryRun : Bool) : migrateFile d p dryRun = (.fail x, (load d p).2) := by
  rw [migrateFile]
  cases hl : load d p with
  | mk r e =>
    rw [hl] at h
    simp only at h
    subst h
    rfl

theorem migrate_file_dry {d : Disk} {p : Path} {s : Shapes} (h : (load d p).1 = .ok s) :
    migrateFile d p true =
      (⟨[migratedNote p s true], .ok ⟨s.closes, s.holes, false⟩⟩, (load d p).2) := by
  rw [migrateFile]
  cases hl : load d p with
  | mk r e =>
    rw [hl] at h
    simp only at h
    subst h
    rfl

/-- The migration of a shape file changes nothing but the content of that file. -/
theorem migrate_file_rewrites (d : Disk) (p : Path) (dryRun : Bool) :
    Rewrites (fun k => d.locate p = .ok k) d (migrateFile d p dryRun).2 := by
  have hload := load_rewrites d p
  have hread : Rewrites (fun k => d.locate p = .ok k) d (load d p).2 :=
    hload.mono fun _ h => h.elim
  rw [migrateFile]
  cases hl : load d p with
  | mk r e =>
    rw [hl] at hread hload
    cases r with
    | error x => exact hread
    | ok s =>
      obtain ⟨b, hb⟩ := load_ok (d := d) (p := p) (s := s) (by rw [hl])
      have hlookup : e.lookup p = .ok b := by rw [hload.lookup fun _ _ h => h, hb]
      have hwrite := Disk.write_rewrites hlookup (Utf8.encode s.migrate.dump)
      simp only [hload.locate] at hwrite
      cases dryRun with
      | true => exact hread
      | false =>
        simp only [Bool.false_eq_true, if_false]
        cases hw : e.write p (Utf8.encode s.migrate.dump) with
        | mk r f =>
          rw [hw] at hwrite
          cases r <;> exact hread.trans hwrite

end Shape

namespace Batch

theorem shape_step_rewrites (d : Disk) (p : Path) (dryRun : Bool) :
    Rewrites (fun k => d.locate p = .ok k) d (shapeStep d p dryRun).disk := by
  have h := Shape.migrate_file_rewrites d p dryRun
  rw [shapeStep]
  split <;> next heq => rw [heq] at h; exact h

/-- Shape files that are migrated one after another change in content, and nothing else does. -/
theorem shape_steps_rewrites (dryRun : Bool) (d : Disk) (ps : List Path) :
    Rewrites (fun k => ∃ p ∈ ps, d.locate p = .ok k) d (shapeSteps dryRun d ps).disk := by
  induction ps generalizing d with
  | nil => exact Rewrites.refl _ d
  | cons p ps ih =>
    have hstep := shape_step_rewrites d p dryRun
    have hrest := ih (shapeStep d p dryRun).disk
    simp only [hstep.locate] at hrest
    rw [shapeSteps]
    refine (hstep.mono fun k hk => ?_).trans (hrest.mono fun k hk => ?_)
    · exact ⟨p, by simp, hk⟩
    · obtain ⟨q, hq, hk⟩ := hk
      exact ⟨q, by simp [hq], hk⟩

end Batch

end Restage
