import Restage.Proofs.JobSteps
import Restage.Proofs.ShapeRoundTrip

/-!
Disks on which nothing fails by itself. What is read from them, and what the migration of a shape
file leaves, is a matter of keys and contents only: a file that can be read can be written to, and
a key is a shape file of one format whatever path leads to it.
-/

set_option autoImplicit false

namespace Restage

open CommandLine (Job)

namespace Tree

/-- The directories that were gone through on the way to a key read from its end. -/
def Walked (t : Tree) (done : List Text) : Prop :=
  ∀ n, 0 < n → t.node? (done.drop n).reverse = some .directory

/-- Every key that is located lies in a directory. -/
theorem located_parent {t : Tree} {done names : List Text} {k : Key} (hdone : t.Walked done)
    (h : t.locateFrom done names = .ok k) : t.node? k.dropLast = some .directory := by
  induction names generalizing done with
  | nil =>
    rw [locateFrom, Except.ok.injEq] at h
    rw [← h, List.dropLast_reverse, ← List.drop_one]
    exact hdone 1 Nat.one_pos
  | cons p ps ih =>
    rw [locateFrom] at h
    split at h
    · simp at h
    · simp at h
    · next hhere =>
      split at h
      · refine ih (fun n hn => ?_) h
        rw [List.drop_drop]
        exact hdone _ (by omega)
      · refine ih (fun n hn => ?_) h
        obtain ⟨n, rfl⟩ : ∃ m, n = m + 1 := ⟨n - 1, by omega⟩
        rw [List.drop_succ_cons]
        rcases Nat.eq_zero_or_pos n with rfl | hn
        · exact hhere
        · exact hdone n hn

theorem walked_nil (t : Tree) : t.Walked [] := fun n _ => by
  rw [List.drop_nil]
  rfl

/-- A key ends with the last name of the path that led to it. -/
theorem located_last {t : Tree} {done names : List Text} {name : Text} {k : Key}
    (hname : name ≠ Path.dotdot) (h : t.locateFrom done (names ++ [name]) = .ok k) :
    k.getLast? = some name := by
  induction names generalizing done with
  | nil =>
    rw [List.nil_append, locateFrom] at h
    split at h
    · simp at h
    · simp at h
    · rw [if_neg hname, locateFrom, Except.ok.injEq] at h
      rw [← h, List.reverse_cons, List.getLast?_append_cons]
      rfl
  | cons p ps ih =>
    rw [List.cons_append, locateFrom] at h
    split at h
    · simp at h
    · simp at h
    · split at h
      · exact ih h
      · exact ih h

end Tree

namespace Disk

/-- Nothing fails on a disk but what its files and directories make fail. -/
structure Faultless (d : Disk) : Prop where
  reads : ∀ n, d.readFault n = none
  writes : ∀ n, d.writeFault n = none

theorem sound_faultless (tree : Tree) (cwd : Path) : (sound tree cwd).Faultless :=
  ⟨fun _ => rfl, fun _ => rfl⟩

theorem Faultless.rewrites {touched : Key → Prop} {d e : Disk} (hd : d.Faultless)
    (h : Rewrites touched d e) : e.Faultless :=
  ⟨by rw [h.readFault]; exact hd.reads, by rw [h.writeFault]; exact hd.writes⟩

/-- The text of a file. -/
def textAt (d : Disk) (p : Path) : Except ReadError Text :=
  match d.lookup p with
  | .error e => .error (.file ⟨e, some p⟩)
  | .ok b => textOfBytes b

variable {d : Disk} (hd : d.Faultless)
include hd

theorem read_text_faultless (p : Path) : (d.readText p).1 = d.textAt p := by
  rw [readText, read, hd.reads, textAt]
  cases d.lookup p <;> rfl

/-- A file that can be read can be written to. -/
theorem write_faultless {p : Path} {b : Bytes} {k : Key} (hk : d.locate p = .ok k)
    (hn : d.tree.node? k = some (.file b)) (content : Bytes) :
    d.write p content =
      (.ok (), { d with writes := d.writes + 1, tree := d.tree.set k (.file content) }) := by
  have hopen : d.openable p = .ok k := by
    have hparent := Tree.located_parent (Tree.walked_nil d.tree) hk
    simp only [openable, hk, bind, Except.bind, hparent, hn]
  simp only [write, hopen, hd.writes]

end Disk

namespace Shape

/-- Whether a shape file is read. -/
def loads (d : Disk) (p : Path) : Bool :=
  match Format.ofPath p with
  | .error _ => false
  | .ok f =>
    match d.lookup p with
    | .error _ => false
    | .ok b => (rewritten f b).isSome

/-- A path that denotes a key and has the extension of a format. -/
def Denotes (d : Disk) (p : Path) (f : Format) (k : Key) : Prop :=
  Format.ofPath p = .ok f ∧ d.locate p = .ok k

/-- A key holds shapes of one format. -/
theorem denotes_format {d : Disk} {p q : Path} {f g : Format} {k : Key} (hp : Denotes d p f k)
    (hq : Denotes d q g k) : f = g := by
  have hlast : ∀ {p : Path} {f : Format}, Denotes d p f k → k.getLast? = some p.name := by
    rintro p f ⟨hformat, hk⟩
    have hparts : p.parts ≠ [] := fun hnil => by
      simp [Format.ofPath, Path.suffix, Path.name, hnil, Path.suffixOf] at hformat
    have hname : p.parts.getLast hparts ≠ Path.dotdot := fun hdots => by
      rw [Format.ofPath, Path.suffix, Path.name, List.getLastD_eq_getLast?,
        List.getLast?_eq_some_getLast hparts, Option.getD_some, hdots] at hformat
      simp [Path.suffixOf, Path.dotdot] at hformat
    have hsplit := List.dropLast_append_getLast hparts
    rw [Path.name, List.getLastD_eq_getLast?, List.getLast?_eq_some_getLast hparts,
      Option.getD_some]
    rw [Disk.locate, Tree.locate, Path.join] at hk
    split at hk
    · rw [← hsplit] at hk
      exact Tree.located_last hname hk
    · simp only at hk
      rw [← hsplit, ← List.append_assoc] at hk
      exact Tree.located_last hname hk
  have hname : p.name = q.name := Option.some.inj ((hlast hp).symm.trans (hlast hq))
  have hsuffix : p.suffix = q.suffix := by rw [Path.suffix, hname, Path.suffix]
  obtain ⟨hf, _⟩ := hp
  obtain ⟨hg, _⟩ := hq
  unfold Format.ofPath at hf hg
  rw [hsuffix] at hf
  split at hf <;> simp_all

/-- A node after the migration of its file as shapes. -/
def settled (f : Format) : Option Node → Option Node
  | some (.file b) => some (.file ((rewritten f b).getD b))
  | n => n

theorem rewritten_settled (f : Format) (b : Bytes) :
    rewritten f ((rewritten f b).getD b) = rewritten f b := by
  cases h : rewritten f b with
  | none => simpa using h
  | some c => simpa using rewritten_again h

theorem settled_again (f : Format) (n : Option Node) : settled f (settled f n) = settled f n := by
  cases n with
  | none => rfl
  | some n =>
    cases n with
    | directory => rfl
    | file b =>
      simp only [settled, rewritten_settled]
      cases rewritten f b <;> rfl

/-- Whether a shape file is read does not depend on whether it was migrated before. -/
theorem loads_of_node {d e : Disk} {q : Path} (hlocate : e.locate q = d.locate q)
    (hnode : ∀ k, d.locate q = .ok k → e.tree.node? k = d.tree.node? k ∨
      ∃ p f, Denotes d p f k ∧ e.tree.node? k = settled f (d.tree.node? k)) :
    loads e q = loads d q := by
  unfold loads
  cases hg : Format.ofPath q with
  | error x => rfl
  | ok g =>
    simp only [Disk.lookup, hlocate, bind, Except.bind]
    cases hk : d.locate q with
    | error x => rfl
    | ok k =>
      rcases hnode k hk with hsame | ⟨p, f, hp, hsettled⟩
      · simp only [hsame]
      · obtain rfl := denotes_format hp ⟨hg, hk⟩
        simp only [hsettled]
        cases d.tree.node? k with
        | none => rfl
        | some n =>
          cases n with
          | directory => rfl
          | file b => simp only [settled, rewritten_settled]

theorem load_tree (d : Disk) (p : Path) : (load d p).2.tree = d.tree := by
  rcases load_disk d p with h | h
  · rw [h]
  · rw [h, Disk.read_text_counts]

theorem settled_unread {d : Disk} {p : Path} {f : Format} {k : Key} (h : Denotes d p f k)
    (hloads : loads d p = false) : settled f (d.tree.node? k) = d.tree.node? k := by
  simp only [loads, h.1, Disk.lookup, h.2, bind, Except.bind] at hloads
  cases hn : d.tree.node? k with
  | none => rfl
  | some n =>
    cases n with
    | directory => rfl
    | file b =>
      simp only [hn, Option.isSome_eq_false_iff, Option.isNone_iff_eq_none] at hloads
      simp [settled, hloads]

/-- A node before and after files were migrated as shapes of some formats. -/
def Ripens (formats : Format → Prop) (old new : Option Node) : Prop :=
  (∃ f, formats f ∧ new = settled f old) ∨ (∀ f, ¬ formats f) ∧ new = old

theorem ripens_same {formats : Format → Prop} {n : Option Node}
    (h : ∀ f, formats f → settled f n = n) : Ripens formats n n := by
  by_cases hsome : ∃ f, formats f
  · obtain ⟨f, hf⟩ := hsome
    exact Or.inl ⟨f, hf, (h f hf).symm⟩
  · exact Or.inr ⟨fun f hf => hsome ⟨f, hf⟩, rfl⟩

/-- Migrations of one node in a row, all in one format. -/
theorem Ripens.trans {formats more : Format → Prop} {n m o : Option Node}
    (hsame : ∀ f g, formats f → more g → f = g) (h : Ripens formats n m) (g : Ripens more m o) :
    Ripens (fun f => formats f ∨ more f) n o := by
  rcases g with ⟨y, hy, rfl⟩ | ⟨hmore, rfl⟩
  · rcases h with ⟨x, hx, rfl⟩ | ⟨_, rfl⟩
    · obtain rfl := hsame x y hx hy
      exact Or.inl ⟨x, Or.inl hx, settled_again x n⟩
    · exact Or.inl ⟨y, Or.inr hy, rfl⟩
  · rcases h with ⟨x, hx, rfl⟩ | ⟨hformats, rfl⟩
    · exact Or.inl ⟨x, Or.inl hx, rfl⟩
    · exact Or.inr ⟨fun f hf => hf.elim (hformats f) (hmore f), rfl⟩

section

variable {d : Disk} (hd : d.Faultless)
include hd

/-- A shape file is read when its content is one that can be rewritten. -/
theorem load_faultless (p : Path) :
    (loads d p = false ∧ ∃ x, (load d p).1 = .error x) ∨
      ∃ s f b k, loads d p = true ∧ (load d p).1 = .ok s ∧ Denotes d p f k ∧
        d.tree.node? k = some (.file b) ∧ rewritten f b = some (Utf8.encode s.migrate.dump) := by
  cases hf : Format.ofPath p with
  | error x => exact Or.inl ⟨by simp [loads, hf], .shape x, by simp [load, hf]⟩
  | ok f =>
    have hload : (load d p).1 = ofRead p f (d.textAt p) := by
      rw [← Disk.read_text_faultless hd]
      simp [load, hf]
    cases hb : d.lookup p with
    | error x => exact Or.inl ⟨by simp [loads, hf, hb], _, by rw [hload, Disk.textAt, hb]; rfl⟩
    | ok b =>
      obtain ⟨k, hk, hn⟩ := Disk.lookup_ok_iff.1 hb
      have htext : d.textAt p = textOfBytes b := by rw [Disk.textAt, hb]
      have hloads : loads d p = (rewritten f b).isSome := by simp only [loads, hf, hb]
      rw [htext] at hload
      rw [hloads, hload]
      cases ht : textOfBytes b with
      | error x => cases x <;> exact Or.inl ⟨by simp [rewritten, ht], _, rfl⟩
      | ok t =>
        cases hs : Shapes.parse f t with
        | error x =>
          exact Or.inl ⟨by simp [rewritten, ht, hs], .shape x, by simp [ofRead, hs, Except.mapError]⟩
        | ok s =>
          have hrewritten : rewritten f b = some (Utf8.encode s.migrate.dump) := by
            simp only [rewritten, ht, hs]
          exact Or.inr ⟨s, f, b, k, by rw [hrewritten]; rfl, by simp [ofRead, hs, Except.mapError],
            ⟨hf, hk⟩, hn, hrewritten⟩

/-- A shape file that is read is written over. -/
theorem migrate_file_written {p : Path} {s : Shapes} {b : Bytes} {k : Key}
    (hload : (load d p).1 = .ok s) (hk : d.locate p = .ok k)
    (hn : d.tree.node? k = some (.file b)) :
    (migrateFile d p false).1.result.isOk = true ∧
      (migrateFile d p false).2.tree = d.tree.set k (.file (Utf8.encode s.migrate.dump)) := by
  have hrewrites := load_rewrites d p
  have hwrite := Disk.write_faultless (hd.rewrites hrewrites) (p := p) (k := k) (b := b)
    (by rw [hrewrites.locate, hk]) (by rw [load_tree, hn]) (Utf8.encode s.migrate.dump)
  rw [load_tree] at hwrite
  rw [migrateFile]
  cases hl : load d p with
  | mk r e =>
    rw [hl] at hload hwrite
    simp only at hload
    subst hload
    simp only [Bool.false_eq_true, if_false, hwrite]
    exact ⟨rfl, trivial⟩

/-- The migration of a shape file succeeds when the file is read. -/
theorem migrate_file_ok (p : Path) (dryRun : Bool) :
    (migrateFile d p dryRun).1.result.isOk = loads d p := by
  rcases load_faultless hd p with ⟨hloads, x, hx⟩ | ⟨s, f, b, k, hloads, hs, ⟨_, hk⟩, hn, _⟩
  · rw [migrate_file_unread hx, hloads]
    rfl
  · rw [hloads]
    cases dryRun with
    | true =>
      rw [migrate_file_dry hs]
      rfl
    | false => exact (migrate_file_written hd hs hk hn).1

/-- The migration of a shape file settles the key that its path denotes. -/
theorem migrate_file_ripens (p : Path) (k : Key) :
    Ripens (fun f => Denotes d p f k) (d.tree.node? k)
      ((migrateFile d p false).2.tree.node? k) := by
  rcases load_faultless hd p with ⟨hloads, x, hx⟩ | ⟨s, f, b, j, _, hs, hj, hn, hrewritten⟩
  · rw [migrate_file_unread hx, load_tree]
    exact ripens_same fun f hf => settled_unread hf hloads
  · rw [(migrate_file_written hd hs hj.2 hn).2]
    have hroot : j ≠ [] := by
      rintro rfl
      simp [Tree.node_root] at hn
    rw [Tree.node_set _ hroot]
    by_cases hkj : k = j
    · subst hkj
      rw [if_pos rfl, hn]
      exact Or.inl ⟨f, hj, by simp [settled, hrewritten]⟩
    · rw [if_neg hkj]
      refine Or.inr ⟨fun g hg => hkj ?_, rfl⟩
      exact Except.ok.inj (hg.2.symm.trans hj.2)

end

end Shape
end Restage
