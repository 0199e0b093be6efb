import Restage.Proofs.FaultlessDisk

/-!
A shape file that is migrated twice. The second migration finds no legacy code and writes the bytes
that the first one wrote (`migrate_file_twice`), in either format and with any line ends in the
file that the first one read.
-/

set_option autoImplicit false

namespace Restage.Shape

/-! Counts. -/

section

variable {α : Type}

/-- A migrated record has nothing to count. -/
theorem migrated_count {c : Code} (hc : Record.Legacy (.code c : Token α)) (r : Record α) :
    r.migrate.countP (Record.isCode c) = 0 := by
  rw [List.countP_eq_zero]
  intro x hx hcount
  cases x with
  | code d =>
    obtain rfl : c = d := by simpa [Record.isCode] using hcount
    exact (Record.mem_migrate hx).1 hc
  | value a => simp [Record.isCode] at hcount

theorem total_zero {count : Record α → Nat} (rs : List (Record α))
    (h : ∀ r : Record α, count r.migrate = 0) :
    Shapes.total count (rs.map Record.migrate) = 0 := by
  induction rs with
  | nil => rfl
  | cons r rs ih => rw [List.map_cons, Shapes.total, h, ih]

theorem migrated_closes (s : Shapes) : s.migrate.closes = 0 := by
  cases s <;> exact total_zero _ (migrated_count (Or.inl rfl))

theorem migrated_holes (s : Shapes) : s.migrate.holes = 0 := by
  cases s <;> exact total_zero _ (migrated_count (Or.inr rfl))

end

/-! Files. -/

/-- What a migration that writes its file reports. -/
theorem migrate_file_counts {d : Disk} {p : Path} {s : Shapes} (hload : (load d p).1 = .ok s)
    (hok : (migrateFile d p false).1.result.isOk = true) :
    (migrateFile d p false).1.result = .ok ⟨s.closes, s.holes, true⟩ := by
  rw [migrateFile] at hok ⊢
  cases hl : load d p with
  | mk r e =>
    rw [hl] at hload hok
    simp only at hload
    subst hload
    simp only [Bool.false_eq_true, if_false] at hok ⊢
    cases hw : e.write p (Utf8.encode s.migrate.dump) with
    | mk r f =>
      rw [hw] at hok
      cases r with
      | error x => simp [Traced.fail, Except.isOk, Except.toBool] at hok
      | ok u => rfl

section

variable {d : Disk} (hd : d.Faultless)
include hd

/-- The shapes of a file and of what its migration writes. -/
theorem load_again {p : Path} {s : Shapes} {e : Disk} (he : e.Faultless)
    (hload : (load d p).1 = .ok s)
    (hlookup : e.lookup p = .ok (Utf8.encode s.migrate.dump)) :
    (load e p).1 = .ok s.migrate := by
  rw [load] at hload ⊢
  cases hf : Format.ofPath p with
  | error x => simp [hf] at hload
  | ok f =>
    simp only [hf, Disk.read_text_faultless hd] at hload
    simp only [Disk.read_text_faultless he, Disk.textAt, hlookup]
    rw [Disk.textAt] at hload
    cases hb : d.lookup p with
    | error x => simp [hb, ofRead] at hload
    | ok b =>
      simp only [hb] at hload
      cases ht : textOfBytes b with
      | error x => cases x <;> simp [ht, ofRead] at hload
      | ok t =>
        simp only [ht, ofRead] at hload
        cases hs : Shapes.parse f t with
        | error x => simp [hs, Except.mapError] at hload
        | ok u =>
          simp only [hs, Except.mapError, Except.ok.injEq] at hload
          subst hload
          obtain ⟨hread, hparse⟩ := migrated_read ht hs
          simp only [hread, ofRead, hparse, Except.mapError]

/-- The migration of a file that is read leaves the migrated shapes in it. -/
theorem migrate_file_lookup {p : Path} {s : Shapes} (hload : (load d p).1 = .ok s) :
    (migrateFile d p false).1.result = .ok ⟨s.closes, s.holes, true⟩ ∧
      (migrateFile d p false).2.Faultless ∧
      (migrateFile d p false).2.lookup p = .ok (Utf8.encode s.migrate.dump) := by
  obtain ⟨b, hb⟩ := load_ok hload
  obtain ⟨k, hk, hn⟩ := Disk.lookup_ok_iff.1 hb
  obtain ⟨hok, htree⟩ := migrate_file_written hd hload hk hn
  have hrewrites := migrate_file_rewrites d p false
  have hroot : k ≠ [] := by
    rintro rfl
    simp [Tree.node_root] at hn
  refine ⟨migrate_file_counts hload hok, hd.rewrites hrewrites, Disk.lookup_ok_iff.2 ⟨k, ?_, ?_⟩⟩
  · rw [hrewrites.locate, hk]
  · rw [htree, Tree.node_set _ hroot, if_pos rfl]

/-- A second migration of a shape file finds no legacy code, and writes the same bytes. -/
theorem migrate_file_twice {p : Path} {m : Migrated}
    (h : (migrateFile d p false).1.result = .ok m) :
    ∃ content, (migrateFile d p false).2.lookup p = .ok content ∧
      (migrateFile (migrateFile d p false).2 p false).1.result = .ok ⟨0, 0, true⟩ ∧
      (migrateFile (migrateFile d p false).2 p false).2.lookup p = .ok content := by
  cases hload : (load d p).1 with
  | error x =>
    rw [migrate_file_unread hload] at h
    simp [Traced.fail] at h
  | ok s =>
    obtain ⟨_, hfirst, hcontent⟩ := migrate_file_lookup hd hload
    obtain ⟨hresult, _, hsame⟩ := migrate_file_lookup hfirst (load_again hd hfirst hload hcontent)
    rw [migrated_closes, migrated_holes] at hresult
    rw [Shapes.migrate_again] at hsame
    exact ⟨_, hcontent, hresult, hsame⟩

end

/-! A file with a hole behind a closed path, and with carriage returns. -/

def holeDisk : Disk := .sound
  ⟨[(["art.shapes.txt".toList], .file (Utf8.encode "m 0 0 c\r\nm 1 1 h\r\n".toList))]⟩ ⟨['/'], []⟩

def holePath : Path := ⟨['/'], ["art.shapes.txt".toList]⟩

theorem hole_migrated_twice :
    (migrateFile holeDisk holePath false).1.result = .ok ⟨1, 1, true⟩ ∧
      ∃ content, (migrateFile holeDisk holePath false).2.lookup holePath = .ok content ∧
        (migrateFile (migrateFile holeDisk holePath false).2 holePath false).1.result =
          .ok ⟨0, 0, true⟩ ∧
        (migrateFile (migrateFile holeDisk holePath false).2 holePath false).2.lookup holePath =
          .ok content := by
  have hfirst : (migrateFile holeDisk holePath false).1.result = .ok ⟨1, 1, true⟩ := by
    decide +kernel
  exact ⟨hfirst, migrate_file_twice (Disk.sound_faultless _ _) hfirst⟩

end Restage.Shape
