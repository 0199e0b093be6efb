import Restage.Files.Disk
import Restage.Log
import Restage.Shape.File

/-!
Migration of a shape file on disk. Unless the run is dry, the file is overwritten with the migrated
records, also when there was nothing to migrate.
-/

set_option autoImplicit false

namespace Restage.Shape

/-- Why a shape file on disk is not migrated. -/
inductive FileFault where
  | file (e : FileError)
  | shape (f : Fault)
deriving DecidableEq, Repr

def FileFault.message : FileFault → String
  | file e => e.message
  | shape f => f.message

/-- What a migration did. -/
structure Migrated where
  closes : Nat
  holes : Nat
  written : Bool
deriving DecidableEq, Repr

def Migrated.changed (m : Migrated) : Bool := m.closes != 0 || m.holes != 0

/-- The records of a file, given what reading it as text gave. -/
def ofRead (p : Path) (f : Format) (r : Except ReadError Text) : Except FileFault Shapes :=
  match r with
  | .error (.file e) => .error (.file e)
  | .error (.encoding e) => .error (.shape (.notText p.name e.message))
  | .ok t => (Shapes.parse f t).mapError .shape

/-- Reads a shape file. -/
def load (d : Disk) (p : Path) : Except FileFault Shapes × Disk :=
  match Format.ofPath p with
  | .error e => (.error (.shape e), d)
  | .ok f => (ofRead p f (d.readText p).1, (d.readText p).2)

def migratedNote (p : Path) (s : Shapes) (dryRun : Bool) : Note :=
  .plain .debug .shapes ("Shape file " ++ p.str ++ ": " ++ toString s.closes ++
    " close code(s), " ++ toString s.holes ++ " hole(s) migrated" ++
    (if dryRun then " (dry-run)" else ""))

/-- Migrates a shape file. -/
def migrateFile (d : Disk) (p : Path) (dryRun : Bool) : Traced FileFault Migrated × Disk :=
  match load d p with
  | (.error e, d) => (.fail e, d)
  | (.ok s, d) =>
    let note := migratedNote p s dryRun
    if dryRun then (⟨[note], .ok ⟨s.closes, s.holes, false⟩⟩, d)
    else
      match d.write p (Utf8.encode s.migrate.dump) with
      | (.error e, d) => (.fail (.file e), d)
      | (.ok (), d) => (⟨[note], .ok ⟨s.closes, s.holes, true⟩⟩, d)

end Restage.Shape
