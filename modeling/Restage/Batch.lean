import Restage.CommandLine.Plan
import Restage.Diff.Unified
import Restage.Migration
import Restage.Shape.Migrate

/-!
Batches of migrations on disk. Every job reads its source, migrates it, writes the module in its
place and then migrates the shape files that the source names. A job that fails or is skipped does
not stop the batch.
-/

set_option autoImplicit false

namespace Restage

open CommandLine (Job)

inductive Status where
  | migrated | skipped | failed
deriving DecidableEq, Repr

def Status.label : Status → String
  | migrated => "migrated"
  | skipped => "skipped"
  | failed => "failed"

/-- What became of a job. -/
structure Outcome where
  path : Path
  status : Status
  mode : Mode
  classes : List Text
  exports : List Text
  shapeFiles : List Path
  warnings : List String
  error : Option String
  diff : Option Text
deriving DecidableEq, Repr

namespace Outcome

/-- A job that ended before its source was migrated. -/
def ended (path : Path) (mode : Mode) (status : Status) (error : String) : Outcome :=
  ⟨path, status, mode, [], [], [], [], some error, none⟩

def ofMigration (path : Path) (mode : Mode) (m : Migration) : Outcome :=
  ⟨path, .migrated, mode, m.classes, m.exports, [], m.warnings, none, none⟩

end Outcome

/-- A value with the notes that were made and the disk that was left. -/
structure Effect (α : Type) where
  notes : List Note
  disk : Disk
  value : α

namespace Batch

/-- The path of a job as it is opened and reported. -/
def sourcePath (cwd p : Path) : Path := if p.isAbsolute then p else cwd.resolve p

/-- The path of a shape file named in a source. -/
def shapePath (source : Path) (name : Text) : Path :=
  let p := Path.ofText name
  if p.isAbsolute then p else source.parent.resolve p

def diffOf (path : Path) (old new : Text) : Text :=
  Diff.unified (path.name ++ " (original)".toList) (path.name ++ " (migrated)".toList) old new

/-- A note about a file. -/
def note (p : Path) (level : Level) (message : String) : Note := .about p.str level .batch message

/-- Migrates one shape file; the value says whether that succeeded. -/
def shapeStep (d : Disk) (p : Path) (dryRun : Bool) : Effect Bool :=
  match Shape.migrateFile d p dryRun with
  | (⟨ns, .ok r⟩, d) =>
    let updated := note p .info ("Updated shapes (" ++ toString r.closes ++ " close, " ++
      toString r.holes ++ " hole)")
    ⟨ns ++ (if r.changed then [updated] else []), d, true⟩
  | (⟨ns, .error (.file e)⟩, d) =>
    ⟨ns ++ [note p .error ("Unable to migrate shape file: " ++ e.message)], d, false⟩
  | (⟨ns, .error (.shape f)⟩, d) =>
    ⟨ns ++ [note p .error ("Unexpected format for shape file: " ++ f.message)], d, false⟩

/-- Migrates shape files in order; the value is the list of those that were. -/
def shapeSteps (dryRun : Bool) : Disk → List Path → Effect (List Path)
  | d, [] => ⟨[], d, []⟩
  | d, p :: ps =>
    let x := shapeStep d p dryRun
    let y := shapeSteps dryRun x.disk ps
    ⟨x.notes ++ y.notes, y.disk, if x.value then p :: y.value else y.value⟩

/-- The outcome and the notes of a source that is refused. -/
def refused (path : Path) (mode : Mode) (r : Refusal) : List Note × Outcome :=
  let outcome := Outcome.ended path mode .skipped r.message
  match r with
  | .invalid issues =>
    (issues.map (fun i => note path .error i.describe) ++
      [note path .error ("Not writing: " ++ r.message)], outcome)
  | .structure_ f => ([note path .error f.message], outcome)

def migratedNote (path : Path) (mode : Mode) (m : Migration) (dryRun : Bool) : Note :=
  note path .info ("Migrated (" ++ mode.name ++ ", " ++ toString m.classes.length ++
    " class(es))" ++ if dryRun then " [dry-run]" else "")

/-- The rest of a job once its module is written or, in a dry run, once it is known. -/
def finish (d : Disk) (path : Path) (mode : Mode) (m : Migration) (dryRun : Bool)
    (diff : Option Text) : Effect Outcome :=
  let x := shapeSteps dryRun d (m.assets.shapeFiles.map (shapePath path))
  ⟨migratedNote path mode m dryRun :: x.notes, x.disk,
    { Outcome.ofMigration path mode m with shapeFiles := x.value, diff := diff }⟩

/-- Runs one job. -/
def runJob (settings : Settings) (dryRun : Bool) (d : Disk) (job : Job) : Effect Outcome :=
  let path := sourcePath d.cwd job.path
  match d.readText path with
  | (.error e, d) =>
    ⟨[note path .error ("Unable to read file: " ++ e.message)], d,
      .ended path job.mode .failed e.message⟩
  | (.ok t, d) =>
    match migrate settings path.str job.mode t with
    | ⟨ns, .error r⟩ =>
      let (more, outcome) := refused path job.mode r
      ⟨ns ++ more, d, outcome⟩
    | ⟨ns, .ok m⟩ =>
      if dryRun then
        let x := finish d path job.mode m true (some (diffOf path t m.output))
        { x with notes := ns ++ x.notes }
      else
        match d.write path (Utf8.encode m.output) with
        | (.error e, d) =>
          ⟨ns ++ [note path .error ("Unable to write file: " ++ e.message)], d,
            { Outcome.ofMigration path job.mode m with
              status := .failed, error := some e.message }⟩
        | (.ok (), d) =>
          let x := finish d path job.mode m false none
          { x with notes := ns ++ x.notes }

/-- Runs jobs in order, each on the disk that the one before it left. -/
def runJobs (settings : Settings) (dryRun : Bool) : Disk → List Job → Effect (List Outcome)
  | d, [] => ⟨[], d, []⟩
  | d, j :: js =>
    let x := runJob settings dryRun d j
    let y := runJobs settings dryRun x.disk js
    ⟨x.notes ++ y.notes, y.disk, x.value :: y.value⟩

def count (s : Status) (os : List Outcome) : Nat := os.countP fun o => o.status == s

/-- Whether every job was migrated. -/
def allMigrated (os : List Outcome) : Bool := os.all fun o => o.status == .migrated

def summary (os : List Outcome) : Note :=
  .plain .info .batch ("Processed " ++ toString os.length ++ " file(s): " ++
    toString (count .migrated os) ++ " migrated, " ++ toString (count .skipped os) ++
    " skipped, " ++ toString (count .failed os) ++ " failed")

/-- Runs a batch. -/
def run (settings : Settings) (dryRun : Bool) (d : Disk) (jobs : List Job) :
    Effect (List Outcome) :=
  let x := runJobs settings dryRun d jobs
  { x with notes := x.notes ++ [summary x.value] }

end Batch
end Restage
