import Restage.Batch
import Restage.CommandLine.Options
import Restage.CommandLine.Usage
import Restage.Config

/-!
A run of the command on a disk: read the options and the configuration, open the log file, plan the
batch, run it and report. What is printed, the disk that is left and the exit status are its result.
-/

set_option autoImplicit false

namespace Restage.CommandLine

/-- Why a run ends without an exit status of its own. -/
inductive Abort where
  | config (f : Config.Fault)
  | logFile (e : FileError)
deriving DecidableEq, Repr

def Abort.message : Abort → String
  | config f => f.message
  | logFile e => e.message

/-- What a run leaves: the disk, both outputs, and the exit status. -/
structure Result where
  disk : Disk
  output : String
  errors : String
  status : Except Abort Nat

namespace Result

def exit (d : Disk) (status : Nat) (output errors : String) : Result :=
  ⟨d, output, errors, .ok status⟩

def abort (d : Disk) (a : Abort) : Result := ⟨d, "", "", .error a⟩

/-- The end of a run whose arguments cannot be used. -/
def misused (d : Disk) (message : String) : Result := exit d 2 "" (usageFailure message)

end Result

/-! Logging. -/

/-- Whether a note is shown; only a verbose run shows what is left for debugging. -/
def isShown (verbose : Bool) (n : Note) : Bool :=
  verbose || Level.rank .info ≤ n.level.rank

def consoleLine (n : Note) : String :=
  "[" ++ commandName ++ "] " ++ n.level.label ++ " " ++ n.message ++ "\n"

/-- A line of a log file; `time` stands for the moment of the note. -/
def fileLine (time : String) (n : Note) : String :=
  time ++ " " ++ n.level.label ++ " animate_upgrade." ++ n.channel.label ++ " [" ++
    n.source.getD "-" ++ "]: " ++ n.message ++ "\n"

def joinLines (f : Note → String) (notes : List Note) : String := String.join (notes.map f)

/-- Makes the directory of a log file and opens the file for appending. -/
def openLog (d : Disk) (p : Path) : Except FileError (Path × Disk) := do
  let d ← d.makeDirectories p.parent
  let file := d.cwd.resolve p
  match d.append file [] with
  | (.ok (), d) => return (file, d)
  | (.error e, _) => .error e

/-- Opens a log file if there is one. -/
def openLogs (d : Disk) : Option Path → Except FileError (Option Path × Disk)
  | none => .ok (none, d)
  | some p => (openLog d p).map fun x => (some x.1, x.2)

def appendLog (time : String) (d : Disk) (log : Option Path) (notes : List Note) : Disk :=
  match log with
  | none => d
  | some p => (d.append p (Utf8.encode (joinLines (fileLine time) notes).toList)).2

/-! Reports. -/

/-- The change of one outcome, as a dry run prints it. -/
def changeText (o : Outcome) : String :=
  match o.diff with
  | none => ""
  | some [] => o.path.str ++ ": (no diff)\n"
  | some t => t.str ++ "\n"

def countsText (os : List Outcome) : String :=
  toString (Batch.count .migrated os) ++ " migrated, " ++
    toString (Batch.count .skipped os) ++ " skipped, " ++
    toString (Batch.count .failed os) ++ " failed\n"

def report (dryRun : Bool) (os : List Outcome) : String :=
  (if dryRun then String.join (os.map changeText) else "") ++ countsText os

def exitStatus (os : List Outcome) : Nat := if Batch.allMigrated os then 0 else 1

/-! Runs. -/

/-- Runs jobs and reports on them. -/
def runJobs (time : String) (o : Options) (c : Config) (log : Option Path) (d : Disk)
    (jobs : List Job) : Result :=
  let x := Batch.run ⟨c.target, Output.Check.all⟩ o.dryRun d jobs
  let shown := x.notes.filter (isShown o.verbose)
  .exit (appendLog time x.disk log shown) (exitStatus x.value) (report o.dryRun x.value)
    (joinLines consoleLine shown)

/-- The part of a run behind the configuration. -/
def runPlan (time : String) (o : Options) (c : Config) (log : Option Path) (d : Disk) : Result :=
  match Plan.ofTokens c.mode o.rest with
  | .unrecognized t => .misused d (Plan.unrecognizedMessage t)
  | .help => .exit d 0 help ""
  | .jobs [] => .exit d 0 usage ""
  | .jobs js => runJobs time o c log d js

def runOptions (time : String) (o : Options) (d : Disk) : Result :=
  match Config.load d (o.config.getD d.cwd) with
  | (.error f, d) =>
    if f.isReported then .exit d 1 "" (f.message ++ "\n") else .abort d (.config f)
  | (.ok c, d) =>
    match openLogs d (o.logFile <|> c.logFile) with
    | .error e => .abort d (.logFile e)
    | .ok (log, d) => runPlan time o c log d

/-- A run of the command with the given arguments. -/
def run (time : String) (arguments : List Text) (d : Disk) : Result :=
  match Options.ofArguments arguments with
  | .error e => .misused d e.message
  | .ok o => runOptions time o d

end Restage.CommandLine
