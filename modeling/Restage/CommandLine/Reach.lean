import Restage.CommandLine.Run

/-!
The files that a run of the command may open. Only what the disk already holds can name further
files, so the list grows as they are put there: the configuration names the log file, the sources
name the shape files.
-/

set_option autoImplicit false

namespace Restage.CommandLine

/-- The places at which the configuration is looked for. -/
def configPaths (o : Options) (d : Disk) : List Path :=
  let p := o.config.getD d.cwd
  [p, p.join ⟨[], [Config.fileName]⟩]

/-- The shape files that the source of a job names. -/
def shapePaths (c : Config) (d : Disk) (job : Job) : List Path :=
  let source := Batch.sourcePath d.cwd job.path
  match (d.readText source).1 with
  | .error _ => []
  | .ok t =>
    match (migrate ⟨c.target, Output.Check.all⟩ source.str job.mode t).result with
    | .error _ => []
    | .ok m => m.assets.shapeFiles.map (Batch.shapePath source)

/-- The sources of a batch and the files that they name. -/
def jobPaths (c : Config) (d : Disk) (jobs : List Job) : List Path :=
  jobs.map (Batch.sourcePath d.cwd ·.path) ++ jobs.flatMap (shapePaths c d)

/-- The paths that a run with the given arguments may open on a disk. -/
def reached (arguments : List Text) (d : Disk) : List Path :=
  match Options.ofArguments arguments with
  | .error _ => []
  | .ok o =>
    configPaths o d ++
      match (Config.load d (o.config.getD d.cwd)).1 with
      | .error _ => []
      | .ok c =>
        (o.logFile <|> c.logFile).toList ++
          match Plan.ofTokens c.mode o.rest with
          | .jobs js => jobPaths c d js
          | _ => []

end Restage.CommandLine
