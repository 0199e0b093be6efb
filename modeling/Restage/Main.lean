import Restage.CommandLine.Reach
import Std.Time.Format

/-!
The command. The files that a run may open are read into a tree, the run takes place on it, and
what it changed is written back.
-/

set_option autoImplicit false

namespace Restage.Command

/-- The path of a key from the root. -/
def keyPath (k : Key) : String := (Path.mk ['/'] k).str

/-- What stands at a path, if anything does. -/
def nodeAt (path : String) : IO (Option Node) := do
  try
    let p ← IO.FS.realPath path
    if ← p.isDir then return some .directory
    else return some (.file (← IO.FS.readBinFile p).toList)
  catch _ => return none

/-- Puts a node and what is on the way to it on a tree. -/
def fetch (t : Tree) (p : Path) : IO Tree :=
  p.waypoints.foldlM (fun t k => do
    if (t.node? k).isSome then return t
    else match ← nodeAt (keyPath k) with
      | some n => return t.set k n
      | none => return t) t

/-- Fetches what a run may open, as often as that may name further files. -/
def fetchAll (arguments : List Text) : Nat → Disk → IO Disk
  | 0, d => return d
  | n + 1, d => do
    let paths := (CommandLine.reached arguments d).map d.cwd.join
    fetchAll arguments n { d with tree := ← (d.cwd :: paths).foldlM fetch d.tree }

/-- Writes what has changed from one tree to another. -/
def save (before after : Tree) : IO Unit :=
  after.nodes.forM fun (k, n) => do
    if before.node? k ≠ some n then
      match n with
      | .directory => IO.FS.createDirAll (keyPath k)
      | .file content => IO.FS.writeBinFile (keyPath k) content.toByteArray

def timeStamp : IO String := do
  return (← Std.Time.PlainDateTime.now).format "uuuu-MM-dd HH:mm:ss,SSS"

end Restage.Command

open Restage Command

def main (args : List String) : IO UInt32 := do
  let arguments := args.map Text.ofString
  let cwd := Path.ofString (← IO.currentDir).toString
  -- the configuration, then the log file and the sources, then the shape files
  let disk ← fetchAll arguments 3 (.sound ⟨[]⟩ cwd)
  let result := CommandLine.run (← timeStamp) arguments disk
  save disk.tree result.disk.tree
  IO.print result.output
  IO.eprint result.errors
  match result.status with
  | .ok n => return n.toUInt32
  | .error a =>
    IO.eprintln a.message
    return 1
