import Restage.Files.Path
import Restage.Files.Utf8

/-!
A tree of files and the operations on it. Reading changes nothing. Writing opens a file, which
empties or creates it, and may fail after that, so that the old content is lost.
-/

set_option autoImplicit false

namespace Restage

/-- Why an operation on a file fails. -/
inductive Errno where
  | noEntry | exists_ | notDirectory | isDirectory | tooLarge
deriving DecidableEq, Repr

namespace Errno

def number : Errno → Nat
  | noEntry => 2
  | exists_ => 17
  | notDirectory => 20
  | isDirectory => 21
  | tooLarge => 27

def text : Errno → String
  | noEntry => "No such file or directory"
  | exists_ => "File exists"
  | notDirectory => "Not a directory"
  | isDirectory => "Is a directory"
  | tooLarge => "File too large"

end Errno

/-- A failed operation, with the path that was opened unless it failed later. -/
structure FileError where
  errno : Errno
  path : Option Path
deriving DecidableEq, Repr

def FileError.message (e : FileError) : String :=
  "[Errno " ++ toString e.errno.number ++ "] " ++ e.errno.text ++
    (match e.path with
      | some p => ": " ++ p.render.quoted.str
      | none => "")

/-! Trees. -/

inductive Node where
  | directory
  | file (content : Bytes)
deriving DecidableEq, Repr

/-- The names on the way from the root to a node. -/
abbrev Key := List Text

/-- Nodes by key, in the order of their creation. The root is always a directory. -/
structure Tree where
  nodes : List (Key × Node)
deriving DecidableEq, Repr

namespace Tree

def node? (t : Tree) (k : Key) : Option Node :=
  match k with
  | [] => some .directory
  | _ => (t.nodes.find? fun x => x.1 == k).map (·.2)

def content? (t : Tree) (k : Key) : Option Bytes :=
  match t.node? k with
  | some (.file b) => some b
  | _ => none

def setNodes (k : Key) (n : Node) : List (Key × Node) → List (Key × Node)
  | [] => [(k, n)]
  | x :: xs => if x.1 = k then (k, n) :: xs else x :: setNodes k n xs

def set (t : Tree) (k : Key) (n : Node) : Tree := ⟨setNodes k n t.nodes⟩

/-- Follows names from a directory whose key is read from its end. -/
def locateFrom (t : Tree) : List Text → List Text → Except Errno Key
  | done, [] => .ok done.reverse
  | done, p :: ps =>
    match t.node? done.reverse with
    | none => .error .noEntry
    | some (.file _) => .error .notDirectory
    | some .directory =>
      if p = Path.dotdot then locateFrom t (done.drop 1) ps else locateFrom t (p :: done) ps

/-- The key that an absolute path names; only its last name may be missing from the tree. -/
def locate (t : Tree) (p : Path) : Except Errno Key := t.locateFrom [] p.parts

/-- Makes every directory on the way to a key that does not exist. -/
def makeParents (t : Tree) (k : Key) : Tree :=
  (List.range k.length).foldl (fun t i =>
    if (t.node? (k.take i)).isNone then t.set (k.take i) .directory else t) t

end Tree

/-- What becomes of a write: it succeeds, or it fails before or after the file was emptied. -/
inductive WriteFault where
  | refused (e : Errno)
  | emptied (e : Errno)
deriving DecidableEq, Repr

/-- A tree in use: the directory in which relative paths begin, and which of the coming reads and
writes fail, by their number. -/
structure Disk where
  tree : Tree
  cwd : Path
  reads : Nat
  writes : Nat
  readFault : Nat → Option Errno
  writeFault : Nat → Option WriteFault

namespace Disk

/-- A disk on which nothing fails by itself. -/
def sound (tree : Tree) (cwd : Path) : Disk := ⟨tree, cwd, 0, 0, fun _ => none, fun _ => none⟩

def locate (d : Disk) (p : Path) : Except Errno Key := d.tree.locate (d.cwd.join p)

/-- The content of a file. -/
def lookup (d : Disk) (p : Path) : Except Errno Bytes := do
  let k ← d.locate p
  match d.tree.node? k with
  | none => .error .noEntry
  | some .directory => .error .isDirectory
  | some (.file b) => .ok b

def read (d : Disk) (p : Path) : Except FileError Bytes × Disk :=
  let result : Except Errno Bytes := match d.readFault d.reads with
    | some e => .error e
    | none => d.lookup p
  (result.mapError (⟨·, some p⟩), { d with reads := d.reads + 1 })

/-- The key under which a file can be opened for writing. -/
def openable (d : Disk) (p : Path) : Except Errno Key := do
  let k ← d.locate p
  match d.tree.node? k.dropLast with
  | none => .error .noEntry
  | some (.file _) => .error .notDirectory
  | some .directory =>
    match d.tree.node? k with
    | some .directory => .error .isDirectory
    | _ => .ok k

/-- Opens a file, which empties it, and writes a content. Nothing fails any more where there is
nothing to write. -/
def write (d : Disk) (p : Path) (content : Bytes) : Except FileError Unit × Disk :=
  let next := { d with writes := d.writes + 1 }
  match d.openable p with
  | .error e => (.error ⟨e, some p⟩, next)
  | .ok k =>
    match d.writeFault d.writes with
    | some (.refused e) => (.error ⟨e, some p⟩, next)
    | some (.emptied e) =>
      (if content.isEmpty then .ok () else .error ⟨e, none⟩,
        { next with tree := d.tree.set k (.file []) })
    | none => (.ok (), { next with tree := d.tree.set k (.file content) })

/-- Adds to the end of a file, which is created if need be. -/
def append (d : Disk) (p : Path) (content : Bytes) : Except FileError Unit × Disk :=
  match d.openable p with
  | .error e => (.error ⟨e, some p⟩, d)
  | .ok k =>
    (.ok (), { d with tree := d.tree.set k (.file ((d.tree.content? k).getD [] ++ content)) })

def isDirectory (d : Disk) (p : Path) : Bool :=
  match d.locate p with
  | .ok k => d.tree.node? k == some .directory
  | .error _ => false

def exists_ (d : Disk) (p : Path) : Bool :=
  match d.locate p with
  | .ok k => (d.tree.node? k).isSome
  | .error _ => false

/-- Makes a directory and the directories above it, nearest first. -/
def makeDirectory (d : Disk) (p : Path) : Nat → Except FileError Disk
  | 0 => .ok d
  | fuel + 1 =>
    match d.locate p with
    | .error .noEntry => do
      let d ← makeDirectory d p.parent fuel
      if d.isDirectory p then .ok d
      else match d.locate p with
        | .ok k => .ok { d with tree := d.tree.set k .directory }
        | .error e => .error ⟨e, some p⟩
    | .error e => .error ⟨e, some p⟩
    | .ok k =>
      match d.tree.node? k with
      | some .directory => .ok d
      | some (.file _) => .error ⟨.exists_, some p⟩
      | none =>
        match d.tree.node? k.dropLast with
        | some (.file _) => .error ⟨.notDirectory, some p⟩
        | some .directory => .ok { d with tree := d.tree.set k .directory }
        | none => do
          let d ← makeDirectory d p.parent fuel
          .ok { d with tree := d.tree.set k .directory }

def makeDirectories (d : Disk) (p : Path) : Except FileError Disk :=
  d.makeDirectory p (p.parts.length + 1)

end Disk

/-- Why a text cannot be read from a file. -/
inductive ReadError where
  | file (e : FileError)
  | encoding (f : Utf8.Fault)
deriving DecidableEq, Repr

def ReadError.message : ReadError → String
  | file e => e.message
  | encoding f => f.message

/-- The text of bytes, with its line ends unified. -/
def textOfBytes (b : Bytes) : Except ReadError Text :=
  match Utf8.decode b with
  | .error f => .error (.encoding f)
  | .ok t => .ok (Utf8.unifyLineEnds t)

/-- Reads a file as UTF-8 text. -/
def Disk.readText (d : Disk) (p : Path) : Except ReadError Text × Disk :=
  match d.read p with
  | (.error e, d) => (.error (.file e), d)
  | (.ok b, d) => (textOfBytes b, d)

end Restage
