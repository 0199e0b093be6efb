import Restage.Text.Basic

/-!
Paths of files: a root, empty for a relative path, and names. Repeated slashes and single dots do
not count; a double dot is kept until the path is resolved.
-/

set_option autoImplicit false

namespace Restage

structure Path where
  root : Text
  parts : List Text
deriving DecidableEq, Repr

namespace Path

def dotdot : Text := ['.', '.']

def rootOf (t : Text) : Text :=
  if Text.startsWith t ['/', '/'] && !Text.startsWith t ['/', '/', '/'] then ['/', '/']
  else if Text.startsWith t ['/'] then ['/']
  else []

def ofText (t : Text) : Path :=
  ⟨rootOf t, (Text.splitOn '/' t).filter fun p => !p.isEmpty && p != ['.']⟩

def ofString (s : String) : Path := ofText s.toList

def render (p : Path) : Text :=
  if p.root.isEmpty && p.parts.isEmpty then ['.'] else p.root ++ Text.joinWith ['/'] p.parts

def str (p : Path) : String := p.render.str

def isAbsolute (p : Path) : Bool := !p.root.isEmpty

/-- A path read from the directory `p`. -/
def join (p q : Path) : Path := if q.isAbsolute then q else ⟨p.root, p.parts ++ q.parts⟩

def parent (p : Path) : Path := ⟨p.root, p.parts.dropLast⟩

def name (p : Path) : Text := p.parts.getLastD []

/-- The part of a file name from its last dot on; a dot at either end does not count. -/
def suffixOf (name : Text) : Text :=
  let ext := name.reverse.takeWhile (· != '.')
  if ext.isEmpty || name.length ≤ ext.length + 1 then [] else '.' :: ext.reverse

def suffix (p : Path) : Text := suffixOf p.name

/-- Takes away double dots together with the names before them. -/
def collapse : List Text → List Text → List Text
  | done, [] => done.reverse
  | done, p :: ps => if p = dotdot then collapse (done.drop 1) ps else collapse (p :: done) ps

/-- The absolute path without dots, for a path read from the directory `cwd`. -/
def resolve (cwd p : Path) : Path := ⟨['/'], collapse [] (cwd.join p).parts⟩

/-- The names from the root to every place on the way of an absolute path. -/
def waypoints (p : Path) : List (List Text) :=
  (List.range (p.parts.length + 1)).map fun n => collapse [] (p.parts.take n)

end Path
end Restage
