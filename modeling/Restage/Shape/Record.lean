import Restage.Json.Basic

/-!
Records of drawing commands, and their migration to the current command codes. A legacy hole code
closes the path drawn before it: it becomes an end-hole code, and a begin-hole code is put in front
of the move that starts that path, or in front of the record when there is none.
-/

set_option autoImplicit false

namespace Restage.Shape

/-- The command codes that a migration reads or writes. -/
inductive Code where
  | moveTo | legacyClose | closePath | legacyHole | beginHole | endHole
deriving DecidableEq, Repr

namespace Code

def all : List Code := [moveTo, legacyClose, closePath, legacyHole, beginHole, endHole]

def text : Code → Text
  | moveTo => ['m']
  | legacyClose => ['c']
  | closePath => ['c', 'p']
  | legacyHole => ['h']
  | beginHole => ['b', 'h']
  | endHole => ['e', 'h']

def ofText? : Text → Option Code
  | ['m'] => some moveTo
  | ['c'] => some legacyClose
  | ['c', 'p'] => some closePath
  | ['h'] => some legacyHole
  | ['b', 'h'] => some beginHole
  | ['e', 'h'] => some endHole
  | _ => none

end Code

/-- An entry of a record: a command code, or any other value. -/
inductive Token (α : Type) where
  | code (c : Code)
  | value (a : α)
deriving Repr

abbrev Record (α : Type) := List (Token α)

namespace Record

variable {α : Type}

/-- Puts a begin-hole code in front of the last move, in a record that is read from its end. -/
def openHole : Record α → Record α
  | [] => [.code .beginHole]
  | .code .moveTo :: ts => .code .moveTo :: .code .beginHole :: ts
  | t :: ts => t :: openHole ts

/-- Migrates the rest of a record after the part that is done, which is read from its end. -/
def migrateFrom : Record α → Record α → Record α
  | done, [] => done.reverse
  | done, .code .legacyClose :: ts => migrateFrom (.code .closePath :: done) ts
  | done, .code .legacyHole :: ts => migrateFrom (.code .endHole :: openHole done) ts
  | done, t :: ts => migrateFrom (t :: done) ts

def migrate (r : Record α) : Record α := migrateFrom [] r

def isCode (c : Code) : Token α → Bool
  | .code d => c = d
  | .value _ => false

def closes (r : Record α) : Nat := r.countP (isCode .legacyClose)

def holes (r : Record α) : Nat := r.countP (isCode .legacyHole)

end Record
end Restage.Shape
