import Restage.Text.Basic

/-!
The three export conventions of an emitted module.
-/

set_option autoImplicit false

namespace Restage

inductive Mode where
  | commonjs | es6 | es6Autorun
deriving DecidableEq, Repr

namespace Mode

def all : List Mode := [commonjs, es6, es6Autorun]

def name : Mode → String
  | commonjs => "commonjs"
  | es6 => "es6"
  | es6Autorun => "es6-autorun"

def isEs6 (m : Mode) : Bool := m != commonjs

def autorun (m : Mode) : Bool := m == es6Autorun

/-- Case, surrounding blanks and the choice between dash and underscore do not count. -/
def normalise (t : Text) : Text :=
  (t.strip.map Char.toLower).map fun c => if c = '_' then '-' else c

def ofText? (t : Text) : Option Mode := all.find? fun m => m.name.toList == normalise t

def unknownMessage (t : Text) : String := "Unknown output mode '" ++ t.str ++ "'"

end Mode
end Restage
