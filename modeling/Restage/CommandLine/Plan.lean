import Restage.Files.Path
import Restage.Mode

/-!
The jobs of a batch. Mode selectors and paths are given in one row; a selector applies to every
path after it.
-/

set_option autoImplicit false

namespace Restage.CommandLine

/-- A source file and the mode to migrate it in. -/
structure Job where
  path : Path
  mode : Mode
deriving DecidableEq, Repr

/-- What a row of arguments asks for. -/
inductive Plan where
  | help
  | jobs (js : List Job)
  | unrecognized (token : Text)
deriving DecidableEq, Repr

namespace Plan

def helpTokens : List Text := ["-h", "--help"].map (·.toList)

def selector? (token : Text) : Option Mode :=
  match token with
  | ['-', 'c'] => some .commonjs
  | ['-', 'e'] => some .es6
  | ['-', 'a'] => some .es6Autorun
  | _ => none

def isOption (token : Text) : Bool :=
  match token with
  | '-' :: _ :: _ => true
  | _ => false

/-- The jobs of tokens of which none asks for help; the error is the first unknown option. -/
def jobsFrom : Mode → List Text → Except Text (List Job)
  | _, [] => .ok []
  | mode, t :: ts =>
    match selector? t with
    | some m => jobsFrom m ts
    | none =>
      if isOption t then .error t
      else (jobsFrom mode ts).map (⟨Path.ofText t, mode⟩ :: ·)

def ofTokens (default : Mode) (tokens : List Text) : Plan :=
  if tokens.any helpTokens.contains then .help
  else match jobsFrom default tokens with
    | .ok js => .jobs js
    | .error t => .unrecognized t

def unrecognizedMessage (t : Text) : String := "unrecognized option: " ++ t.str

end Plan
end Restage.CommandLine
