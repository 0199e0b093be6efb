import Restage.Legacy.Landmark

/-!
Checks of an emitted module, made before it replaces the legacy export: its brackets pair up, no
legacy construct is left, and every converted class is declared.
-/

set_option autoImplicit false

namespace Restage.Output

open Legacy

inductive Check where
  | brackets | legacyResidue | classCount
deriving DecidableEq, Repr

namespace Check

def all : List Check := [brackets, legacyResidue, classCount]

def name : Check → String
  | brackets => "brackets"
  | legacyResidue => "legacy-residue"
  | classCount => "class-count"

end Check

structure Issue where
  check : Check
  line : Option Nat
  detail : String
deriving DecidableEq, Repr

def Issue.describe (i : Issue) : String :=
  "[" ++ i.check.name ++ "] " ++
    (match i.line with
      | some n => "line " ++ toString n ++ ": "
      | none => "") ++ i.detail

/-- What the checks look at. -/
structure Subject where
  output : Text
  classNames : List Text
  stageName : Option Text
deriving DecidableEq, Repr

def bracketIssues (output : Text) : List Issue :=
  match Script.firstMismatch output with
  | none => []
  | some (i, m) => [⟨.brackets, some (output.lineOf i), m.message⟩]

/-- A word that ends here. -/
def wordEnd : Piece := .nextIsNot Text.isWord

def extendResidue (b : Base) : Pattern where
  behind := Pattern.freshName
  pieces := [.word b.text, .lit ".extend(", .blanks, .lit "function", wordEnd]

def callResidue (b : Base) : Pattern where
  behind := Pattern.freshName
  pieces := [.word b.text, .lit ".call(", .blanks, .lit "this", wordEnd]

/-- The legacy constructs, with what is said of one that is left. -/
def residues : List (Pattern × String) :=
  Base.all.flatMap fun b =>
    [(extendResidue b, b.identifier ++ ".extend() definition was not converted"),
     (callResidue b, b.identifier ++ ".call(this) was not converted to super()")]

def assetsResidue (stage : Text) : Pattern where
  behind := Pattern.anywhere
  pieces := [.word ("data.lib.".toList ++ stage ++ ".assets".toList), .blanks, .lit "="]

def residueIssues (output : Text) (stageName : Option Text) : List Issue :=
  let mask := (Script.codeMask output).toArray
  let legacy := residues.flatMap fun r =>
    ((r.1.hits output.entire).filter fun h => mask.getD h.start true).map fun h =>
      ⟨.legacyResidue, some (output.lineOf h.start), r.2⟩
  let stage := match stageName with
    | none => []
    | some name =>
      if name.isEmpty then []
      else match (assetsResidue name).first? output.entire with
        | none => []
        | some h => [⟨.legacyResidue, some (output.lineOf h.start),
            "assets assignment was not replaced by the stage reference"⟩]
  legacy ++ stage

def classDeclaration (name : Text) : Pattern where
  behind := Pattern.wordStart
  pieces := [.word ("class ".toList ++ name ++ " extends".toList), wordEnd]

def classIssues (output : Text) (names : List Text) : List Issue :=
  names.filterMap fun name =>
    if ((classDeclaration name).first? output.entire).isSome then none
    else some ⟨.classCount, none, "class " ++ name.str ++ " missing from output"⟩

def Check.run (s : Subject) : Check → List Issue
  | brackets => bracketIssues s.output
  | legacyResidue => residueIssues s.output s.stageName
  | classCount => classIssues s.output s.classNames

def runChecks (checks : List Check) (s : Subject) : List Issue := checks.flatMap (·.run s)

end Restage.Output
