import Restage.Files.Path
import Restage.Text.Quoted

/-!
The options of the command. They may stand anywhere before the first `--`; what is no option is
kept, in order, for the plan of the batch. A long option may be shortened as long as it is not
ambiguous.
-/

set_option autoImplicit false

namespace Restage.CommandLine

inductive Switch where
  | verbose | dryRun | config | logFile
deriving DecidableEq, Repr

namespace Switch

def takesValue : Switch → Bool
  | config | logFile => true
  | verbose | dryRun => false

/-- The ways in which switches are written. -/
def spellings : List (Text × Switch) :=
  [("-v".toList, verbose), ("--verbose".toList, verbose), ("--dry-run".toList, dryRun),
   ("--config".toList, config), ("--log-file".toList, logFile)]

def ofSpelling? (t : Text) : Option Switch := spellings.lookup t

/-- All spellings of a switch. -/
def label (s : Switch) : Text :=
  Text.joinWith ['/'] ((spellings.filter fun x => x.2 == s).map (·.1))

end Switch

/-- Why arguments cannot be used. -/
inductive UsageError where
  | ambiguous (argument : Text) (spellings : List Text)
  | missingValue (s : Switch)
  | ignoredValue (s : Switch) (value : Text)
deriving DecidableEq, Repr

def UsageError.message : UsageError → String
  | ambiguous a ss =>
    "ambiguous option: " ++ a.str ++ " could match " ++ (Text.joinWith [',', ' '] ss).str
  | missingValue s => "argument " ++ s.label.str ++ ": expected one argument"
  | ignoredValue s v =>
    "argument " ++ s.label.str ++ ": ignored explicit argument " ++ v.quoted.str

/-- A value that is written in one argument with its switch: behind an equals sign, or right behind
the letter of a short switch. -/
inductive Attached where
  | nothing
  | assigned (value : Text)
  | joined (letter : Char) (value : Text)
deriving DecidableEq, Repr

/-- What an argument is by itself: a switch, a word, or an option that is no switch. -/
inductive Argument where
  | switch (s : Switch) (value : Attached)
  | word
  | foreign
deriving DecidableEq, Repr

namespace Argument

/-- The parts of an argument before and behind its first equals sign. -/
def splitValue (t : Text) : Text × Attached :=
  match t.dropWhile (· != '=') with
  | _ :: v => (t.takeWhile (· != '='), .assigned v)
  | [] => (t, .nothing)

/-- A minus sign and digits, of which a point may stand before or between. -/
def isNegativeNumber (t : Text) : Bool :=
  match t with
  | '-' :: r =>
    let frac := r.dropWhile Text.isDigit
    match frac with
    | [] => !r.isEmpty
    | '.' :: ds => !ds.isEmpty && ds.all Text.isDigit
    | _ => false
  | _ => false

/-- The switches that a shortened or joined spelling may stand for. -/
def candidates (t : Text) : List (Text × Switch × Attached) :=
  match t with
  | '-' :: '-' :: _ =>
    let (name, value) := splitValue t
    (Switch.spellings.filter fun x => Text.startsWith x.1 name).map fun x => (x.1, x.2, value)
  | '-' :: letter :: value =>
    (Switch.spellings.filter fun x => x.1 == ['-', letter]).map fun x =>
      (x.1, x.2, .joined letter value)
  | _ => []

/-- The switch that an argument spells in full, alone or before an equals sign. -/
def inFull? (t : Text) : Option Argument :=
  match Switch.ofSpelling? t with
  | some s => some (switch s .nothing)
  | none =>
    let (name, value) := splitValue t
    (Switch.ofSpelling? name).map fun s => switch s value

/-- Reads an argument that stands before the first `--`. -/
def ofText (t : Text) : Except UsageError Argument :=
  match t with
  | '-' :: _ :: _ =>
    match inFull? t with
    | some a => .ok a
    | none =>
      match candidates t with
      | [(_, s, value)] => .ok (switch s value)
      | [] => .ok (if isNegativeNumber t || t.contains ' ' then word else foreign)
      | many => .error (.ambiguous t (many.map (·.1)))
  | _ => .ok word

end Argument

structure Options where
  verbose : Bool
  dryRun : Bool
  config : Option Path
  logFile : Option Path
  /-- what is no switch and no value of one -/
  rest : List Text
deriving DecidableEq, Repr

namespace Options

def none : Options := ⟨false, false, .none, .none, []⟩

def doubleDash : Text := ['-', '-']

/-- A value takes effect in place of an earlier one. -/
def set (o : Options) (s : Switch) (value : Text) : Options :=
  match s with
  | .verbose => { o with verbose := true }
  | .dryRun => { o with dryRun := true }
  | .config => { o with config := some (Path.ofText value) }
  | .logFile => { o with logFile := some (Path.ofText value) }

/-- Keeps a text for the plan; texts are kept from the last one on. -/
def keep (o : Options) (t : Text) : Options := { o with rest := t :: o.rest }

/-- What is joined to a short switch without a value: its letter may be repeated, and what then
begins with another letter is an option of its own. The error is what can be neither. -/
def joinedOption (letter : Char) : Text → Except Text (Option Text)
  | [] => .ok .none
  | '-' :: t => .error ('-' :: t)
  | c :: t =>
    if c = letter then
      match t with
      | '=' :: v => .error v
      | t => joinedOption letter t
    else .ok (some ('-' :: c :: t))

/-- Sets a switch that takes no value. -/
def setFlag (o : Options) (s : Switch) : Attached → Except UsageError Options
  | .nothing => .ok (o.set s [])
  | .assigned v => .error (.ignoredValue s v)
  | .joined letter v =>
    match joinedOption letter v with
    | .error t => .error (.ignoredValue s t)
    | .ok .none => .ok (o.set s [])
    | .ok (some t) => .ok ((o.set s []).keep t)

/-- The arguments before the first `--`, each with what it is, and all from there on. -/
def classify : List Text → Except UsageError (List (Text × Argument) × List Text)
  | [] => .ok ([], [])
  | t :: ts =>
    if t = doubleDash then .ok ([], t :: ts)
    else do
      let a ← Argument.ofText t
      let (as, rest) ← classify ts
      return ((t, a) :: as, rest)

/-- Reads arguments from the left; a later switch replaces an earlier one. -/
def collect (o : Options) : List (Text × Argument) → Except UsageError Options
  | [] => .ok { o with rest := o.rest.reverse }
  | (t, .word) :: as => collect (o.keep t) as
  | (t, .foreign) :: as => collect (o.keep t) as
  | (_, .switch s value) :: as =>
    if s.takesValue then
      match value, as with
      | .assigned v, as => collect (o.set s v) as
      | .joined _ v, as => collect (o.set s v) as
      | .nothing, (v, .word) :: as => collect (o.set s v) as
      | .nothing, _ => .error (.missingValue s)
    else do collect (← o.setFlag s value) as

/-- The options in a list of arguments. -/
def ofArguments (ts : List Text) : Except UsageError Options := do
  let (as, rest) ← classify ts
  let o ← none.collect as
  return { o with rest := o.rest ++ rest }

end Options
end Restage.CommandLine
