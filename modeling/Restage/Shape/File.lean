import Restage.Files.Path
import Restage.Json.Parser
import Restage.Json.Printer
import Restage.Shape.Record

/-!
Shape files. A text file has a record on each line and single blanks between its tokens; a JSON
file holds an array of arrays. Both are written back in the form in which they were read.
-/

set_option autoImplicit false

namespace Restage.Shape

inductive Format where
  | txt | json
deriving DecidableEq, Repr

/-- Why a shape file is not migrated. -/
inductive Fault where
  | extension (path : Path)
  | notText (name : Text) (reason : String)
  | json (message : String)
  | noRecords
  | notRecord (index : Nat)
deriving DecidableEq, Repr

def Fault.message : Fault → String
  | extension p => "Unsupported shape file extension for " ++ p.str
  | notText name reason => name.str ++ " is not UTF-8 text: " ++ reason
  | json m => "Invalid JSON: " ++ m
  | noRecords => "Expected a non-empty array of shape records"
  | notRecord i => "Shape record " ++ toString i ++ " is not an array"

/-- The format that a file's extension stands for; case does not count. -/
def Format.ofPath (p : Path) : Except Fault Format :=
  match p.suffix.map Char.toLower with
  | ['.', 't', 'x', 't'] => .ok .txt
  | ['.', 'j', 's', 'o', 'n'] => .ok .json
  | _ => .error (.extension p)

/-! Tokens. -/

def tokenOfText (t : Text) : Token Text :=
  match Code.ofText? t with
  | some c => .code c
  | none => .value t

def textOfToken : Token Text → Text
  | .code c => c.text
  | .value t => t

/-- The characters of ASCII units; other strings are no command codes. -/
def asciiText (us : Json.Units) : Text := us.map fun u => Char.ofNat u.toNat

def tokenOfValue (v : Json.Value) : Token Json.Value :=
  match v with
  | .str us =>
    match Code.ofText? (asciiText us) with
    | some c => .code c
    | none => .value v
  | _ => .value v

def valueOfToken : Token Json.Value → Json.Value
  | .code c => .str (Json.unitsOfText c.text)
  | .value v => v

/-! Whole files. -/

/-- The records of a shape file. -/
inductive Shapes where
  | txt (records : List (Record Text))
  | json (records : List (Record Json.Value))
deriving Repr

namespace Shapes

def ofText (t : Text) : Shapes :=
  .txt <| (Text.splitOn '\n' t).map fun line =>
    (Text.splitOn ' ' (Text.trimEnd (· == '\r') line)).map tokenOfText

/-- The records of an array of arrays; the first item that is no array has the given index. -/
def recordsFrom : Nat → List Json.Value → Except Fault (List (Record Json.Value))
  | _, [] => .ok []
  | i, .arr vs :: rest => (recordsFrom (i + 1) rest).map (vs.map tokenOfValue :: ·)
  | i, _ :: _ => .error (.notRecord i)

def ofValue : Json.Value → Except Fault Shapes
  | .arr (v :: vs) => (recordsFrom 0 (v :: vs)).map .json
  | _ => .error .noRecords

def parse (f : Format) (t : Text) : Except Fault Shapes :=
  match f with
  | .txt => .ok (ofText t)
  | .json =>
    match Json.parse t with
    | .error e => .error (.json (e.message t))
    | .ok v => ofValue v

def dump : Shapes → Text
  | txt rs => Text.joinWith ['\n'] (rs.map fun r => Text.joinWith [' '] (r.map textOfToken))
  | json rs => Json.dump (.arr (rs.map fun r => .arr (r.map valueOfToken)))

def lengths : Shapes → List Nat
  | txt rs => rs.map List.length
  | json rs => rs.map List.length

def migrate : Shapes → Shapes
  | txt rs => txt (rs.map Record.migrate)
  | json rs => json (rs.map Record.migrate)

/-- What all records have together. -/
def total {α : Type} (count : Record α → Nat) : List (Record α) → Nat
  | [] => 0
  | r :: rs => count r + total count rs

/-- Legacy close codes in all records. -/
def closes : Shapes → Nat
  | txt rs => total Record.closes rs
  | json rs => total Record.closes rs

/-- Legacy hole codes in all records. -/
def holes : Shapes → Nat
  | txt rs => total Record.holes rs
  | json rs => total Record.holes rs

end Shapes
end Restage.Shape
