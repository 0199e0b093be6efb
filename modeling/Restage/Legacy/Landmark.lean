import Restage.Log
import Restage.Script.Bracket

/-!
Landmarks of a legacy export: the setup function that wraps its body, the assignment of the assets
mapping to the stage class, and the literal that holds the stage's configuration.
-/

set_option autoImplicit false

namespace Restage.Legacy

/-- The two base classes of legacy definitions. -/
inductive Base where
  | animated | grouping
deriving DecidableEq, Repr

namespace Base

def all : List Base := [animated, grouping]

def identifier : Base → String
  | animated => "MovieClip"
  | grouping => "Container"

def text (b : Base) : Text := b.identifier.toList

def ofIdentifier? (t : Text) : Option Base := all.find? fun b => b.text == t

def unknownMessage (t : Text) : String := "Unrecognised base class '" ++ t.str ++ "'"

end Base

/-- Why a text is not taken for a legacy export. -/
inductive Fault where
  | noSetup
  | parameters (raw : Text)
  | brace (fault : Script.BraceFault)
  | unclosedDefinition (name : Text) (line closedOn : Nat)
  | overlap (line : Nat)
deriving DecidableEq, Repr

def Fault.message : Fault → String
  | noSetup => "Unable to parse library setup method"
  | parameters raw =>
    "Library setup method must take exactly two parameters, got '" ++ raw.str ++ "'"
  | brace f => f.message
  | unclosedDefinition name line closedOn =>
    "Definition of '" ++ name.str ++ "' on line " ++ toString line ++
      " is not closed with '\x7d)' (line " ++ toString closedOn ++ ")"
  | overlap line => "Overlapping rewrites near line " ++ toString line

/-! The setup function. -/

/-- The wrapping function: the names of its two parameters and its body. -/
structure Setup where
  namespaceAlias : Text
  libraryAlias : Text
  body : Text
deriving DecidableEq, Repr

namespace Setup

def opening : Pattern where
  behind := Pattern.anywhere
  pieces := [.lit "(function", .blanks, .lit "(", .run 0 (· != ')'), .lit ")", .blanks, .lit "\x7b"]

def closing : Text := ['}', ')', '(']

/-- Where a text last occurs. -/
def lastOf? (s : Text) : Text → Option Nat
  | [] => none
  | c :: cs =>
    match lastOf? s cs with
    | some i => some (i + 1)
    | none => if Text.startsWith (c :: cs) s then some 0 else none

/-- The first opening and the last closing behind it, with something in between. -/
def find (t : Text) : Except Fault Setup :=
  match opening.first? t.entire with
  | none => .error .noSetup
  | some h =>
    let rest := t.drop h.stop
    match lastOf? closing (rest.drop 1) with
    | none => .error .noSetup
    | some i =>
      match (Text.splitOn ',' (h.part 3)).map Text.strip with
      | [a, b] =>
        if Text.isName a && Text.isName b then .ok ⟨a, b, rest.take (i + 1)⟩
        else .error (.parameters (h.part 3))
      | _ => .error (.parameters (h.part 3))

def note (s : Setup) : Note :=
  .plain .debug .landmarks <| "Library setup binds namespace '" ++ s.namespaceAlias.str ++
    "' and library '" ++ s.libraryAlias.str ++ "'"

end Setup

def findSetup (t : Text) : Traced Fault Setup := do
  let s ← Traced.ofExcept (Setup.find t)
  Traced.note s.note
  return s

/-! The assets mapping. -/

structure Assets where
  stageName : Option Text
  mapping : Text
  statement : Option Text
  shapeFiles : List Text
deriving DecidableEq, Repr

namespace Assets

def missing : Assets := ⟨none, ['{', '}'], none, []⟩

def found (a : Assets) : Bool := a.statement.isSome

def shapeSuffixes : List Text := [".shapes.json".toList, ".shapes.txt".toList]

/-- A name before one of the suffixes of shape files. -/
def isShapeFile (t : Text) : Bool :=
  shapeSuffixes.any fun s => t.length > s.length && Text.endsWith t s

def isQuote (c : Char) : Bool := c == '\x22' || c == '\x27'

/-- The shape files among quoted stretches of a mapping; a stretch holds no quote and no line end.
The first `skip` characters are passed over. -/
def quotedFrom : Nat → Text → List Text
  | _, [] => []
  | skip + 1, _ :: cs => quotedFrom skip cs
  | 0, c :: cs =>
    let inner := cs.takeWhile fun d => !isQuote d && d != '\n'
    if isQuote c && cs[inner.length]? == some c && isShapeFile inner then
      inner :: quotedFrom (inner.length + 1) cs
    else quotedFrom 0 cs

def shapeFilesOf (mapping : Text) : List Text := (quotedFrom 0 mapping).eraseDups

def assignment (library : Text) : Pattern where
  behind := Pattern.freshName
  pieces := [.word (library ++ ['.'])] ++ Piece.name ++ [.lit ".assets", .blanks, .lit "=",
    .blanks, .lit "\x7b", .run 0 (· != '}'), .lit "\x7d;"]

def find (library : Text) (t : Text) : Assets :=
  match (assignment library).first? t.entire with
  | none => missing
  | some h =>
    let mapping := '{' :: h.part 8 ++ ['}']
    ⟨some (h.part 2), mapping, some h.text, shapeFilesOf mapping⟩

def missingMessage (source : String) : String :=
  "Unable to parse library assets (and which item is the stage) from " ++ source ++
  ". You will need to ensure correct loading of assets and stage instantiation. " ++
  "At any point before instantiation, overwrite 'getTexture' on the asset data " ++
  "with 'Texture.fromFrame' from PixiJS's Texture class."

def note (source : String) (a : Assets) : Note :=
  if a.found then
    .plain .debug .landmarks <| "Stage '" ++ (a.stageName.getD []).str ++ "' references " ++
      toString a.shapeFiles.length ++ " shape file(s)"
  else .plain .warning .landmarks (missingMessage source)

end Assets

def findAssets (library : Text) (source : String) (t : Text) : Traced Fault Assets := do
  let a := Assets.find library t
  Traced.note (a.note source)
  return a

/-! The stage's configuration. -/

structure Stage where
  lines : List Text
  fallback : Bool
  statement : Option Text
deriving DecidableEq, Repr

namespace Stage

def fallbackLines : List Text :=
  ["background: 0x000000,", "width: 0,", "height: 0,", "framerate: 24,",
    "totalFrames: 1,"].map (·.toList)

def literal : Pattern where
  behind := Pattern.anywhere
  pieces := [.lit "module.exports", .blanks, .lit "=", .blanks, .lit "\x7b", .run 1 (· != '}'),
    .lit "\x7d;"]

def trimmed (parts : List Text) : List Text :=
  (parts.map Text.strip).filter fun p => !p.isEmpty

/-- The entries of a literal: its lines, or the parts between commas when it has one line. -/
def entries (inner : Text) : List Text :=
  match trimmed (Text.splitWhere (fun c => c == '\r' || c == '\n') inner.strip) with
  | [one] => if one.contains ',' then trimmed (Text.splitOn ',' one) else [one]
  | many => many

def keyOf (entry : Text) : Text := Text.strip (entry.takeWhile (· != ':'))

/-- Keys that the emitted module sets by itself. -/
def reservedKeys : List Text := ["stage", "library"].map (·.toList)

def withComma (entry : Text) : Text :=
  if Text.endsWith entry [','] then entry else entry ++ [',']

def find (t : Text) : Stage :=
  match literal.first? t.entire with
  | none => ⟨fallbackLines, true, none⟩
  | some h =>
    ⟨((entries (h.part 5)).filter fun e => !reservedKeys.contains (keyOf e)).map withComma,
      false, some h.text⟩

def notes (s : Stage) : List Note :=
  if s.fallback then
    [.plain .debug .landmarks "No stage data literal found; using fallback configuration"]
  else []

end Stage

def findStage (t : Text) : Traced Fault Stage := do
  let s := Stage.find t
  Traced.noteAll s.notes
  return s

end Restage.Legacy
