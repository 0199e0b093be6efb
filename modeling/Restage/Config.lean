import Restage.Files.Disk
import Restage.Output.Emit
import Restage.Yaml.Datum

/-!
The configuration of a run. It is read from a file that may be missing; the settings of the file
replace the defaults one by one, and a setting that is empty or no text or number leaves its
default.
-/

set_option autoImplicit false

namespace Restage

structure Config where
  /-- the directory of the configuration file -/
  root : Path
  mode : Mode
  target : Output.Target
  logFile : Option Path
deriving DecidableEq, Repr

namespace Config

def fileName : Text := ".animate-upgrade.yml".toList

def default (root : Path) : Config :=
  ⟨root, .commonjs, .default, none⟩

/-- Why a configuration is not used. -/
inductive Fault where
  | unreadable (name : Text) (e : FileError)
  | malformed (name : Text) (f : Yaml.Fault)
  | notMapping
  | unknownMode (t : Text)
  | namespace_ (t : Text)
  /-- the file is no text -/
  | encoding (f : Utf8.Fault)
  /-- a scalar does not fit its tag -/
  | content (e : Yaml.Error)
deriving DecidableEq, Repr

namespace Fault

def message : Fault → String
  | unreadable name e => "Failed to read " ++ name.str ++ ": " ++ e.message
  | malformed name f => "Failed to parse " ++ name.str ++ ": " ++ f.message
  | notMapping => fileName.str ++ " must contain a mapping at the root"
  | unknownMode t => Mode.unknownMessage t
  | namespace_ t => "namespace must be a plain identifier, got '" ++ t.str ++ "'"
  | encoding f => f.message
  | content e => e.message

/-- Whether a fault is one of the configuration, which a run reports, and not one of the file's
content below it, which ends the run. -/
def isReported : Fault → Bool
  | encoding _ | content _ => false
  | _ => true

end Fault

/-- The text of a real in a setting. -/
def realText : Binary64 → Text
  | .nan => "nan".toList
  | .infinite false => "inf".toList
  | .infinite true => "-inf".toList
  | .finite negative m q => Binary64.finiteText negative m q

/-- The text of a datum that can be a setting. -/
def settingText? : Yaml.Datum → Option Text
  | .str t => some t
  | .int i => some (Text.ofInt i)
  | .real x => some (realText x)
  | _ => none

/-- A setting that is there and not empty. -/
def setting? (entries : Yaml.Entries) (key : String) : Option Text :=
  ((Yaml.Datum.get? key.toList entries).bind settingText?).filter fun t => !t.isEmpty

def withMode (c : Config) : Option Text → Except Fault Config
  | none => .ok c
  | some t =>
    match Mode.ofText? t with
    | some m => .ok { c with mode := m }
    | none => .error (.unknownMode t)

def withNamespace (c : Config) : Option Text → Except Fault Config
  | none => .ok c
  | some t =>
    if Text.isIdentifier t then .ok { c with target := { c.target with namespaceName := t } }
    else .error (.namespace_ t)

def withImportSource (c : Config) : Option Text → Config
  | none => c
  | some t => { c with target := { c.target with importSource := t } }

def withLogFile (c : Config) : Option Text → Config
  | none => c
  | some t => { c with logFile := some (c.root.join (Path.ofText t)) }

/-- The configuration that the entries of a file give. -/
def ofEntries (root : Path) (entries : Yaml.Entries) : Except Fault Config := do
  let c ← (default root).withMode (setting? entries "mode")
  let c ← c.withNamespace (setting? entries "namespace")
  let c := c.withImportSource (setting? entries "import_source")
  return c.withLogFile (setting? entries "log_file")

/-- The entries at the root of a document; nothing at the root is no entries. -/
def rootEntries (d : Yaml.Datum) : Except Fault Yaml.Entries :=
  if d.isVoid then .ok []
  else match d with
    | .map entries => .ok entries
    | _ => .error .notMapping

/-- The entries of the text of a configuration file. -/
def entriesOfText (name t : Text) : Except Fault Yaml.Entries :=
  if t.strip.isEmpty then .ok []
  else match Yaml.read t with
    | .ok d => rootEntries d
    | .error (.form f) => .error (.malformed name f)
    | .error e => .error (.content e)

def entriesOfRead (name : Text) (r : Except ReadError Text) : Except Fault Yaml.Entries :=
  match r with
  | .error (.file e) => .error (.unreadable name e)
  | .error (.encoding f) => .error (.encoding f)
  | .ok t => entriesOfText name t

/-- The configuration file that a path names: in a directory, the one with the usual name. -/
def locate (d : Disk) (p : Path) : Path :=
  d.cwd.resolve (if d.isDirectory p then p.join ⟨[], [fileName]⟩ else p)

/-- The configuration that a path names. -/
def load (d : Disk) (p : Path) : Except Fault Config × Disk :=
  let file := locate d p
  if d.exists_ file then
    let (r, d) := d.readText file
    (entriesOfRead file.name r >>= ofEntries file.parent, d)
  else (.ok (default file.parent), d)

end Config
end Restage
