import Restage.Yaml.Timestamp
import Restage.Yaml.Token

/-!
Nodes of a YAML document: scalars, sequences and mappings with their tags. An alias stands for the
node of its anchor; inside that node it stands for a cycle.
-/

set_option autoImplicit false

namespace Restage.Yaml

/-- The tags that documents use. -/
inductive Tag where
  | null | bool | int | float | binary | timestamp | str
  | seq | map | omap | pairs | set
  | merge | value
  | unknown
deriving DecidableEq, Repr

inductive Node where
  | scalar (tag : Tag) (text : Text)
  | seq (tag : Tag) (items : List Node)
  | map (tag : Tag) (entries : List (Node × Node))
  | cycle
deriving Repr

/-! Tags of plain scalars. -/

def matchesAny (words : List String) (t : Text) : Bool := words.any fun w => w.toList == t

def isNull (t : Text) : Bool := t.isEmpty || matchesAny ["~", "null", "Null", "NULL"] t

def isTrue (t : Text) : Bool :=
  matchesAny ["yes", "Yes", "YES", "true", "True", "TRUE", "on", "On", "ON"] t

def isFalse (t : Text) : Bool :=
  matchesAny ["no", "No", "NO", "false", "False", "FALSE", "off", "Off", "OFF"] t

def unsigned (t : Text) : Text :=
  match t with
  | '+' :: r => r
  | '-' :: r => r
  | _ => t

def isDigits (t : Text) : Bool := t.all fun c => Text.isDigit c || c == '_'

/-- Minutes or seconds: one or two digits below sixty. -/
def isSixtieth (t : Text) : Bool :=
  match t with
  | [a] => Text.isDigit a
  | [a, b] => '0' ≤ a && a ≤ '5' && Text.isDigit b
  | _ => false

def isBased (t : Text) : Bool :=
  match t with
  | '0' :: 'b' :: r => !r.isEmpty && r.all fun c => c == '0' || c == '1' || c == '_'
  | '0' :: 'x' :: r => !r.isEmpty && r.all fun c =>
      Text.isDigit c || ('a' ≤ c && c ≤ 'f') || ('A' ≤ c && c ≤ 'F') || c == '_'
  | '0' :: r => r.all fun c => ('0' ≤ c && c ≤ '7') || c == '_'
  | _ => false

def beginsOneToNine (t : Text) : Bool := t.head?.any fun c => '1' ≤ c && c ≤ '9'

def isInt (t : Text) : Bool :=
  let u := unsigned t
  isBased u || (beginsOneToNine u &&
    match Text.splitOn ':' u with
    | [] => false
    | a :: rest => isDigits a && rest.all isSixtieth)

def isExponent (t : Text) : Bool :=
  match t with
  | [] => true
  | c :: s :: r => (c == 'e' || c == 'E') && (s == '+' || s == '-') && !r.isEmpty &&
      r.all Text.isDigit
  | _ => false

/-- Digits after a point and an exponent. -/
def isFraction (t : Text) : Bool :=
  isExponent (t.dropWhile fun c => Text.isDigit c || c == '_')

def isFloat (t : Text) : Bool :=
  let u := unsigned t
  let whole := u.takeWhile (· != '.')
  let frac := u.drop (whole.length + 1)
  matchesAny [".inf", ".Inf", ".INF"] u || matchesAny [".nan", ".NaN", ".NAN"] t ||
    (u.contains '.' &&
      if whole.isEmpty then u == t && frac.head?.any Text.isDigit && isFraction frac
      else whole.head?.any Text.isDigit &&
        match Text.splitOn ':' whole with
        | [a] => isDigits a && isFraction frac
        | a :: rest => isDigits a && rest.all isSixtieth && isDigits frac
        | [] => false)

/-- The tag of a plain scalar without one. -/
def plainTag (t : Text) : Tag :=
  if isNull t then .null
  else if isTrue t || isFalse t then .bool
  else if isFloat t then .float
  else if isInt t then .int
  else if t = ['<', '<'] then .merge
  else if Timestamp.isPlain t then .timestamp
  else if t = ['='] then .value
  else .str

/-! Explicit tags. -/

def standardUri : Text := "tag:yaml.org,2002:".toList

def standardTags : List (String × Tag) :=
  [("null", .null), ("bool", .bool), ("int", .int), ("float", .float), ("binary", .binary),
   ("timestamp", .timestamp), ("str", .str), ("seq", .seq), ("map", .map), ("omap", .omap),
   ("pairs", .pairs), ("set", .set), ("merge", .merge), ("value", .value)]

def tagOfUri (uri : Text) : Tag :=
  match Text.after? standardUri uri with
  | none => .unknown
  | some name => ((standardTags.find? fun x => x.1.toList == name).map (·.2)).getD .unknown

/-- A node's tag as written: none, the mark that asks for the tag by content, or one given. -/
inductive Written where
  | none | byContent | given (tag : Tag)
deriving DecidableEq, Repr

structure Composer where
  tokens : List Token
  handles : List (Text × Text)
  anchors : List (Text × Node)

abbrev Compose := StateT Composer (Except Fault)

namespace Compose

def peek? : Compose (Option Token) := do return (← get).tokens.head?

def skip : Compose Unit := modify fun s => { s with tokens := s.tokens.tail }

def fail {α : Type} (f : Fault) : Compose α := fun _ => .error f

def nextIs (ts : List Token) : Compose Bool := do
  match ← peek? with
  | some t => return ts.contains t
  | none => return false

def expect (t : Token) : Compose Unit := do
  if ← nextIs [t] then skip else fail .node

/-- Reads a token if it is next. -/
def accept (t : Token) : Compose Bool := do
  if ← nextIs [t] then
    skip
    return true
  else return false

def writtenTag (handle : Option Text) (suffix : Text) : Compose Written := do
  match handle with
  | none => return if suffix = ['!'] then .byContent else .given (tagOfUri suffix)
  | some h =>
    match (← get).handles.lookup h with
    | some uri => return .given (tagOfUri (uri ++ suffix))
    | none => fail .tag

/-- The anchor and the tag before a node, in either order. -/
def properties : Compose (Option Text × Option Written) := do
  match ← peek? with
  | some (.anchor a) =>
    skip
    match ← peek? with
    | some (.tag h t) =>
      skip
      return (some a, some (← writtenTag h t))
    | _ => return (some a, none)
  | some (.tag h t) =>
    skip
    let w ← writtenTag h t
    match ← peek? with
    | some (.anchor a) =>
      skip
      return (some a, some w)
    | _ => return (none, some w)
  | _ => return (none, none)

/-- A line break at the end of a text does not count for its tag. -/
def withoutFinalBreak (t : Text) : Text :=
  if 1 < t.length && t.getLast? == some '\n' then t.dropLast else t

def scalarNode (w : Option Written) (t : Text) (plain : Bool) : Node :=
  match w with
  | some (.given tag) => .scalar tag t
  | some .byContent => .scalar (plainTag (withoutFinalBreak t)) t
  | _ => .scalar (if plain then plainTag t else .str) t

def collectionTag (w : Option Written) (default : Tag) : Tag :=
  match w with
  | some (.given tag) => tag
  | _ => default

def empty : Node := .scalar .null []

/-- Makes the anchor of a node known while the node is read and after. -/
def anchored (a : Option Text) (read : Compose Node) : Compose Node := do
  match a with
  | none => read
  | some name =>
    if ((← get).anchors.lookup name).isSome then fail .anchor
    else
      modify fun s => { s with anchors := (name, .cycle) :: s.anchors }
      let n ← read
      modify fun s => { s with
        anchors := s.anchors.map fun x => if x.1 = name then (name, n) else x }
      return n

/-- How a node may begin: whether a block collection may, and whether a sequence may that is not
indented further than its key. -/
structure Allowed where
  block : Bool
  indentless : Bool

/-! Every call takes one unit of fuel. A node takes at least one token or is given none, so four
units for each token and four more never run out. -/

mutual
def node : Nat → Allowed → Compose Node
  | 0, _ => fail .node
  | fuel + 1, allowed => do
    match ← peek? with
    | some (.alias a) =>
      skip
      match (← get).anchors.lookup a with
      | some n => return n
      | none => fail .anchor
    | _ =>
      let (a, w) ← properties
      anchored a (content fuel allowed a w)
/-- The node behind an anchor and a tag. -/
def content : Nat → Allowed → Option Text → Option Written → Compose Node
  | 0, _, _, _ => fail .node
  | fuel + 1, allowed, a, w => do
    let next ← peek?
    if allowed.indentless && next == some .blockEntry then
      return .seq (collectionTag w .seq) (← indentlessItems fuel)
    else
      match next with
      | some (.scalar t plain) =>
        skip
        return scalarNode w t plain
      | some .flowSequenceStart =>
        skip
        return .seq (collectionTag w .seq) (← flowItems fuel true)
      | some .flowMappingStart =>
        skip
        return .map (collectionTag w .map) (← flowEntries fuel true)
      | _ =>
        if allowed.block && next == some .blockSequenceStart then
          skip
          return .seq (collectionTag w .seq) (← blockItems fuel)
        else if allowed.block && next == some .blockMappingStart then
          skip
          return .map (collectionTag w .map) (← blockEntries fuel)
        else if a.isSome || w.isSome then return scalarNode w [] true
        else fail .node
/-- A node, or an empty one before one of the given tokens. -/
def nodeUnless : Nat → Allowed → List Token → Compose Node
  | 0, _, _ => fail .node
  | fuel + 1, allowed, stops => do
    if ← nextIs stops then return empty else node fuel allowed
def blockItems : Nat → Compose (List Node)
  | 0 => fail .node
  | fuel + 1 => do
    if ← accept .blockEntry then
      let n ← nodeUnless fuel ⟨true, false⟩ [.blockEntry, .blockEnd]
      return n :: (← blockItems fuel)
    else
      expect .blockEnd
      return []
def indentlessItems : Nat → Compose (List Node)
  | 0 => fail .node
  | fuel + 1 => do
    if ← accept .blockEntry then
      let n ← nodeUnless fuel ⟨true, false⟩ [.blockEntry, .key, .value, .blockEnd]
      return n :: (← indentlessItems fuel)
    else return []
def blockEntries : Nat → Compose (List (Node × Node))
  | 0 => fail .node
  | fuel + 1 => do
    if ← accept .key then
      let k ← nodeUnless fuel ⟨true, true⟩ [.key, .value, .blockEnd]
      let v ← if ← accept .value then nodeUnless fuel ⟨true, true⟩ [.key, .value, .blockEnd]
        else pure empty
      return (k, v) :: (← blockEntries fuel)
    else
      expect .blockEnd
      return []
def flowItems : Nat → Bool → Compose (List Node)
  | 0, _ => fail .node
  | fuel + 1, first => do
    if ← accept .flowSequenceEnd then return []
    else
      if !first then expect .flowEntry
      if ← accept .flowSequenceEnd then return []
      else if ← accept .key then
        let k ← nodeUnless fuel ⟨false, false⟩ [.value, .flowEntry, .flowSequenceEnd]
        let v ← if ← accept .value then
            nodeUnless fuel ⟨false, false⟩ [.flowEntry, .flowSequenceEnd]
          else pure empty
        return .map .map [(k, v)] :: (← flowItems fuel false)
      else
        let n ← node fuel ⟨false, false⟩
        return n :: (← flowItems fuel false)
def flowEntries : Nat → Bool → Compose (List (Node × Node))
  | 0, _ => fail .node
  | fuel + 1, first => do
    if ← accept .flowMappingEnd then return []
    else
      if !first then expect .flowEntry
      if ← accept .flowMappingEnd then return []
      else if ← accept .key then
        let k ← nodeUnless fuel ⟨false, false⟩ [.value, .flowEntry, .flowMappingEnd]
        let v ← if ← accept .value then
            nodeUnless fuel ⟨false, false⟩ [.flowEntry, .flowMappingEnd]
          else pure empty
        return (k, v) :: (← flowEntries fuel false)
      else
        let k ← node fuel ⟨false, false⟩
        return (k, empty) :: (← flowEntries fuel false)
end

def defaultHandles : List (Text × Text) := [(['!'], ['!']), (['!', '!'], standardUri)]

/-- The directives before a document; each handle may be set once, and so may the version. -/
def directives : Nat → Bool → List (Text × Text) → Compose (List (Text × Text))
  | 0, _, hs => return hs
  | fuel + 1, versioned, hs => do
    match ← peek? with
    | some (.versionDirective major) =>
      if versioned || major != 1 then fail .tag
      else
        skip
        directives fuel true hs
    | some (.tagDirective h uri) =>
      if (hs.lookup h).isSome then fail .tag
      else
        skip
        directives fuel versioned ((h, uri) :: hs)
    | some .otherDirective =>
      skip
      directives fuel versioned hs
    | _ => return hs

def startsExplicitly : Option Token → Bool
  | some (.versionDirective _) | some (.tagDirective _ _) | some .otherDirective
  | some .documentStart => true
  | _ => false

/-- Skips markers of a document's end. -/
def skipEnds : Nat → Compose Unit
  | 0 => return
  | fuel + 1 => do
    if ← accept .documentEnd then skipEnds fuel

/-- The only document of a text, if it has one. -/
def document (fuel : Nat) : Compose (Option Node) := do
  match ← peek? with
  | none => return none
  | next =>
    let n ← if startsExplicitly next then do
        let hs ← directives fuel false []
        expect .documentStart
        modify fun s => { s with handles := hs ++ s.handles }
        let after ← peek?
        if after.isNone || after == some .documentEnd || startsExplicitly after then pure empty
        else node fuel ⟨true, false⟩
      else node fuel ⟨true, false⟩
    skipEnds fuel
    if (← peek?).isNone then return some n else fail .node

end Compose

/-- The node of a text, if it holds a document. -/
def compose (t : Text) : Except Fault (Option Node) := do
  let ts ← tokens t
  let (n, _) ← (Compose.document (4 * ts.length + 8)).run ⟨ts, Compose.defaultHandles, []⟩
  return n

end Restage.Yaml
