import Restage.Yaml.Scalar

/-!
Tokens of a YAML text. Indentation becomes tokens that open and close block collections. A key is
known only when its colon is met, so the token that announces it is put in front of it later; the
places where a key may have begun are kept, one for each depth of flow collections.
-/

set_option autoImplicit false

namespace Restage.Yaml

inductive Token where
  | versionDirective (major : Nat)
  | tagDirective (handle uri : Text)
  | otherDirective
  | documentStart | documentEnd
  | blockSequenceStart | blockMappingStart | blockEnd
  | flowSequenceStart | flowSequenceEnd | flowMappingStart | flowMappingEnd
  | blockEntry | flowEntry | key | value
  | alias (name : Text)
  | anchor (name : Text)
  | tag (handle : Option Text) (suffix : Text)
  | scalar (text : Text) (plain : Bool)
deriving DecidableEq, Repr

/-- A place where a key may have begun. -/
structure Candidate where
  depth : Nat
  number : Nat
  required : Bool
  index : Nat
  line : Nat
  column : Nat
deriving Repr

structure Scanner where
  cursor : Cursor
  tokens : Array Token
  depth : Nat
  indent : Int
  outer : List Int
  keyAllowed : Bool
  candidates : List Candidate

namespace Scanner

def ofText (t : Text) : Scanner := ⟨.ofText t, #[], 0, -1, [], true, []⟩

def push (s : Scanner) (t : Token) : Scanner := { s with tokens := s.tokens.push t }
def goto (s : Scanner) (c : Cursor) : Scanner := { s with cursor := c }
def allow (s : Scanner) (b : Bool) : Scanner := { s with keyAllowed := b }
def inFlow (s : Scanner) : Bool := s.depth != 0

/-- Goes to the next token: over blanks, comments and line breaks. A line break in a block allows a
key to begin. -/
def toNext : Nat → Scanner → Scanner
  | 0, s => s
  | fuel + 1, s =>
    let c := s.cursor.skipBlanks
    let c := if c.here == '#' then c.skipRun fun x => !isBreak x else c
    if isBreak c.here then
      let s := s.goto c.lineBreak.2
      toNext fuel (if s.inFlow then s else s.allow true)
    else s.goto c

/-- Whether a place is too far back to begin a key here: keys keep to a line and to 1024
characters. -/
def stale (s : Scanner) (k : Candidate) : Bool :=
  k.line != s.cursor.line || 1024 < s.cursor.index - k.index

def dropStale (s : Scanner) : Except Fault Scanner :=
  if s.candidates.any fun k => s.stale k && k.required then .error .key
  else .ok { s with candidates := s.candidates.filter fun k => !s.stale k }

def removeCandidate (s : Scanner) : Except Fault Scanner :=
  if s.candidates.any fun k => k.depth == s.depth && k.required then .error .key
  else .ok { s with candidates := s.candidates.filter fun k => k.depth != s.depth }

def saveCandidate (s : Scanner) : Except Fault Scanner :=
  if s.keyAllowed then do
    let required := !s.inFlow && s.indent == (s.cursor.column : Int)
    let s ← s.removeCandidate
    return { s with candidates :=
      ⟨s.depth, s.tokens.size, required, s.cursor.index, s.cursor.line, s.cursor.column⟩ ::
        s.candidates }
  else .ok s

/-- Closes the blocks that are indented further than a column. -/
def unwind (column : Int) : List Int → Scanner → Scanner
  | [], s => s
  | i :: is, s =>
    if s.inFlow || s.indent ≤ column then s
    else unwind column is { s.push .blockEnd with indent := i, outer := is }

def unwindTo (s : Scanner) (column : Int) : Scanner := unwind column s.outer s

/-- Opens a block at a column unless one is open there, with its token at the given place. -/
def openBlock (s : Scanner) (column : Nat) (place : Nat) (t : Token) : Scanner :=
  if s.indent < (column : Int) then
    { s with
      indent := column
      outer := s.indent :: s.outer
      tokens := s.tokens.insertIdxIfInBounds place t }
  else s

def directive (s : Scanner) : Except Fault Scanner := do
  let s ← (s.unwindTo (-1)).removeCandidate
  let c := s.cursor.advance 1
  let name := c.run isWordChar
  let c := c.advance name.length
  if name.isEmpty || !isSpaceOrEnd c.here then .error .token
  else
    let (t, c) ← (
      if name = "YAML".toList then
        let c := c.skipBlanks
        let major := c.run Text.isDigit
        let d := c.advance major.length
        let minor := (d.advance 1).run Text.isDigit
        let e := d.advance (1 + minor.length)
        if major.isEmpty || minor.isEmpty || d.here != '.' || !isSpaceOrEnd e.here then
          .error .token
        else
          .ok (.versionDirective (major.foldl (fun n x => n * 10 + (x.toNat - 48)) 0), e)
      else if name = "TAG".toList then
        let c := c.skipBlanks
        let inner := (c.advance 1).run isWordChar
        let closed := (c.advance 1).peek inner.length == '!'
        let handle := if inner.isEmpty && !closed then ['!'] else '!' :: inner ++ ['!']
        let d := c.advance handle.length
        let e := d.skipBlanks
        let uri := e.run fun x => x.isAlphanum || "-;/?:@&=+$,_.!~*'()[]%".toList.contains x
        let f := e.advance uri.length
        if c.here != '!' || (!inner.isEmpty && !closed) || d.here != ' ' || uri.isEmpty ||
            !isSpaceOrEnd f.here then .error .token
        else .ok (.tagDirective handle uri, f)
      else .ok (.otherDirective, c.skipRun fun x => !isBreak x) : Except Fault (Token × Cursor))
    let c ← ignoredLine c
    return ((s.push t).goto c).allow false

def marker (s : Scanner) (t : Token) : Except Fault Scanner := do
  let s ← (s.unwindTo (-1)).removeCandidate
  return ((s.push t).goto (s.cursor.advance 3)).allow false

def flowOpen (s : Scanner) (t : Token) : Except Fault Scanner := do
  let s ← s.saveCandidate
  return { (s.push t).goto (s.cursor.advance 1) with depth := s.depth + 1, keyAllowed := true }

def flowClose (s : Scanner) (t : Token) : Except Fault Scanner := do
  let s ← s.removeCandidate
  if s.depth = 0 then .error .node
  else
    return { (s.push t).goto (s.cursor.advance 1) with depth := s.depth - 1, keyAllowed := false }

def flowEntry (s : Scanner) : Except Fault Scanner := do
  let s ← (s.allow true).removeCandidate
  return (s.push .flowEntry).goto (s.cursor.advance 1)

def blockEntry (s : Scanner) : Except Fault Scanner := do
  if !s.inFlow && !s.keyAllowed then .error .token
  else
    let s := if s.inFlow then s
      else s.openBlock s.cursor.column s.tokens.size .blockSequenceStart
    let s ← (s.allow true).removeCandidate
    return (s.push .blockEntry).goto (s.cursor.advance 1)

def explicitKey (s : Scanner) : Except Fault Scanner := do
  if !s.inFlow && !s.keyAllowed then .error .token
  else
    let s := if s.inFlow then s
      else s.openBlock s.cursor.column s.tokens.size .blockMappingStart
    let s ← (s.allow !s.inFlow).removeCandidate
    return (s.push .key).goto (s.cursor.advance 1)

def value (s : Scanner) : Except Fault Scanner := do
  let s ← match s.candidates.find? fun k => k.depth == s.depth with
    | some k =>
      let s := { s with
        candidates := s.candidates.filter fun x => x.depth != s.depth
        tokens := s.tokens.insertIdxIfInBounds k.number .key }
      let s := if s.inFlow then s else s.openBlock k.column k.number .blockMappingStart
      pure (s.allow false)
    | none =>
      if !s.inFlow && !s.keyAllowed then .error .token
      else
        let s := if s.inFlow then s
          else s.openBlock s.cursor.column s.tokens.size .blockMappingStart
        (s.allow !s.inFlow).removeCandidate
  return (s.push .value).goto (s.cursor.advance 1)

def isAfterName (c : Char) : Bool := isGap c || "?:,]\x7d%@".toList.contains c || c == '\x60'

def named (s : Scanner) (make : Text → Token) : Except Fault Scanner := do
  let s ← s.saveCandidate
  let c := s.cursor.advance 1
  let name := c.run isWordChar
  let c := c.advance name.length
  if name.isEmpty || !isAfterName c.here then .error .token
  else return ((s.push (make name)).goto c).allow false

def isUriChar (c : Char) : Bool :=
  c.isAlphanum || "-;/?:@&=+$,_.!~*'()[]%".toList.contains c

def tag (s : Scanner) : Except Fault Scanner := do
  let s ← s.saveCandidate
  let c := s.cursor
  let (t, d) ← (
    if c.peek 1 == '<' then
      let uri := (c.advance 2).run isUriChar
      let d := c.advance (2 + uri.length)
      if uri.isEmpty || d.here != '>' then .error .token else .ok (.tag none uri, d.advance 1)
    else if isGap (c.peek 1) then .ok (.tag none ['!'], c.advance 1)
    else
      let word := (c.advance 1).run fun x => !isSpaceOrEnd x
      if word.contains '!' then
        let inner := (c.advance 1).run isWordChar
        let d := c.advance (1 + inner.length)
        let uri := (d.advance 1).run isUriChar
        if d.here != '!' || uri.isEmpty then .error .token
        else .ok (.tag (some ('!' :: inner ++ ['!'])) uri, d.advance (1 + uri.length))
      else
        let uri := (c.advance 1).run isUriChar
        if uri.isEmpty then .error .token
        else .ok (.tag (some ['!']) uri, c.advance (1 + uri.length)) :
      Except Fault (Token × Cursor))
  if isSpaceOrEnd d.here then return ((s.push t).goto d).allow false else .error .token

def block (s : Scanner) (fold : Bool) : Except Fault Scanner := do
  let s ← (s.allow true).removeCandidate
  let (t, c) ← blockScalar fold s.indent (s.cursor.advance 1)
  return (s.push (.scalar t false)).goto c

def quoted (s : Scanner) (double : Bool) : Except Fault Scanner := do
  let s ← s.saveCandidate
  let (t, c) ← quotedFrom double (s.cursor.size + 1) (s.cursor.advance 1)
  return ((s.push (.scalar t false)).goto c).allow false

def plain (s : Scanner) : Except Fault Scanner := do
  let s ← s.saveCandidate
  let (t, ended, c) :=
    plainFrom s.inFlow (s.indent + 1).toNat [] false (s.cursor.size + 1) s.cursor
  return ((s.push (.scalar t true)).goto c).allow ended

def startsPlain (s : Scanner) (c next : Char) : Bool :=
  !(isGap c || "-?:,[]\x7b\x7d#&*!|>'\"%@".toList.contains c || c == '\x60') ||
    (!isGap next && (c == '-' || (!s.inFlow && (c == '?' || c == ':'))))

/-- Reads the token that begins at this place. -/
def token (s : Scanner) : Except Fault Scanner :=
  let c := s.cursor.here
  let next := s.cursor.peek 1
  let first := s.cursor.column == 0
  if first && c == '%' then s.directive
  else if first && s.cursor.atMarker then
    s.marker (if c == '-' then .documentStart else .documentEnd)
  else if c == '[' then s.flowOpen .flowSequenceStart
  else if c == '{' then s.flowOpen .flowMappingStart
  else if c == ']' then s.flowClose .flowSequenceEnd
  else if c == '}' then s.flowClose .flowMappingEnd
  else if c == ',' then s.flowEntry
  else if c == '-' && isGap next then s.blockEntry
  else if c == '?' && (s.inFlow || isGap next) then s.explicitKey
  else if c == ':' && (s.inFlow || isGap next) then s.value
  else if c == '*' then s.named .alias
  else if c == '&' then s.named .anchor
  else if c == '!' then s.tag
  else if c == '|' && !s.inFlow then s.block false
  else if c == '>' && !s.inFlow then s.block true
  else if c == '\x27' then s.quoted false
  else if c == '\x22' then s.quoted true
  else if s.startsPlain c next then s.plain
  else .error .token

/-- Reads tokens to the end of the text. Each takes at least one character. -/
def scan : Nat → Scanner → Except Fault (List Token)
  | 0, _ => .error .token
  | fuel + 1, s => do
    let s ← (s.toNext (s.cursor.size + 1)).dropStale
    let s := s.unwindTo s.cursor.column
    if s.cursor.rest.isEmpty then
      let s ← (s.unwindTo (-1)).removeCandidate
      return s.tokens.toList
    else scan fuel (← s.token)

end Scanner

/-- The tokens of a text. -/
def tokens (t : Text) : Except Fault (List Token) :=
  if t.all isPrintable then
    let t := if t.head?.any fun c => c.toNat = 0xFEFF then t.drop 1 else t
    Scanner.scan (t.length + 2) (.ofText t)
  else .error .unprintable

end Restage.Yaml
