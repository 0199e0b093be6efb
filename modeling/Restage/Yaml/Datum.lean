import Restage.Yaml.Node
import Restage.Yaml.Number

/-!
The data that a YAML document stands for. A scalar is read as its tag says; a merge key puts the
entries of other mappings before those of its own one.
-/

set_option autoImplicit false

namespace Restage.Yaml

/-- What the nodes of a document stand for. Entries are in order; of two with one key the later
counts. -/
inductive Datum where
  | null
  | bool (b : Bool)
  | int (i : Int)
  | real (x : Binary64)
  | str (t : Text)
  | moment (m : Timestamp)
  | bytes (empty : Bool)
  | set (empty : Bool)
  | pairs (empty : Bool)
  | seq (items : List Datum)
  | map (entries : List (Datum × Datum))

/-- Why a text has no data: it is not well formed, or a scalar does not fit its tag. -/
inductive Error where
  | form (f : Fault)
  | flag (t : Text)
  | number (f : Number.Fault)
  | noMoment
  | moment (f : Timestamp.Fault)
deriving DecidableEq, Repr

def Error.message : Error → String
  | form f => f.message
  | flag t => t.quoted.str
  | number f => f.message
  | noMoment => "no moment is written"
  | moment f => f.message

namespace Datum

/-- Whether a datum counts as nothing: null, false, zero and what is empty. -/
def isVoid : Datum → Bool
  | null => true
  | bool b => !b
  | int i => i == 0
  | real x => x.isZero
  | str t => t.isEmpty
  | moment _ => false
  | bytes empty | set empty | pairs empty => empty
  | seq items => items.isEmpty
  | map entries => entries.isEmpty

/-- Whether a datum can be a key. -/
def isKey : Datum → Bool
  | set _ | pairs _ | seq _ | map _ => false
  | _ => true

/-- The value of a text key. -/
def get? (key : Text) (entries : List (Datum × Datum)) : Option Datum :=
  (entries.reverse.find? fun e => match e.1 with
    | str t => t == key
    | _ => false).map (·.2)

end Datum

/-! Scalars. -/

/-- How many bytes of base 64 a text holds, up to two missing; padding must be complete. Characters
that are no digits do not count. -/
def base64Digits (t : Text) : Option Nat :=
  let isDigit (c : Char) : Bool := c.isAlphanum || c == '+' || c == '/'
  let step (s : Nat × Nat × Bool) (c : Char) : Nat × Nat × Bool :=
    let (digits, pads, closed) := s
    if closed then s
    else if c = '=' then
      if 2 ≤ digits % 4 then (digits, pads + 1, 4 ≤ digits % 4 + pads + 1) else s
    else if isDigit c then (digits + 1, 0, false)
    else s
  let (digits, _, closed) := t.foldl step (0, 0, false)
  if closed || digits % 4 = 0 then some digits else none

def binary (t : Text) : Except Error Datum :=
  if t.all fun c => c.toNat < 128 then
    match base64Digits t with
    | some n => .ok (.bytes (n < 2))
    | none => .error (.form .node)
  else .error (.form .node)

def flag (t : Text) : Except Error Datum :=
  let u := t.map Char.toLower
  if isTrue u then .ok (.bool true)
  else if isFalse u then .ok (.bool false)
  else .error (.flag u)

def moment (t : Text) : Except Error Datum :=
  match Timestamp.parse? t with
  | none => .error .noMoment
  | some m =>
    match m.check with
    | .ok () => .ok (.moment m)
    | .error f => .error (.moment f)

/-- The datum of a scalar. -/
def scalarDatum (tag : Tag) (t : Text) : Except Error Datum :=
  match tag with
  | .null => .ok .null
  | .bool => flag t
  | .int => (Number.int t).map .int |>.mapError .number
  | .float => (Number.float t).map .real |>.mapError .number
  | .binary => binary t
  | .timestamp => moment t
  | .str => .ok (.str t)
  | .seq | .map | .omap | .pairs | .set => .error (.form .node)
  | .merge | .value | .unknown => .error (.form .tag)

mutual
/-- The text of a node that is to be read as a scalar: for a mapping, the one at its value key. -/
def scalarText? : Node → Option Text
  | .scalar _ t => some t
  | .map _ es => valueText? es
  | _ => none
def valueText? : List (Node × Node) → Option Text
  | [] => none
  | (.scalar .value _, v) :: _ => scalarText? v
  | _ :: es => valueText? es
end

/-- The datum of a collection that is tagged as a scalar. -/
def asScalar (tag : Tag) (n : Node) : Except Error Datum :=
  match scalarText? n with
  | some t => scalarDatum tag t
  | none => .error (.form (if tag = .merge ∨ tag = .value ∨ tag = .unknown then .tag else .node))

/-! Collections. -/

abbrev Entries := List (Datum × Datum)

/-- The entries that merge keys bring, and a mapping's own ones. -/
structure Merged where
  brought : Entries
  own : Entries

def Merged.all (m : Merged) : Entries := m.brought ++ m.own

mutual
/-- The datum of a node. A node that holds itself is a collection and not empty. -/
def datum : Node → Except Error Datum
  | .scalar tag t => scalarDatum tag t
  | .cycle => .ok (.seq [.null])
  | .seq .seq ns => (items ns).map .seq
  | .seq .omap ns => (pairs ns).map fun n => .pairs (n == 0)
  | .seq .pairs ns => (pairs ns).map fun n => .pairs (n == 0)
  | .seq tag ns => asScalar tag (.seq tag ns)
  | .map .map es => (mapping es).map fun m => .map m.all
  | .map .set es => (mapping es).map fun m => .set m.all.isEmpty
  | .map tag es => asScalar tag (.map tag es)
def items : List Node → Except Error (List Datum)
  | [] => .ok []
  | n :: ns => do
    let d ← datum n
    return d :: (← items ns)
/-- How many pairs a list of mappings with one entry each holds. -/
def pairs : List Node → Except Error Nat
  | [] => .ok 0
  | .map _ [(k, v)] :: ns => do
    let _ ← datum k
    let _ ← datum v
    return (← pairs ns) + 1
  | _ :: _ => .error (.form .node)
def mapping : List (Node × Node) → Except Error Merged
  | [] => .ok ⟨[], []⟩
  | (.scalar .merge _, v) :: es => do
    let brought ← merged v
    let m ← mapping es
    return { m with brought := brought ++ m.brought }
  | (.scalar .value t, v) :: es => do
    let d ← datum v
    let m ← mapping es
    return { m with own := (.str t, d) :: m.own }
  | (k, v) :: es => do
    let key ← datum k
    if !key.isKey then .error (.form .key)
    else
      let d ← datum v
      let m ← mapping es
      return { m with own := (key, d) :: m.own }
/-- The entries of what a merge key is given: a mapping, or a list of mappings. -/
def merged : Node → Except Error Entries
  | .map _ es => (mapping es).map Merged.all
  | .seq _ ns => mergedItems ns
  | .cycle => .ok []
  | .scalar _ _ => .error (.form .node)
/-- The entries of listed mappings, those of the first one last, so that they count. -/
def mergedItems : List Node → Except Error Entries
  | [] => .ok []
  | .map _ es :: ns => do
    let first ← mapping es
    return (← mergedItems ns) ++ first.all
  | .cycle :: ns => mergedItems ns
  | _ :: _ => .error (.form .node)
end

/-- The datum of a text; a text without a document is null. -/
def read (t : Text) : Except Error Datum :=
  match compose t with
  | .error f => .error (.form f)
  | .ok none => .ok .null
  | .ok (some n) => datum n

end Restage.Yaml
