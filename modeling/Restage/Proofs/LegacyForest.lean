import Restage.Legacy.Conversion
import Restage.Proofs.QuotedScript

/-!
Forests of definitions and their two renderings. `legacyText` writes a forest with calls of
`extend`, `classText` writes it with class declarations; a forest lists its lines, its calls of base
classes and its definitions in order, and a definition holds a forest in turn.
-/

set_option autoImplicit false

namespace Restage.Legacy

/-- What stands in the header of a definition. -/
structure Head where
  indent : Text
  /-- whether the target is a member of the library or a variable -/
  exported : Bool
  name : Text
  base : Base
  params : Text
deriving DecidableEq, Repr

namespace Head

def target (library : Text) (h : Head) : Text :=
  (if h.exported then library ++ ['.'] else "var ".toList) ++ h.name

def legacyText (library : Text) (h : Head) : Text :=
  h.indent ++ h.target library ++ " = ".toList ++ h.base.text ++ ".extend(".toList ++
    "function (".toList ++ h.params ++ ") \x7b".toList

/-- The head of the class and of its constructor. -/
def classText (library : Text) (h : Head) : Text :=
  h.indent ++ h.target library ++ " = class ".toList ++ h.name ++ " extends ".toList ++
    h.base.text ++ " \x7b\n".toList ++ h.indent ++ "    constructor(".toList ++ h.params ++
    ") \x7b".toList

/-- The call of a constructor whose definition has none. -/
def insertedText (h : Head) : Text := '\n' :: h.indent ++ "        super();".toList

/-- A list of names, with commas and blanks between them. -/
def ParameterList (t : Text) : Prop :=
  (∀ c ∈ t, (Text.isNamePart c || Text.isBlank c || c == ',') = true) ∧ t.strip = t

structure WellFormed (h : Head) : Prop where
  indent : ∀ c ∈ h.indent, Piece.isIndent c = true
  name : Text.isName h.name = true
  params : ParameterList h.params

instance (h : Head) : Decidable h.WellFormed :=
  decidable_of_iff ((∀ c ∈ h.indent, Piece.isIndent c = true) ∧ Text.isName h.name = true ∧
      (∀ c ∈ h.params, (Text.isNamePart c || Text.isBlank c || c == ',') = true) ∧
        h.params.strip = h.params)
    ⟨fun w => ⟨w.1, w.2.1, w.2.2⟩, fun w => ⟨w.indent, w.name, w.params⟩⟩

end Head

/-- A call of a base class on `this`, up to its further arguments. -/
def callLead (b : Base) (args : Text) : Text :=
  b.text ++ ".call(".toList ++ "this".toList ++ (if args = [] then [] else ", ".toList)

def callText (b : Base) (args : Text) : Text := callLead b args ++ (args ++ ");".toList)

/-- Lines, calls and definitions in order. -/
inductive Forest where
  | done
  | line (text : Text) (rest : Forest)
  | call (lead : Text) (base : Base) (args : Text) (rest : Forest)
  | define (head : Head) (body rest : Forest)
deriving Repr

/-- Text that begins neither a literal nor a definition, calls no base class and holds no brace. -/
structure PlainText (t : Text) : Prop where
  one_line : '\n' ∉ t
  no_open : '{' ∉ t
  no_close : '}' ∉ t
  bare : Script.Bare t
  no_extend : ¬ ".extend(".toList <:+: t
  no_call : ¬ ".call(".toList <:+: t

instance (t : Text) : Decidable (PlainText t) :=
  decidable_of_iff ('\n' ∉ t ∧ '{' ∉ t ∧ '}' ∉ t ∧ ((∀ c ∈ t, Script.opensLiteral c = false) ∧
      ¬ "-->".toList <:+: t) ∧ ¬ ".extend(".toList <:+: t ∧ ¬ ".call(".toList <:+: t)
    ⟨fun h => ⟨h.1, h.2.1, h.2.2.1, h.2.2.2.1, h.2.2.2.2.1, h.2.2.2.2.2⟩,
      fun h => ⟨h.one_line, h.no_open, h.no_close, h.bare, h.no_extend, h.no_call⟩⟩

namespace Forest

variable (library : Text)

def legacyText : Forest → Text
  | done => []
  | line s r => s ++ '\n' :: legacyText r
  | call lead b args r => lead ++ (callText b args ++ '\n' :: legacyText r)
  | define h body r =>
    h.legacyText library ++ '\n' :: (legacyText body ++
      (h.indent ++ ("\x7d);".toList ++ '\n' :: legacyText r)))

/-- Whether a call of a base class stands in a forest outside its definitions. -/
def calls (b : Base) : Forest → Bool
  | done => false
  | line _ r => calls b r
  | call _ b' _ r => b' = b || calls b r
  | define _ _ r => calls b r

/-- The class form. The first call of the base that is due, if one is, becomes a call of `super`. -/
def classText : Option Base → Forest → Text
  | _, done => []
  | due, line s r => s ++ '\n' :: classText due r
  | due, call lead b args r =>
    if due = some b then
      lead ++ ("super(".toList ++ (args ++ ");".toList ++ '\n' :: classText none r))
    else lead ++ (callText b args ++ '\n' :: classText due r)
  | due, define h body r =>
    h.classText library ++ (if body.calls h.base then [] else h.insertedText) ++
      '\n' :: (classText (some h.base) body ++
        (h.indent ++ ("\x7d\n".toList ++ h.indent ++ ['\x7d'] ++ '\n' :: classText due r)))

def WellFormed : Forest → Prop
  | done => True
  | line s r => PlainText s ∧ WellFormed r
  | call lead _ args r =>
    (∀ c ∈ lead, Text.isBlank c = true ∧ c ≠ '\n') ∧ PlainText args ∧
      args.head?.all (fun c => !Text.isBlank c) = true ∧ WellFormed r
  | define h body r => h.WellFormed ∧ WellFormed body ∧ WellFormed r

/-- The classes of a forest, each before those it holds. -/
def names : Forest → List Text
  | done => []
  | line _ r => names r
  | call _ _ _ r => names r
  | define h body r => h.name :: (names body ++ names r)

end Forest
end Restage.Legacy
