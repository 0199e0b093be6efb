import Restage.Output.Emit
import Restage.Proofs.BracketWords
import Restage.Proofs.LegacyForest

/-!
Legacy exports as data, and the text of one. An export is a setup function around a forest of
definitions and the assets assignment, followed by the stage literal. `Formed` says which exports
are well formed, `Clear` that none of their stage values and asset strings reads as legacy code.
-/

set_option autoImplicit false

namespace Restage.Legacy

/-! The assets mapping. -/

/-- Blanks and the marks between the strings of a mapping. -/
def isFiller (c : Char) : Bool := Text.isBlank c || c == ',' || c == ':'

def quoteText (s : Text) : Text := '\x22' :: (s ++ ['\x22'])

/-- An asset and its path, each with what stands in front of it. -/
structure AssetPair where
  lead : Text
  id : Text
  middle : Text
  path : Text
deriving DecidableEq, Repr

/-- What an asset string holds: neither quotes, backslashes, line ends nor braces. -/
def AssetString (s : Text) : Prop :=
  ∀ c ∈ s, c ∉ ['\x22', '\\', '\n', '\r', '{', '}']

namespace AssetPair

def text (p : AssetPair) : Text :=
  p.lead ++ (quoteText p.id ++ (p.middle ++ quoteText p.path))

structure Formed (p : AssetPair) : Prop where
  lead : ∀ c ∈ p.lead, isFiller c = true
  middle : ∀ c ∈ p.middle, isFiller c = true
  id : AssetString p.id
  path : AssetString p.path

instance (p : AssetPair) : Decidable p.Formed :=
  decidable_of_iff ((∀ c ∈ p.lead, isFiller c = true) ∧ (∀ c ∈ p.middle, isFiller c = true) ∧
      (∀ c ∈ p.id, c ∉ ['\x22', '\\', '\n', '\r', '{', '}']) ∧
        ∀ c ∈ p.path, c ∉ ['\x22', '\\', '\n', '\r', '{', '}'])
    ⟨fun h => ⟨h.1, h.2.1, h.2.2.1, h.2.2.2⟩, fun h => ⟨h.lead, h.middle, h.id, h.path⟩⟩

end AssetPair

/-! The stage literal. -/

structure Entry where
  indent : Text
  key : Text
  value : Text
deriving DecidableEq, Repr

namespace Entry

def content (x : Entry) : Text := x.key ++ (": ".toList ++ x.value)

def line (x : Entry) : Text := x.indent ++ (x.content ++ [','])

structure Formed (x : Entry) : Prop where
  indent : ∀ c ∈ x.indent, Piece.isIndent c = true
  key_some : x.key ≠ []
  key : ∀ c ∈ x.key, Text.isNamePart c = true
  value : ∀ c ∈ x.value, c ∉ ['{', '}', '\x22', '\x27', '/', ',', '\n']
  brackets : Script.Balanced x.value

instance (x : Entry) : Decidable x.Formed :=
  decidable_of_iff ((∀ c ∈ x.indent, Piece.isIndent c = true) ∧ x.key ≠ [] ∧
      (∀ c ∈ x.key, Text.isNamePart c = true) ∧
      (∀ c ∈ x.value, c ∉ ['{', '}', '\x22', '\x27', '/', ',', '\n']) ∧ Script.Balanced x.value)
    ⟨fun h => ⟨h.1, h.2.1, h.2.2.1, h.2.2.2.1, h.2.2.2.2⟩,
      fun h => ⟨h.indent, h.key_some, h.key, h.value, h.brackets⟩⟩

end Entry

/-! The definitions. -/

/-- A line or an argument list of a well-formed export. -/
structure Mild (s : Text) : Prop extends PlainText s where
  brackets : Script.Balanced s
  no_assets : ¬ ".assets".toList <:+: s
  no_literal : ¬ "module.exports".toList <:+: s

instance (s : Text) : Decidable (Mild s) :=
  decidable_of_iff (PlainText s ∧ Script.Balanced s ∧ ¬ ".assets".toList <:+: s ∧
      ¬ "module.exports".toList <:+: s)
    ⟨fun h => ⟨h.1, h.2.1, h.2.2.1, h.2.2.2⟩,
      fun h => ⟨h.toPlainText, h.brackets, h.no_assets, h.no_literal⟩⟩

/-- A forest of definitions that each call their base class at most once, and call no other; at
the root a call of the given base is due, if any. -/
def Forest.Exportable : Option Base → Forest → Prop
  | _, done => True
  | due, line s r => Mild s ∧ Exportable due r
  | due, call lead b args r =>
    due = some b ∧ (∀ c ∈ lead, Text.isBlank c = true ∧ c ≠ '\n') ∧ Mild args ∧
      args.head?.all (fun c => !Text.isBlank c) = true ∧ Exportable none r
  | due, define h body r =>
    (h.WellFormed ∧ h.name ≠ "var".toList) ∧ Exportable (some h.base) body ∧ Exportable due r

/-- Whether a forest is exportable is decided along it. -/
def Forest.decideExportable : (due : Option Base) → (f : Forest) → Decidable (f.Exportable due)
  | _, done => isTrue trivial
  | due, line _ r =>
    have := decideExportable due r
    inferInstanceAs (Decidable (_ ∧ _))
  | _, call _ _ _ r =>
    have := decideExportable none r
    inferInstanceAs (Decidable (_ ∧ _ ∧ _ ∧ _ ∧ _))
  | due, define h body r =>
    have := decideExportable (some h.base) body
    have := decideExportable due r
    inferInstanceAs (Decidable ((_ ∧ _) ∧ _ ∧ _))

instance (due : Option Base) (f : Forest) : Decidable (f.Exportable due) :=
  f.decideExportable due

theorem exportable_well_formed {due : Option Base} {f : Forest} (hf : f.Exportable due) :
    f.WellFormed := by
  induction f generalizing due with
  | done => trivial
  | line s r ih => exact ⟨hf.1.toPlainText, ih hf.2⟩
  | call lead b args r ih =>
    obtain ⟨_, hlead, ha, hhead, hr⟩ := hf
    exact ⟨hlead, ha.toPlainText, hhead, ih hr⟩
  | define h body r ihb ihr => exact ⟨hf.1.1, ihb hf.2.1, ihr hf.2.2⟩

/-! Exports. -/

structure Export where
  namespaceAlias : Text
  libraryAlias : Text
  /-- what stands in front of the assets assignment -/
  front : Forest
  indent : Text
  stage : Text
  pairs : List AssetPair
  /-- what stands behind the last asset -/
  close : Text
  back : Forest
  entries : List Entry
deriving Repr

namespace Export

variable (e : Export)

/-- The mapping between its braces. -/
def inner : Text := e.pairs.flatMap AssetPair.text ++ e.close

/-- The assets assignment, for a name of the library. -/
def assignment (library : Text) : Text :=
  e.indent ++ (library ++ ('.' :: (e.stage ++ (".assets".toList ++
    (" = ".toList ++ ('{' :: (e.inner ++ "\x7d;".toList)))))))

def body : Text :=
  '\n' :: (e.front.legacyText e.libraryAlias ++
    (e.assignment e.libraryAlias ++ '\n' :: e.back.legacyText e.libraryAlias))

def opening : Text :=
  "(function (".toList ++ (e.namespaceAlias ++ (", ".toList ++ (e.libraryAlias ++ ") \x7b".toList)))

/-- The arguments of the setup function. -/
def arguments : Text :=
  e.namespaceAlias ++ (", ".toList ++ (e.libraryAlias ++ " = \x7b\x7d);\n".toList))

def literal : Text :=
  "module.exports = \x7b\n".toList ++
    (e.entries.flatMap (fun x => x.line ++ ['\n']) ++ "\x7d;".toList)

def text : Text :=
  e.opening ++ (e.body ++ (Setup.closing ++ (e.arguments ++ (e.literal ++ ['\n']))))

structure Formed : Prop where
  namespaceAlias : Text.isName e.namespaceAlias = true
  libraryAlias : Text.isName e.libraryAlias = true
  distinct : e.namespaceAlias ≠ e.libraryAlias
  front : e.front.Exportable none
  indent : ∀ c ∈ e.indent, Piece.isIndent c = true
  stage : Text.isName e.stage = true
  pairs : ∀ p ∈ e.pairs, p.Formed
  close : ∀ c ∈ e.close, isFiller c = true
  back : e.back.Exportable none
  entries : ∀ x ∈ e.entries, x.Formed

instance : Decidable e.Formed :=
  decidable_of_iff (Text.isName e.namespaceAlias = true ∧ Text.isName e.libraryAlias = true ∧
      e.namespaceAlias ≠ e.libraryAlias ∧ e.front.Exportable none ∧
      (∀ c ∈ e.indent, Piece.isIndent c = true) ∧ Text.isName e.stage = true ∧
      (∀ p ∈ e.pairs, p.Formed) ∧ (∀ c ∈ e.close, isFiller c = true) ∧ e.back.Exportable none ∧
      ∀ x ∈ e.entries, x.Formed)
    ⟨fun h => ⟨h.1, h.2.1, h.2.2.1, h.2.2.2.1, h.2.2.2.2.1, h.2.2.2.2.2.1, h.2.2.2.2.2.2.1,
        h.2.2.2.2.2.2.2.1, h.2.2.2.2.2.2.2.2.1, h.2.2.2.2.2.2.2.2.2⟩,
      fun h => ⟨h.namespaceAlias, h.libraryAlias, h.distinct, h.front, h.indent, h.stage, h.pairs,
        h.close, h.back, h.entries⟩⟩

/-- The word in front of the assets assignment in a module. -/
def assetsWord (stage : Text) : Text := "data.lib.".toList ++ stage ++ ".assets".toList

/-- A text with what the check of the assets assignment takes for one that was left. -/
def Assigns (stage t : Text) : Prop := Text.Spells (assetsWord stage) ['='] t

/-- A text with a definition or a call of a base class in its legacy form. -/
def Residual (t : Text) : Prop :=
  ∃ b : Base, Text.Spells (b.text ++ ".extend(".toList) "function".toList t ∨
    Text.Spells (b.text ++ ".call(".toList) "this".toList t

/-- A stage value without template, without line end and without a legacy construct. -/
structure ClearValue (stage t : Text) : Prop where
  no_template : '\x60' ∉ t
  one_line : ∀ c ∈ t, Script.isNewline c = false
  no_residue : ¬ Residual t
  no_assets : ¬ Assigns stage t

structure Clear : Prop where
  values : ∀ x ∈ e.entries, ClearValue e.stage x.value
  strings : ∀ p ∈ e.pairs, ¬ Assigns e.stage p.id ∧ ¬ Assigns e.stage p.path

/-- An import source that can be written between single quotes. -/
structure ClearSource (stage s : Text) : Prop where
  quotable : ∀ c ∈ s, c ∉ ['\x27', '\\', '\n', '\r']
  no_assets : ¬ Assigns stage s

end Export
end Restage.Legacy
