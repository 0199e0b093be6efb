import Restage.Proofs.MigrationNotes
import Restage.Proofs.OutputModes
import Restage.Proofs.SealedText

/-!
How the stage of a migrated module is attached. Where the rewritten setup body assigns the assets of
the stage, the first such assignment gives way to the stage statement, which then stands there once
more than before; where it does not, the body is kept and a warning says so (`stage_attached`). The
stage is looked for in the whole source, so it need not be attached (`stage_left_unattached`).
-/

set_option autoImplicit false

namespace Restage

namespace Text

/-- A word stands at a position of a text. -/
def StandsAt (w t : Text) (i : Nat) : Prop := ∃ u v, t = u ++ (w ++ v) ∧ u.length = i

section

variable {c : Char} {k : Text} (hk : c ∉ k)
include hk

/-- A word that has its last character only there does not begin with an end of its own. -/
theorem last_unbordered {x y : Text} (hx : x ≠ []) (hy : y ≠ []) (h : k ++ [c] = x ++ y) :
    ¬ y <+: k ++ [c] := by
  intro hprefix
  have hlast : c ∈ y := by
    have hmem : y.getLast hy = c := by
      have := congrArg List.getLast? h
      rw [List.getLast?_concat, List.getLast?_append_of_ne_nil _ hy, List.getLast?_eq_some_getLast hy]
        at this
      exact (Option.some.inj this).symm
    exact hmem ▸ List.getLast_mem hy
  have hlength := congrArg List.length h
  have hpos := List.length_pos_of_ne_nil hx
  simp only [List.length_append, List.length_singleton] at hlength
  exact hk ((List.prefix_of_prefix_length_le hprefix (List.prefix_append k [c]) (by omega)).subset
    hlast)

/-- Behind one occurrence of such a word the next one begins where it has ended. -/
theorem last_behind {x p q : Text} (hx : x ≠ [])
    (h : (k ++ [c]) ++ p = x ++ ((k ++ [c]) ++ q)) :
    ∃ y, x = (k ++ [c]) ++ y ∧ p = y ++ ((k ++ [c]) ++ q) := by
  rcases List.append_eq_append_iff.1 h with ⟨y, hy, hp⟩ | ⟨y, hy, hq⟩
  · exact ⟨y, hy, hp⟩
  · have hborder : y <+: k ++ [c] := by
      refine List.prefix_of_prefix_length_le ⟨p, hq.symm⟩ (List.prefix_append _ q) ?_
      rw [hy, List.length_append]
      exact Nat.le_add_left _ _
    have hnone : y = [] := by
      by_contra hsome
      exact last_unbordered hk hx hsome hy hborder
    subst hnone
    rw [List.append_nil] at hy
    exact ⟨[], by rw [List.append_nil, hy], hq.symm⟩

/-- So between two texts it stands once, or in one of them. -/
theorem last_apart {pre post a b : Text}
    (h : pre ++ ((k ++ [c]) ++ post) = a ++ ((k ++ [c]) ++ b)) :
    a = pre ∨ k ++ [c] <:+: pre ∨ k ++ [c] <:+: post := by
  rcases List.append_eq_append_iff.1 h with ⟨x, ha, hx⟩ | ⟨x, hpre, hx⟩
  · by_cases hsome : x = []
    · exact Or.inl (by rw [ha, hsome, List.append_nil])
    · obtain ⟨y, _, hpost⟩ := last_behind hk hsome hx
      exact Or.inr (Or.inr ⟨y, b, by rw [hpost, List.append_assoc]⟩)
  · by_cases hsome : x = []
    · exact Or.inl (by rw [hpre, hsome, List.append_nil])
    · obtain ⟨y, hy, _⟩ := last_behind hk hsome hx
      exact Or.inr (Or.inl ⟨a, y, by rw [hpre, hy, List.append_assoc]⟩)

/-- Between texts without it such a word stands once. -/
theorem stands_once {pre post : Text} (hpre : ¬ k ++ [c] <:+: pre) (hpost : ¬ k ++ [c] <:+: post) :
    ∃! i, StandsAt (k ++ [c]) (pre ++ ((k ++ [c]) ++ post)) i := by
  refine ⟨pre.length, ⟨pre, post, rfl, rfl⟩, ?_⟩
  rintro _ ⟨u, v, h, rfl⟩
  rcases last_apart hk h with rfl | h | h
  · rfl
  · exact absurd h hpre
  · exact absurd h hpost

end

theorem dropWhile_until {p : Char → Bool} {u v : Text} (hv : v.head?.any (fun c => !p c) = true) :
    (u ++ v).dropWhile p = u.dropWhile p ++ v := by
  obtain ⟨c, v, rfl⟩ : ∃ c w, v = c :: w := by
    cases v with
    | nil => simp at hv
    | cons c v => exact ⟨c, v, rfl⟩
  have hc : ¬ p c = true := by simpa using hv
  rw [List.dropWhile_append]
  split
  · next hnone => rw [List.isEmpty_iff.1 hnone, List.nil_append, List.dropWhile_cons_of_neg hc]
  · rfl

/-- What is trimmed lies outside of a word without the characters of the class. -/
theorem trim_around {p : Char → Bool} {w : Text} (hw : w ≠ []) (hp : ∀ c ∈ w, p c = false)
    (u v : Text) : trim p (u ++ (w ++ v)) = u.dropWhile p ++ (w ++ trimEnd p v) := by
  have hfront : (w ++ v).head?.any (fun c => !p c) = true := by
    cases w with
    | nil => exact absurd rfl hw
    | cons c w => simp [hp c (by simp)]
  have hback : (w.reverse ++ (u.dropWhile p).reverse).head?.any (fun c => !p c) = true := by
    cases hr : w.reverse with
    | nil => exact absurd (List.reverse_eq_nil_iff.1 hr) hw
    | cons c r => simp [hp c (List.mem_reverse.1 (by simp [hr]))]
  rw [trim, trimEnd, dropWhile_until hfront, List.reverse_append, List.reverse_append,
    List.append_assoc, dropWhile_until hback, List.reverse_append, List.reverse_append,
    List.reverse_reverse, List.reverse_reverse, List.append_assoc]

end Text

namespace Output

open Legacy
open Export (Assigns assetsWord)
open Text (endOf)
open Script (importText)

/-! The setup body in its module. -/

section

variable (target : Target) (assets : Assets) (stage : Stage)

/-- The lines of the `data` object in front of the setup body. -/
def dataFront : List Text :=
  ["const data = \x7b".toList, "    stage: null,".toList] ++
  stage.lines.map ("    ".toList ++ ·) ++
  ["    assets: ".toList ++ assets.mapping ++ [','],
   "    lib: \x7b\x7d,".toList, "    shapes: \x7b\x7d,".toList, "    textures: \x7b\x7d,".toList,
   "    spritesheets: [],".toList] ++ textureAccessor ++
  ["    setup: function(".toList ++ target.namespaceName ++ ") \x7b".toList]

/-- The module in front of the setup body. -/
def frontText (mode : Mode) : Text :=
  (if mode.autorun then importText target.namespaceName target.importSource else []) ++
    moduleText (dataFront target assets stage)

/-- The module behind the setup body. -/
def backText (mode : Mode) (exports : List Text) : Text :=
  '\n' :: moduleText (["    \x7d".toList, "\x7d;".toList] ++ closingLines target mode exports)

theorem emit_setup (mode : Mode) (exports : List Text) (body : Text) :
    emitText target assets stage mode exports body = frontText target assets stage mode ++
      (Text.trim isCut (attachedBody assets body) ++ backText target mode exports) := by
  have hdata : dataLines target assets stage (attachedBody assets body) =
      dataFront target assets stage ++ ([Text.trim isCut (attachedBody assets body)] ++
        ["    \x7d".toList, "\x7d;".toList]) := by
    unfold dataLines dataFront
    simp only [List.append_assoc]
    rfl
  have hbody : ∀ b : Text, moduleText [b] = b ++ ['\n'] := fun b => by simp [moduleText]
  rw [emit_parts, dataText, hdata, module_append, module_append, hbody, frontText, backText,
    module_append]
  simp only [List.append_assoc, List.cons_append, List.nil_append]

end

/-! The assignment of the assets. -/

/-- What stands in an assignment of the assets of a stage. -/
structure Assignment where
  before : Text
  behind : Text
  mapping : Text
  ended : Bool

namespace Assignment

/-- The mapping is in one pair of braces, with blanks around the equals sign. -/
structure Formed (x : Assignment) : Prop where
  before : ∀ c ∈ x.before, Text.isBlank c = true
  behind : ∀ c ∈ x.behind, Text.isBlank c = true
  mapping : '}' ∉ x.mapping

def parts (s : Text) (x : Assignment) : List Text :=
  [assetsWord s, x.before, ['='], x.behind, ['{'], x.mapping, ['}'], if x.ended then [';'] else []]

def text (s : Text) (x : Assignment) : Text := (x.parts s).flatten

end Assignment

theorem assignment_fits {s v : Text} {b : Option Char} {parts : List Text} :
    (assetsAssignment s).fits? b v = some parts ↔ Pattern.freshName b = true ∧
      ∃ (x : Assignment) (post : Text), x.Formed ∧ v = x.text s ++ post ∧
        (x.ended = false → post.head? ≠ some ';') ∧ parts = x.parts s := by
  have hbehind : (assetsAssignment s).behind = Pattern.freshName := rfl
  rw [Pattern.fits_some, hbehind, attach_pieces, List.nil_append]
  refine and_congr_right fun _ => ⟨fun ⟨r, hr⟩ => ?_, ?_⟩
  · obtain ⟨_, _, _, g1, h1, hparts⟩ := Piece.readAll_cons_iff.1 hr
    obtain ⟨before, _, _, g2, h2, rfl⟩ := Piece.readAll_cons_iff.1 h1
    obtain ⟨_, _, _, g3, h3, rfl⟩ := Piece.readAll_cons_iff.1 h2
    obtain ⟨behind, _, _, g4, h4, rfl⟩ := Piece.readAll_cons_iff.1 h3
    obtain ⟨_, _, _, g5, h5, rfl⟩ := Piece.readAll_cons_iff.1 h4
    obtain ⟨mapping, _, _, g6, h6, rfl⟩ := Piece.readAll_cons_iff.1 h5
    obtain ⟨_, rest, _, g7, h7, rfl⟩ := Piece.readAll_cons_iff.1 h6
    obtain ⟨last, post, _, g8, h8, rfl⟩ := Piece.readAll_cons_iff.1 h7
    obtain ⟨rfl, rfl⟩ := Piece.readAll_nil_iff.1 h8
    obtain ⟨rfl, rfl⟩ := Piece.word_split_iff.1 g1
    obtain ⟨rfl, _, hbefore, _⟩ := Piece.run_split_iff.1 g2
    obtain ⟨rfl, rfl⟩ := Piece.word_split_iff.1 g3
    obtain ⟨rfl, _, hbehind, _⟩ := Piece.run_split_iff.1 g4
    obtain ⟨rfl, rfl⟩ := Piece.word_split_iff.1 g5
    obtain ⟨rfl, _, hmapping, _⟩ := Piece.run_split_iff.1 g6
    obtain ⟨rfl, rfl⟩ := Piece.word_split_iff.1 g7
    have hmapping : '}' ∉ mapping := fun hin => absurd (hmapping _ hin) (by decide)
    obtain ⟨ended, rfl, rfl, hend⟩ := Piece.maybe_split_iff.1 g8
    exact ⟨⟨before, behind, mapping, ended⟩, r, ⟨hbefore, hbehind, hmapping⟩,
      by simp [Assignment.text, Assignment.parts], hend, hparts⟩
  · rintro ⟨x, post, hx, rfl, hend, rfl⟩
    refine ⟨post, ?_⟩
    have hequals : Text.isBlank '=' = false := by decide
    have hbrace : Text.isBlank '{' = false := by decide
    have hmapping : ∀ c ∈ x.mapping, (c != '}') = true := fun c hc => by
      simp only [bne_iff_ne, ne_eq]
      rintro rfl
      exact hx.mapping hc
    have hshape : x.text s ++ post = assetsWord s ++ (x.before ++ ("=".toList ++ (x.behind ++
        ("\x7b".toList ++ (x.mapping ++ ("\x7d".toList ++
          ((if x.ended then [';'] else []) ++ post))))))) := by
      simp [Assignment.text, Assignment.parts]
    have hlast : (Piece.maybe [';']).split? ((if x.ended then [';'] else []) ++ post) =
        some (if x.ended then [';'] else [], post) := Piece.maybe_split_iff.2 ⟨x.ended, rfl, rfl, hend⟩
    rw [hshape]
    simp only [Piece.lit, Piece.blanks]
    rw [Piece.readAll_cons (Piece.word_split _ _),
      Piece.readAll_cons (Piece.run_split (by simp) hx.before (by simp [hequals])),
      Piece.readAll_cons (Piece.word_split _ _),
      Piece.readAll_cons (Piece.run_split (by simp) hx.behind (by simp [hbrace])),
      Piece.readAll_cons (Piece.word_split _ _),
      Piece.readAll_cons (Piece.run_split (by simp) hmapping (by simp)),
      Piece.readAll_cons (Piece.word_split _ _), Piece.readAll_cons hlast]
    rfl

/-- A body assigns the assets of a stage between two parts of it: a name begins there, and a semicolon
belongs to the assignment. -/
structure AssignsBetween (s body pre : Text) (x : Assignment) (post : Text) : Prop where
  formed : x.Formed
  cut : body = pre ++ (x.text s ++ post)
  fresh : Pattern.freshName (endOf none pre) = true
  whole : x.ended = false → post.head? ≠ some ';'

/-- A body nowhere assigns the assets of a stage. -/
def Unassigned (s body : Text) : Prop := ∀ pre x post, ¬ AssignsBetween s body pre x post

/-- No part of a body in front of which it assigns the assets is shorter. -/
def FirstAssigned (s body pre : Text) (x : Assignment) (post : Text) : Prop :=
  AssignsBetween s body pre x post ∧
    ∀ pre' x' post', AssignsBetween s body pre' x' post' → pre.length ≤ pre'.length

section

variable {s body : Text}

theorem fits_between {pre v : Text} (hcut : body = pre ++ v) {parts : List Text} :
    (assetsAssignment s).fits? (endOf none pre) v = some parts ↔
      ∃ x post, AssignsBetween s body pre x post ∧ parts = x.parts s := by
  subst hcut
  rw [assignment_fits]
  constructor
  · rintro ⟨hfresh, x, post, hx, rfl, hwhole, rfl⟩
    exact ⟨x, post, ⟨hx, rfl, hfresh, hwhole⟩, rfl⟩
  · rintro ⟨x, post, h, rfl⟩
    exact ⟨h.fresh, x, post, h.formed, List.append_cancel_left h.cut, h.whole, rfl⟩

theorem unassigned_iff : Unassigned s body ↔ (assetsAssignment s).first? body.entire = none := by
  rw [← Option.not_isSome_iff_eq_none, Pattern.first_some_iff]
  constructor
  · rintro h ⟨u, v, hcut, parts, hfit⟩
    obtain ⟨x, post, hx, _⟩ := (fits_between hcut).1 hfit
    exact h u x post hx
  · intro h pre x post hx
    exact h ⟨pre, _, hx.cut, _, (fits_between hx.cut).2 ⟨x, post, hx, rfl⟩⟩

theorem first_assigned {hit : Hit} (h : (assetsAssignment s).first? body.entire = some hit) :
    ∃ pre x post, FirstAssigned s body pre x post ∧ body.take hit.start = pre ∧
      body.drop hit.stop = post := by
  obtain ⟨pre, v, hcut, hstart, hsilent, hfit⟩ := Pattern.first_iff.1 h
  have hcut : body = pre ++ v := hcut
  have hstart : hit.start = pre.length := by rw [hstart, Text.entire, Nat.zero_add]
  obtain ⟨x, post, hx, hparts⟩ := (fits_between hcut).1 hfit
  refine ⟨pre, x, post, ⟨hx, fun pre' x' post' hx' => ?_⟩, by rw [hstart, hcut, List.take_left], ?_⟩
  · by_contra hshort
    have hprefix : pre' <+: pre := List.prefix_of_prefix_length_le
      ⟨_, hx'.cut.symm⟩ ⟨v, hcut.symm⟩ (by omega)
    obtain ⟨w, rfl⟩ := hprefix
    have hw : w ≠ [] := by
      rintro rfl
      simp at hshort
    have hcut' : body = pre' ++ (w ++ v) := by rw [hcut, List.append_assoc]
    have hfit' := (fits_between hcut').2 ⟨x', post', hx', rfl⟩
    have hnone := hsilent pre' w rfl hw
    exact absurd (hnone.symm.trans hfit') (by simp)
  · rw [Hit.stop, Hit.text, hparts, hstart, ← List.drop_drop, hx.cut, List.drop_left]
    exact List.drop_left

variable {assets : Assets} (hname : assets.stageName = some s)
include hname

theorem attached_unassigned (h : Unassigned s body) : attachedBody assets body = body := by
  rw [attachedBody, hname]
  split
  · next found name _ hsome =>
    obtain rfl := Option.some.inj hsome
    split
    · rfl
    · simp only [unassigned_iff.1 h]
  · rfl

theorem attached_assigned (hfound : assets.found = true) (hs : s ≠ [])
    (h : ¬ Unassigned s body) : ∃ pre x post, FirstAssigned s body pre x post ∧
      attachedBody assets body = pre ++ (stageStatement s ++ post) := by
  rw [unassigned_iff] at h
  obtain ⟨hit, hhit⟩ := Option.ne_none_iff_exists'.1 h
  obtain ⟨pre, x, post, hfirst, htake, hdrop⟩ := first_assigned hhit
  have hsome : s.isEmpty = false := List.isEmpty_eq_false_iff.2 hs
  refine ⟨pre, x, post, hfirst, ?_⟩
  rw [attachedBody, hfound, hname]
  simp only [hsome, Bool.false_eq_true, if_false, hhit]
  rw [htake, hdrop, List.append_assoc]

end

/-! The warning. -/

/-- The warning that a stage was not attached. -/
def unattachedNote (s : Text) : Note :=
  .plain .warning .module ("Assets assignment for stage '" ++ s.str ++ "' not found in setup body")

theorem emit_warns {target : Target} {assets : Assets} {stage : Stage} {mode : Mode}
    {exports : List Text} {s body : Text} (hfound : assets.found = true)
    (hname : assets.stageName = some s) (hs : s ≠ []) :
    unattachedNote s ∈ (emit target assets stage mode exports body).notes ↔ Unassigned s body := by
  have hsome : s.isEmpty = false := List.isEmpty_eq_false_iff.2 hs
  have hemitted : ∀ message, unattachedNote s ≠ .plain .debug .module message := fun message h =>
    absurd (congrArg Note.level h) (by simp [unattachedNote, Note.plain])
  rw [unassigned_iff, emit, hfound, hname]
  simp only [hsome, Bool.false_eq_true, if_false]
  rw [Traced.bind_notes (attach_result s body), List.mem_append]
  cases hfirst : (assetsAssignment s).first? body.entire with
  | some hit =>
    simp only [attachStage, hfirst]
    simp [Traced.ok, Traced.note, bind, Traced.andThen, pure, hemitted]
  | none =>
    simp only [attachStage, hfirst]
    simp [Traced.note, bind, Traced.andThen, pure, Traced.ok, unattachedNote]

/-! The statement in the module. -/

/-- A setup body with the stage statement between two parts of it, as it is written. -/
def setupAround (s pre post : Text) : Text :=
  pre.dropWhile isCut ++ (stageStatement s ++ Text.trimEnd isCut post)

theorem statement_uncut {s : Text} (hs : Text.isName s = true) :
    ∀ c ∈ stageStatement s, isCut c = false := by
  have hword : ∀ c ∈ "data.stage = data.lib.".toList, isCut c = false := by decide
  intro c hc
  unfold stageStatement at hc
  rw [List.mem_append, List.mem_append, List.mem_singleton] at hc
  rcases hc with (hc | hc) | rfl
  · exact hword c hc
  · exact name_uncut hs c hc
  · decide

theorem statement_head (s : Text) :
    stageStatement s = 'd' :: ("ata.stage = data.lib.".toList ++ s ++ [';']) := rfl

theorem statement_last (s : Text) : stageStatement s = ("data.stage = data.lib.".toList ++ s) ++ [';'] :=
  rfl

theorem statement_fresh {s : Text} (hs : Text.isName s = true) :
    ';' ∉ "data.stage = data.lib.".toList ++ s := by
  rw [List.mem_append, not_or]
  exact ⟨by decide, name_lacks hs (by decide)⟩

theorem front_head (target : Target) (assets : Assets) (stage : Stage) (mode : Mode) (u : Text) :
    (frontText target assets stage mode ++ u).head? ≠ some '#' := by
  have himport : ∀ v w : Text, (importText target.namespaceName target.importSource ++ v ++ w).head? =
      some 'i' := fun _ _ => rfl
  have hdata : ∀ w : Text, ([] ++ moduleText (dataFront target assets stage) ++ w).head? = some 'c' :=
    fun _ => rfl
  unfold frontText
  split
  · rw [himport]
    decide
  · rw [hdata]
    decide

section

variable {s : Text} (hs : Text.isName s = true)
include hs

theorem setup_trimmed (pre post : Text) :
    Text.trim isCut (pre ++ (stageStatement s ++ post)) = setupAround s pre post :=
  Text.trim_around (by rw [statement_head]; exact List.cons_ne_nil _ _) (statement_uncut hs) pre post

/-- The statement stands once if the parts around do not have it. -/
theorem setup_once {pre post : Text} (hpre : ¬ stageStatement s <:+: pre)
    (hpost : ¬ stageStatement s <:+: post) :
    ∃! i, Text.StandsAt (stageStatement s) (setupAround s pre post) i := by
  have hfront : pre.dropWhile isCut <:+: pre := (List.dropWhile_suffix _).isInfix
  have hback : Text.trimEnd isCut post <:+: post := by
    rw [Text.trimEnd, ← List.reverse_infix, List.reverse_reverse]
    exact (List.dropWhile_suffix _).isInfix
  rw [setupAround, statement_last]
  exact Text.stands_once (statement_fresh hs) (fun h => hpre (h.trans hfront))
    fun h => hpost (h.trans hback)

end

theorem setup_code {target : Target} {assets : Assets} {stage : Stage} {mode : Mode}
    {s pre post back : Text} (h : Script.isSealed .start
      (frontText target assets stage mode ++ pre.dropWhile isCut) = true) :
    Script.isCode (frontText target assets stage mode ++ (setupAround s pre post ++ back))
      (frontText target assets stage mode ++ pre.dropWhile isCut).length = true := by
  have hcut : frontText target assets stage mode ++ (setupAround s pre post ++ back) =
      (frontText target assets stage mode ++ pre.dropWhile isCut) ++
        'd' :: ("ata.stage = data.lib.".toList ++ s ++ [';'] ++ (Text.trimEnd isCut post ++ back)) := by
    rw [setupAround, statement_head]
    simp only [List.append_assoc, List.cons_append]
  rw [hcut]
  exact Script.sealed_code (front_head target assets stage mode _) h _

/-- The stage statement stands in a module in the place of the first assignment of the assets in the
rewritten setup body: once, if the rest of the body does not have it, and in the code, if every
literal in front of it is closed. -/
structure Attached (s body front back out pre : Text) (x : Assignment) (post : Text) : Prop where
  first : FirstAssigned s body pre x post
  module : out = front ++ (setupAround s pre post ++ back)
  once : ¬ stageStatement s <:+: pre → ¬ stageStatement s <:+: post →
    ∃! i, Text.StandsAt (stageStatement s) (setupAround s pre post) i
  code : Script.isSealed .start (front ++ pre.dropWhile isCut) = true →
    Script.isCode out (front ++ pre.dropWhile isCut).length = true

end Output

open Output Legacy

/-- What becomes of the stage of a migrated source. -/
structure StagePlaced (settings : Settings) (source : String) (mode : Mode) (t : Text) (m : Migration)
    (s : Text) : Prop where
  replaced : .legacyResidue ∈ settings.checks → ¬ Export.Assigns s m.output
  placed : ∃ l c body front back, landmarks t = .ok l ∧ l.conversion = .ok c ∧
    body = l.renamed settings c ∧ front = frontText settings.target m.assets l.stage mode ∧
    back = backText settings.target mode m.exports ∧
    (unattachedNote s ∈ (migrate settings source mode t).notes ↔ Unassigned s body) ∧
    (Unassigned s body ∧ m.output = front ++ (Text.trim isCut body ++ back) ∨
      ∃ pre x post, Attached s body front back m.output pre x post)

/-- In a module whose stage was recovered, the setup body has the stage statement in the place of its
first assignment of the assets. If it has none it is left as it is, and just then a warning says
that. -/
theorem stage_attached {settings : Settings} {source : String} {mode : Mode} {t : Text} {m : Migration}
    (h : (migrate settings source mode t).result = .ok m) {s : Text}
    (hs : m.assets.stageName = some s) : StagePlaced settings source mode t m s := by
  obtain ⟨l, c, hl, hc, hissues, rfl⟩ := migrate_accepted h
  have hs : l.assets.stageName = some s := hs
  obtain ⟨hname, hfound⟩ := landmarks_stage hl hs
  have hsome : s ≠ [] := by
    rintro rfl
    simp [Text.isName] at hname
  refine ⟨fun hchecks => (passes_iff.1 hissues).attached hchecks s hs hsome, l, c, _, _, _, hl, hc, rfl,
    rfl, rfl, ?_, ?_⟩
  · rw [module_notes hl hc source rfl]
    exact emit_warns hfound hs hsome
  · have hout : l.output settings mode c = _ := emit_setup _ _ _ _ _ _
    by_cases hbody : Unassigned s (l.renamed settings c)
    · refine Or.inl ⟨hbody, ?_⟩
      simp only
      rw [hout, attached_unassigned hs hbody]
    · obtain ⟨pre, x, post, hfirst, hattached⟩ := attached_assigned hs hfound hsome hbody
      rw [hattached, setup_trimmed hname] at hout
      simp only
      exact Or.inr ⟨pre, x, post, hfirst, hout, setup_once hname, fun h => hout ▸ setup_code h⟩

theorem stage_attached_sample : ∃ m,
    (migrate standard "scene.js" .commonjs stagedSource).result = .ok m ∧
      m.assets.stageName = some "Scene".toList ∧
      StagePlaced standard "scene.js" .commonjs stagedSource m "Scene".toList := by
  obtain ⟨m, hm, hs⟩ := staged_migrated (staged_renamed (Or.inl rfl)) (staged_passes (Or.inl rfl) _)
  exact ⟨m, hm, hs, stage_attached hm hs⟩

/-- A source that assigns the assets behind its setup function. -/
def outsideSource : Text := sampleCore ++ "\nlib.Scene.assets = \x7b\x7d;\n".toList

def outsideLandmarks : Landmarks :=
  ⟨sampleSetup, stagedLandmarks.assets, ⟨Stage.fallbackLines, true, none⟩⟩

/-- Its stage is recovered and nowhere attached. -/
theorem stage_left_unattached : ∃ m,
    (migrate standard "scene.js" .commonjs outsideSource).result = .ok m ∧
      m.assets.stageName = some "Scene".toList ∧
      ¬ ∃ i, Text.StandsAt (stageStatement "Scene".toList) m.output i := by
  have hlandmarks : landmarks outsideSource = .ok outsideLandmarks := by decide +kernel
  have hattached : attachedBody outsideLandmarks.assets sampleBody = sampleBody := by
    decide +kernel
  have hbody : emitText standard.target outsideLandmarks.assets outsideLandmarks.stage .commonjs []
      sampleBody = plainModule sampleBody := by
    rw [emitText, hattached]
    rfl
  have hplain : (Script.Bare (plainModule sampleBody) ∧ Script.Balanced (plainModule sampleBody) ∧
      ¬ ".extend(".toList <:+: plainModule sampleBody ∧ ¬ ".call(".toList <:+: plainModule sampleBody ∧
        ¬ Export.assetsWord "Scene".toList <:+: plainModule sampleBody) ∧
      ¬ stageStatement "Scene".toList <:+: plainModule sampleBody := by
    rw [Script.Bare, plain_module_lines]
    repeat rw [String.toList_ofList]
    decide +kernel
  obtain ⟨hplain, habsent⟩ := hplain
  have hpasses : Passing Check.all ⟨plainModule sampleBody, [], some "Scene".toList⟩ :=
    passing_bare hplain _
  have hrenamed := (congrArg (emitText standard.target outsideLandmarks.assets
    outsideLandmarks.stage .commonjs []) sample_renamed).trans hbody
  obtain ⟨m, hm, hout, hassets⟩ := @Landmarks.accepted outsideLandmarks standard .commonjs _ _ _ _
    sample_conversion hrenamed (passes_iff.2 hpasses) "scene.js"
  refine ⟨m, by rw [migrate_outcome, hlandmarks]; exact hm, by rw [hassets]; rfl, ?_⟩
  rintro ⟨_, u, v, hcut, _⟩
  rw [hout] at hcut
  exact habsent ⟨u, v, by rw [hcut, List.append_assoc]⟩

end Restage
