import Restage.Proofs.LegacyLines

/-!
The search for definitions on a rendered forest. It returns the definitions of the forest with the
spans of their parts (`find_forest`): headers are found in order, braces are paired along the
nesting, and the call that becomes `super` is the first one at the top level of a body.
-/

set_option autoImplicit false

namespace Restage.Legacy

open Definition
open Text (endOf)

namespace Forest

variable (library : Text)

/-- The stretch of a definition, with its footer. -/
def definitionText (h : Head) (body : Forest) : Text :=
  h.legacyText library ++ '\n' :: (body.legacyText library ++ (h.indent ++ "\x7d);".toList))

/-- The calls of a base class in a forest, those inside its definitions too. -/
def callHits (b : Base) : Nat → Forest → List Hit
  | _, done => []
  | i, line s r => callHits b (i + s.length + 1) r
  | i, call lead b' args r =>
    let rest := callHits b (i + lead.length + (callText b' args).length + 1) r
    if b' = b then ⟨i + lead.length, callParts b args⟩ :: rest else rest
  | i, define h body r =>
    callHits b (i + (h.legacyText library).length + 1) body ++
      callHits b (i + (definitionText library h body).length + 1) r

/-- The first call of a base class outside the definitions of a forest. -/
def firstCall? (b : Base) : Nat → Forest → Option Hit
  | _, done => none
  | i, line s r => firstCall? b (i + s.length + 1) r
  | i, call lead b' args r =>
    if b' = b then some ⟨i + lead.length, callParts b args⟩
    else firstCall? b (i + lead.length + (callText b' args).length + 1) r
  | i, define h body r => firstCall? b (i + (definitionText library h body).length + 1) r

/-- A definition whose rendering begins at a position, without its children. -/
def definitionAt (i : Nat) (h : Head) (body : Forest) : Definition :=
  let openEnd := i + (h.legacyText library).length
  let closeAt := openEnd + 1 + (body.legacyText library).length + h.indent.length
  { name := h.name
    target := h.target library
    base := h.base
    params := h.params
    indent := h.indent
    header := ⟨i, openEnd⟩
    body := ⟨openEnd, closeAt⟩
    footer := ⟨closeAt, closeAt + 3⟩
    exported := h.exported
    superCall := (body.firstCall? library h.base (openEnd + 1)).map Hit.span
    children := [] }

/-- The definitions of a forest whose rendering begins at a position. -/
def definitionsAt : Nat → Forest → List Definition
  | _, done => []
  | i, line s r => definitionsAt (i + s.length + 1) r
  | i, call lead b args r => definitionsAt (i + lead.length + (callText b args).length + 1) r
  | i, define h body r =>
    { definitionAt library i h body with
      children := definitionsAt (i + (h.legacyText library).length + 1) body } ::
      definitionsAt (i + (definitionText library h body).length + 1) r

end Forest

section

variable {library : Text} (hl : Text.isName library = true)
include hl

/-! Braces. -/

theorem header_net {h : Head} (hw : h.WellFormed) (d i : Nat) (ms : List Script.Marked) :
    Script.net (h.legacyText library) = 1 ∧
      Script.closeFrom d (Script.codeMarks i (h.legacyText library) ++ ms) =
        Script.closeFrom (d + 1) ms := by
  obtain ⟨u, hu, hc⟩ := header_chars hl hw
  have ho : '\x7b' ∉ u := Text.not_mem_of_all hc (by decide)
  have hcl : '\x7d' ∉ u := Text.not_mem_of_all hc (by decide)
  rw [hu]
  constructor
  · rw [Script.net_append, Script.net_plain ho hcl]
    rfl
  · rw [Script.code_marks_append, List.append_assoc, Script.close_skip ho hcl]
    simp [Script.closeFrom]

end

theorem foot_net {indent : Text} (hi : ∀ c ∈ indent, Piece.isIndent c = true) :
    '\x7b' ∉ indent ∧ '\x7d' ∉ indent :=
  ⟨Text.not_mem_of_all hi (by decide), Text.not_mem_of_all hi (by decide)⟩

theorem call_line_braces {lead args : Text} (b : Base)
    (hlead : ∀ c ∈ lead, Text.isBlank c = true) (ha : PlainText args) :
    '\x7b' ∉ lead ++ callText b args ∧ '\x7d' ∉ lead ++ callText b args := by
  have h1 := Text.not_mem_of_all hlead (x := '\x7b') (by decide)
  have h2 := Text.not_mem_of_all hlead (x := '\x7d') (by decide)
  have h3 := Text.not_mem_of_all (base_chars b) (x := '\x7b') (by decide)
  have h4 := Text.not_mem_of_all (base_chars b) (x := '\x7d') (by decide)
  by_cases h : args = [] <;> simp [callText, callLead, h, h1, h2, h3, h4, ha.no_open, ha.no_close]

theorem net_both {s t : Text} (hs : Script.net s = 0) (ht : Script.net t = 0) :
    Script.net (s ++ t) = 0 := by
  rw [Script.net_append, hs, ht]
  rfl

theorem row_net {s : Text} (ho : '\x7b' ∉ s) (hc : '\x7d' ∉ s) : Script.net (s ++ ['\n']) = 0 := by
  rw [Script.net_append, Script.net_plain ho hc]
  rfl

/-- The braces of a forest balance, and none closes more than was opened in it. -/
theorem forest_net {library : Text} (hl : Text.isName library = true) {f : Forest}
    (hf : f.WellFormed) :
    Script.net (f.legacyText library) = 0 ∧ ∀ d i ms,
      Script.closeFrom (d + 1) (Script.codeMarks i (f.legacyText library) ++ ms) =
        Script.closeFrom (d + 1) ms := by
  have hn : '\x7b' ∉ ['\n'] ∧ '\x7d' ∉ ['\n'] := by decide
  induction f with
  | done => exact ⟨rfl, fun _ _ _ => rfl⟩
  | line s r ih =>
    obtain ⟨hs, hr⟩ := hf
    have ho : '\x7b' ∉ s ++ ['\n'] := by simp [hs.no_open]
    have hc : '\x7d' ∉ s ++ ['\n'] := by simp [hs.no_close]
    have htext : (Forest.line s r).legacyText library = (s ++ ['\n']) ++ r.legacyText library := by
      simp [Forest.legacyText]
    rw [htext]
    refine ⟨net_both (Script.net_plain ho hc) (ih hr).1, fun d i ms => ?_⟩
    rw [Script.code_marks_append, List.append_assoc, Script.close_skip ho hc, (ih hr).2]
  | call lead b args r ih =>
    obtain ⟨hlead, ha, _, hr⟩ := hf
    have hb := call_line_braces b (fun c hc => (hlead c hc).1) ha
    have ho : '\x7b' ∉ (lead ++ callText b args) ++ ['\n'] := by
      rw [List.mem_append]; exact not_or.2 ⟨hb.1, hn.1⟩
    have hc : '\x7d' ∉ (lead ++ callText b args) ++ ['\n'] := by
      rw [List.mem_append]; exact not_or.2 ⟨hb.2, hn.2⟩
    have htext : (Forest.call lead b args r).legacyText library =
        ((lead ++ callText b args) ++ ['\n']) ++ r.legacyText library := by
      simp [Forest.legacyText]
    rw [htext]
    refine ⟨net_both (Script.net_plain ho hc) (ih hr).1, fun d i ms => ?_⟩
    rw [Script.code_marks_append, List.append_assoc, Script.close_skip ho hc, (ih hr).2]
  | define h body r ihb ihr =>
    obtain ⟨hw, hbody, hr⟩ := hf
    obtain ⟨hio, hic⟩ := foot_net hw.indent
    have ho : '\x7b' ∉ ");\n".toList := by decide
    have hc : '\x7d' ∉ ");\n".toList := by decide
    have htext : (Forest.define h body r).legacyText library = h.legacyText library ++ (['\n'] ++
        (body.legacyText library ++ (h.indent ++ (['\x7d'] ++ (");\n".toList ++
          r.legacyText library))))) := by
      simp [Forest.legacyText]
    rw [htext]
    constructor
    · simp only [Script.net_append, (header_net hl hw 0 0 []).1, Script.net_plain hn.1 hn.2,
        (ihb hbody).1, Script.net_plain hio hic, Script.net_plain ho hc, (ihr hr).1]
      rfl
    · intro d i ms
      simp only [Script.code_marks_append, List.append_assoc]
      rw [(header_net hl hw _ _ _).2, Script.close_skip hn.1 hn.2, (ihb hbody).2,
        Script.close_skip hio hic]
      simp only [Script.code_marks_cons, Script.code_marks_nil, List.singleton_append]
      rw [Script.closeFrom]
      simp only [Bool.not_true, Bool.false_eq_true, if_false]
      rw [if_neg (by decide), if_pos (by decide), if_neg (by omega), Nat.add_sub_cancel,
        Script.close_skip ho hc, (ihr hr).2]

/-! Calls. -/

theorem blank_fresh {prev : Option Char} {lead : Text} (hp : Pattern.freshName prev = true)
    (hlead : ∀ c ∈ lead, Text.isBlank c = true) : Pattern.freshName (endOf prev lead) = true := by
  cases lead using List.reverseRecOn with
  | nil => exact hp
  | append_singleton lead c =>
    have hc := hlead c (by simp)
    have hdot : c ≠ '.' := by rintro rfl; revert hc; decide
    rw [Text.endOf_concat]
    simp [Pattern.freshName, Text.blank_not_part hc, hdot]

/-- Blanks hold no call. -/
theorem blank_silent {lead : Text} (hlead : ∀ c ∈ lead, Text.isBlank c = true) (b : Base)
    (prev : Option Char) (t : Text) : (superCallOf b).Silent prev lead t := by
  intro u v huv hv
  obtain ⟨c, v, rfl⟩ := List.exists_cons_of_ne_nil hv
  have hc := hlead c (by simp [huv])
  have hword : (Piece.word b.text).split? (c :: v ++ t) = none := by
    have hM : c ≠ 'M' := by rintro rfl; revert hc; decide
    have hC : c ≠ 'C' := by rintro rfl; revert hc; decide
    cases b <;> simp [Piece.split?, Base.text, Base.identifier, Text.after?, hM.symm, hC.symm]
  have hreads : Piece.readAll (superCallOf b).pieces (c :: v ++ t) = none :=
    Piece.readAll_cons_none hword
  rw [Pattern.fits?, hreads]
  split <;> rfl

theorem hits_line {b : Base} {s : Text} (hs : Quiet b s) (prev : Option Char) (i : Nat) (t : Text) :
    (superCallOf b).hitsFrom prev i 0 (s ++ '\n' :: t) =
      (superCallOf b).hitsFrom (some '\n') (i + s.length + 1) 0 t := by
  have := Pattern.hits_silent (hs prev t) i
  simpa [Nat.add_assoc] using this

theorem hits_call {b : Base} {lead args : Text} (hlead : ∀ c ∈ lead, Text.isBlank c = true)
    (ha : PlainText args) (hhead : args.head?.all (fun c => !Text.isBlank c) = true)
    {prev : Option Char} (hp : Pattern.freshName prev = true) (i : Nat) (t : Text) :
    (superCallOf b).hitsFrom prev i 0 (lead ++ (callText b args ++ '\n' :: t)) =
      ⟨i + lead.length, callParts b args⟩ :: (superCallOf b).hitsFrom (some '\n')
        (i + lead.length + (callText b args).length + 1) 0 t := by
  have hne : callLead b args ≠ [] := by cases b <;> simp [callLead, Base.text, Base.identifier]
  have hfit := call_fits hhead (blank_fresh hp hlead) ('\n' :: t) (b := b)
  rw [callText, List.append_assoc] at hfit
  rw [Pattern.hits_silent (blank_silent hlead b prev _), callText, List.append_assoc,
    Pattern.hits_fit hne hfit (call_parts_flatten b args),
    hits_line (quiet_of_absent (call_rest_absent ha))]
  simp [Nat.add_assoc]

/-- The fits of the pattern for calls along a forest. -/
theorem hits_forest {library : Text} (hl : Text.isName library = true) {f : Forest}
    (hf : f.WellFormed) (b : Base) {prev : Option Char} (hp : Pattern.freshName prev = true)
    (i : Nat) (t : Text) :
    (superCallOf b).hitsFrom prev i 0 (f.legacyText library ++ t) = f.callHits library b i ++
      (superCallOf b).hitsFrom (endOf prev (f.legacyText library))
        (i + (f.legacyText library).length) 0 t := by
  have hfresh : Pattern.freshName (some '\n') = true := by decide
  induction f generalizing prev i t with
  | done => rfl
  | line s r ih =>
    obtain ⟨hs, hr⟩ := hf
    simp only [Forest.legacyText, List.append_assoc, List.cons_append]
    rw [hits_line (plain_quiet hs b), ih hr hfresh, Text.endOf_append]
    simp [Forest.callHits, endOf, Nat.add_assoc, Nat.add_comm 1]
  | call lead b' args r ih =>
    obtain ⟨hlead, ha, hhead, hr⟩ := hf
    have hlead := fun c hc => (hlead c hc).1
    simp only [Forest.legacyText, List.append_assoc, List.cons_append]
    by_cases hb : b' = b
    · subst hb
      rw [hits_call hlead ha hhead hp, ih hr hfresh, Text.endOf_append, Text.endOf_append]
      simp [Forest.callHits, endOf, Nat.add_assoc, Nat.add_comm 1]
    · have hq := hits_line (other_call_quiet hb hlead ha) prev i (r.legacyText library ++ t)
      rw [List.append_assoc] at hq
      rw [hq, ih hr hfresh, Text.endOf_append, Text.endOf_append]
      simp [Forest.callHits, hb, endOf, Nat.add_assoc, Nat.add_comm 1]
  | define h body r ihb ihr =>
    obtain ⟨hw, hbody, hr⟩ := hf
    have hfoot : Quiet b (h.indent ++ "\x7d);".toList) := quiet_of_absent (foot_absent hw.indent)
    have hq := fun p i => hits_line hfoot p i (r.legacyText library ++ t)
    simp only [Forest.legacyText, List.append_assoc, List.cons_append] at hq ⊢
    rw [hits_line (header_quiet hl hw b), ihb hbody hfresh, hq, ihr hr hfresh, Text.endOf_append]
    simp [Forest.callHits, Forest.definitionText, endOf, Text.endOf_append, Nat.add_assoc,
      Nat.add_comm 1, Nat.add_comm 5]

theorem call_first (b : Base) (args : Text) :
    ∃ c w, callText b args = c :: w ∧ c ≠ '\x7b' ∧ c ≠ '\x7d' := by
  cases b <;> exact ⟨_, _, rfl, by decide, by decide⟩

/-- A call of a text at a character that is no brace, behind a prefix that closes no more braces than
it opens. -/
def CallAt (t : Text) (i : Nat) (x : Hit) : Prop :=
  ∃ u c v, t = u ++ c :: v ∧ x.start = i + u.length ∧ 0 ≤ Script.net u ∧ c ≠ '\x7b' ∧ c ≠ '\x7d'

theorem call_at_behind (front : Text) {t : Text} {i : Nat} {x : Hit} (hfront : 0 ≤ Script.net front)
    (h : CallAt t (i + front.length) x) (back : Text) : CallAt (front ++ (t ++ back)) i x := by
  obtain ⟨u, c, v, rfl, hstart, hnet, hc⟩ := h
  refine ⟨front ++ u, c, v ++ back, by simp, by rw [hstart, List.length_append, Nat.add_assoc], ?_, hc⟩
  rw [Script.net_append]
  omega

section

variable {library : Text} (hl : Text.isName library = true)
include hl

theorem header_row_net {h : Head} (hw : h.WellFormed) :
    Script.net (h.legacyText library ++ ['\n']) = 1 := by
  rw [Script.net_append, (header_net hl hw 0 0 []).1]
  rfl

theorem definition_net {h : Head} {body : Forest} (hw : h.WellFormed) (hbody : body.WellFormed) :
    Script.net (Forest.definitionText library h body ++ ['\n']) = 0 := by
  obtain ⟨hio, hic⟩ := foot_net hw.indent
  simp only [Forest.definitionText, Script.net_append, (header_net hl hw 0 0 []).1,
    (forest_net hl hbody).1, Script.net_plain hio hic, Script.net]
  rfl

/-- Where the calls of a forest stand. -/
theorem call_depth {f : Forest} (hf : f.WellFormed) (b : Base) (i : Nat) {x : Hit}
    (hx : x ∈ f.callHits library b i) : CallAt (f.legacyText library) i x := by
  induction f generalizing i with
  | done => simp [Forest.callHits] at hx
  | line s r ih =>
    obtain ⟨hs, hr⟩ := hf
    have hrest := call_at_behind (s ++ ['\n']) (i := i)
      (Int.le_of_eq (row_net hs.no_open hs.no_close).symm)
      (by simpa [Nat.add_assoc] using ih hr _ hx) []
    simpa [Forest.legacyText] using hrest
  | call lead b' args r ih =>
    obtain ⟨hlead, ha, _, hr⟩ := hf
    have hlead := fun c hc => (hlead c hc).1
    obtain ⟨ho, hcl⟩ := call_line_braces b' hlead ha
    have hrest : x ∈ r.callHits library b (i + lead.length + (callText b' args).length + 1) →
        CallAt ((Forest.call lead b' args r).legacyText library) i x := by
      intro hx
      have := call_at_behind (lead ++ callText b' args ++ ['\n']) (i := i)
        (Int.le_of_eq (row_net ho hcl).symm) (by simpa [Nat.add_assoc] using ih hr _ hx) []
      simpa [Forest.legacyText] using this
    have hown : ∀ parts, CallAt ((Forest.call lead b' args r).legacyText library) i
        ⟨i + lead.length, parts⟩ := by
      intro parts
      have hlo := fun h => ho (List.mem_append_left _ h)
      have hlc := fun h => hcl (List.mem_append_left _ h)
      obtain ⟨c, w, hcw, hc⟩ := call_first b' args
      exact ⟨lead, c, w ++ '\n' :: r.legacyText library, by simp [Forest.legacyText, hcw], rfl,
        Int.le_of_eq (Script.net_plain hlo hlc).symm, hc⟩
    simp only [Forest.callHits] at hx
    split at hx
    · rcases List.mem_cons.1 hx with rfl | hx
      · exact hown _
      · exact hrest hx
    · exact hrest hx
  | define h body r ihb ihr =>
    obtain ⟨hw, hbody, hr⟩ := hf
    simp only [Forest.callHits, List.mem_append] at hx
    rcases hx with hx | hx
    · have hinner := call_at_behind (h.legacyText library ++ ['\n']) (i := i)
        (by rw [header_row_net hl hw]; decide) (by simpa [Nat.add_assoc] using ihb hbody _ hx)
        (h.indent ++ ("\x7d);".toList ++ '\n' :: r.legacyText library))
      simpa [Forest.legacyText] using hinner
    · have hrest := call_at_behind (Forest.definitionText library h body ++ ['\n']) (i := i)
        (Int.le_of_eq (definition_net hl hw hbody).symm)
        (by simpa [Nat.add_assoc] using ihr hr _ hx) []
      simpa [Forest.legacyText, Forest.definitionText] using hrest

/-- The calls in the body of a definition are not at the top level. -/
theorem inner_call_deep {h : Head} {body : Forest} (hw : h.WellFormed) (hbody : body.WellFormed)
    (b : Base) (j : Nat) {pre : Text} (post : Text) (hpre : Script.net pre = 0) {x : Hit}
    (hx : x ∈ body.callHits library b (j + pre.length + (h.legacyText library).length + 1)) :
    x.start ∉ Script.topLevelFrom 0 (Script.codeMarks j (pre ++ (h.legacyText library ++
      '\n' :: (body.legacyText library ++ post)))) := by
  obtain ⟨u, c, v, htext, hstart, hu, hc⟩ := call_depth hl hbody b _ hx
  have htop := Script.mem_top_level (d := 0) hc j (pre ++ (h.legacyText library ++ ['\n'] ++ u))
    (v ++ post)
  have hdeep : Script.net (pre ++ (h.legacyText library ++ ['\n'] ++ u)) ≠ 0 := by
    rw [Script.net_append, hpre, Script.net_append, header_row_net hl hw]
    omega
  intro hmem
  apply hdeep
  rw [← Int.zero_add (Script.net _)]
  apply htop.1
  rw [hstart] at hmem
  simpa [htext, Nat.add_assoc, Nat.add_comm 1] using hmem

/-- Among the calls of a forest at the top level of a body, the first outside its definitions. -/
theorem first_call {f : Forest} (hf : f.WellFormed) (b : Base) (j : Nat) (pre post : Text)
    (hpre : Script.net pre = 0) :
    (f.callHits library b (j + pre.length)).find? (fun x =>
      (Script.topLevelFrom 0 (Script.codeMarks j (pre ++ (f.legacyText library ++ post)))).contains
        x.start) = f.firstCall? library b (j + pre.length) := by
  -- the rows that are passed join the text in front, whose braces stay balanced
  induction f generalizing pre with
  | done => rfl
  | line s r ih =>
    obtain ⟨hs, hr⟩ := hf
    have := ih hr (pre ++ (s ++ ['\n'])) (net_both hpre (row_net hs.no_open hs.no_close))
    simpa [Forest.legacyText, Forest.callHits, Forest.firstCall?, Nat.add_assoc] using this
  | call lead b' args r ih =>
    obtain ⟨hlead, ha, _, hr⟩ := hf
    have hlead := fun c hc => (hlead c hc).1
    obtain ⟨ho, hcl⟩ := call_line_braces b' hlead ha
    have := ih hr (pre ++ ((lead ++ callText b' args) ++ ['\n'])) (net_both hpre (row_net ho hcl))
    by_cases hb : b' = b
    · have hlo := fun h => ho (List.mem_append_left _ h)
      have hlc := fun h => hcl (List.mem_append_left _ h)
      obtain ⟨c, w, hcw, hc⟩ := call_first b' args
      have htop := (Script.mem_top_level (d := 0) hc j (pre ++ lead)
        (w ++ '\n' :: (r.legacyText library ++ post))).2
        ((Int.zero_add _).trans (net_both hpre (Script.net_plain hlo hlc)))
      simp only [Forest.callHits, Forest.firstCall?, if_pos hb]
      rw [List.find?_cons_of_pos]
      simp only [List.contains_iff_mem]
      simpa [Forest.legacyText, hcw, Nat.add_assoc] using htop
    · simpa [Forest.legacyText, Forest.callHits, Forest.firstCall?, hb, Nat.add_assoc] using this
  | define h body r ihb ihr =>
    obtain ⟨hw, hbody, hr⟩ := hf
    have hinner := fun x hx => inner_call_deep hl hw hbody b j (x := x)
      (h.indent ++ ("\x7d);".toList ++ '\n' :: (r.legacyText library ++ post))) hpre hx
    have := ihr hr (pre ++ (Forest.definitionText library h body ++ ['\n']))
      (net_both hpre (definition_net hl hw hbody))
    simp only [Forest.callHits, Forest.firstCall?]
    rw [List.find?_append, List.find?_eq_none.2, Option.none_or]
    · simpa [Forest.legacyText, Forest.definitionText, Nat.add_assoc] using this
    · intro x hx
      simpa [Forest.legacyText] using hinner x hx

end

/-! Headers. -/

/-- Both header patterns are silent on a stretch, whatever follows it. -/
def HeaderSilent (library : Text) (prev : Option Char) (u : Text) : Prop :=
  ∀ t, (memberHeader library).Silent prev u t ∧ variableHeader.Silent prev u t

theorem header_silent_line {library s u : Text} {prev : Option Char}
    (hu : HeaderSilent library prev u) (hs : Headless library s) :
    HeaderSilent library prev (u ++ (s ++ ['\n'])) := by
  intro t
  exact ⟨Pattern.silent_append.2 ⟨(hu _).1, (hs _ t).1⟩,
    Pattern.silent_append.2 ⟨(hu _).2, (hs _ t).2⟩⟩

theorem header_found {library : Text} (hl : Text.isName library = true) {h : Head}
    (hw : h.WellFormed) {prev : Option Char} {u : Text} (hu : HeaderSilent library prev u)
    (hstart : Pattern.lineStart (endOf prev u) = true) (i : Nat) (t : Text) :
    header? library ⟨prev, i, u ++ (h.legacyText library ++ t)⟩ =
      some (⟨i + u.length, h.parts library⟩, h.exported) := by
  obtain ⟨hm, hv⟩ := hu (h.legacyText library ++ t)
  simp only [header?, Pattern.first?]
  rw [Pattern.first_silent hm, Pattern.first_silent hv]
  cases he : h.exported with
  | true =>
    rw [Pattern.first_fit (member_fits hw hl he hstart t)]
    cases hfirst : variableHeader.firstFrom? (endOf prev u) (i + u.length)
        (h.legacyText library ++ t) with
    | none => rfl
    | some v =>
      have := Pattern.first_start hfirst
      simp [this]
  | false =>
    rw [Pattern.first_fit (variable_fits hw he hstart t)]
    cases hfirst : (memberHeader library).firstFrom? (endOf prev u) (i + u.length)
        (h.legacyText library ++ t) with
    | none => rfl
    | some m =>
      have hlate := Pattern.first_start_later (member_absent hw hl he _ t) hfirst
      simp [Nat.not_le.2 hlate]

theorem header_missing {library : Text} {prev : Option Char} {u tail : Text}
    (hu : HeaderSilent library prev u) (ht : ¬ ".extend(".toList <:+: tail) (i : Nat) :
    header? library ⟨prev, i, u ++ tail⟩ = none := by
  obtain ⟨hm, hv⟩ := hu tail
  simp only [header?, Pattern.first?]
  rw [Pattern.first_silent hm, Pattern.first_silent hv, memberHeader, variableHeader,
    Pattern.first_absent (header_needs _) ht, Pattern.first_absent (header_needs _) ht]

/-! One definition. -/

section

variable {library : Text} (hl : Text.isName library = true) {h : Head} (hw : h.WellFormed)
  {body : Forest} (hbody : body.WellFormed)
include hl hw hbody

theorem closing_found {t pre mid post : Text}
    (ht : t = pre ++ ((Forest.definitionText library h body ++ mid) ++ post))
    (hcode : Script.CodeAt t pre.length (Forest.definitionText library h body)) :
    Script.closingBraceIn (Script.marked t) t (pre.length + (h.legacyText library).length - 1)
      (some (pre.length + (Forest.definitionText library h body ++ mid).length)) =
    .ok (pre.length + (h.legacyText library).length + 1 + (body.legacyText library).length +
      h.indent.length) := by
  obtain ⟨u, hu, hc⟩ := header_chars hl hw
  obtain ⟨hio, hic⟩ := foot_net hw.indent
  have hat : pre.length + (h.legacyText library).length - 1 = pre.length + u.length := by
    rw [hu, List.length_append, List.length_singleton]
    rfl
  have hchar : t[pre.length + u.length]? = some '\x7b' := by
    rw [ht, Forest.definitionText, hu, ← List.length_append]
    simp
  have hpart : Script.CodeAt t (pre.length + u.length) ('\x7b' :: ('\n' ::
      (body.legacyText library ++ (h.indent ++ "\x7d);".toList)))) := by
    apply Script.code_at_part (c := [])
    simpa [Forest.definitionText, hu] using hcode
  obtain ⟨rest, hdrop⟩ := Script.drop_marked hpart
  have hclose : Script.closeOf? ((Script.marked t).drop (pre.length + u.length)) =
      some (pre.length + (h.legacyText library).length + 1 + (body.legacyText library).length +
        h.indent.length) := by
    have hskip : ∀ i ms, Script.closeFrom 1 (Script.codeMarks i (['\n'] ++ (body.legacyText library ++
        (h.indent ++ "\x7d);".toList))) ++ ms) =
          some (i + 1 + (body.legacyText library).length + h.indent.length) := by
      intro i ms
      simp only [Script.code_marks_append, List.append_assoc]
      rw [Script.close_skip (by decide) (by decide), (forest_net hl hbody).2 0,
        Script.close_skip hio hic]
      rfl
    rw [hdrop, Script.code_marks_cons, List.cons_append, Script.closeOf?]
    simp only [Bool.true_and, decide_true, if_true]
    rw [← List.singleton_append, hskip, hu]
    simp [Nat.add_assoc]
  rw [hat, Script.closingBraceIn, hchar]
  simp only [ne_eq, not_true_eq_false, if_false, hclose]
  rw [if_neg]
  simp [Forest.definitionText]
  omega

theorem super_found {t pre mid post : Text}
    (ht : t = pre ++ ((Forest.definitionText library h body ++ mid) ++ post))
    (hcode : Script.CodeAt t pre.length (Forest.definitionText library h body)) :
    Script.searchTopLevelIn (Script.marked t) (superCallOf h.base) t
      (pre.length + (h.legacyText library).length)
      (pre.length + (h.legacyText library).length + 1 + (body.legacyText library).length +
        h.indent.length) =
    body.firstCall? library h.base (pre.length + (h.legacyText library).length + 1) := by
  have hwindow := Text.window_middle (pre ++ h.legacyText library)
    ('\n' :: (body.legacyText library ++ h.indent)) ("\x7d);".toList ++ (mid ++ post))
  have htext : t = (pre ++ h.legacyText library) ++ ('\n' :: (body.legacyText library ++ h.indent) ++
      ("\x7d);".toList ++ (mid ++ post))) := by
    rw [ht]; simp [Forest.definitionText]
  have hend : (pre ++ h.legacyText library).length +
      ('\n' :: (body.legacyText library ++ h.indent)).length =
      pre.length + (h.legacyText library).length + 1 + (body.legacyText library).length +
        h.indent.length := by simp; omega
  have hpart : Script.CodeAt t (pre.length + (h.legacyText library).length)
      ('\n' :: (body.legacyText library ++ h.indent)) := by
    apply Script.code_at_part (c := "\x7d);".toList)
    simpa [Forest.definitionText] using hcode
  have hcalls : ∀ prev i, (superCallOf h.base).hitsFrom prev i 0
      ('\n' :: (body.legacyText library ++ h.indent)) =
        body.callHits library h.base (i + 1) := by
    intro prev i
    have hdot : ¬ ".call(".toList <:+: h.indent := by
      intro hin
      have hmem : '.' ∈ h.indent := hin.subset (by simp)
      exact absurd (hw.indent _ hmem) (by decide)
    have hfirst := hits_line (s := []) (b := h.base) (quiet_of_absent (by decide)) prev i
      (body.legacyText library ++ h.indent)
    rw [List.nil_append] at hfirst
    rw [hfirst, hits_forest hl hbody h.base (by decide) _ h.indent,
      Pattern.hits_absent (call_needs h.base) hdot]
    simp
  have htop := first_call hl hbody h.base (pre.length + (h.legacyText library).length) ['\n']
    h.indent (by rfl)
  rw [List.singleton_append] at htop
  rw [← htext] at hwindow
  rw [Script.search_top_level, ← hend, ← List.length_append, hwindow, Pattern.hits, hcalls,
    List.length_append, Script.code_within_stretch hpart]
  exact htop

theorem header_gives {t pre mid post : Text}
    (ht : t = pre ++ ((Forest.definitionText library h body ++ mid) ++ post))
    (hcode : Script.CodeAt t pre.length (Forest.definitionText library h body)) :
    ofHeader (Script.marked t) t ⟨pre.length, h.parts library⟩ h.exported
      (pre.length + (Forest.definitionText library h body ++ mid).length) =
      .ok (Forest.definitionAt library pre.length h body) := by
  have hstop : (Hit.mk pre.length (h.parts library)).stop =
      pre.length + (h.legacyText library).length := by
    rw [Hit.stop, Hit.text, parts_flatten]
  have hpos : 0 < (h.legacyText library).length := by
    obtain ⟨u, hu, _⟩ := header_chars hl hw
    simp [hu]
  have hclose := closing_found hl hw hbody ht hcode
  have hsuper := super_found hl hw hbody ht hcode
  have hwindow := Text.window_middle (pre ++ (h.legacyText library ++ '\n' ::
    (body.legacyText library ++ h.indent))) ("\x7d);".toList ++ mid) post
  have htext : t = (pre ++ (h.legacyText library ++ '\n' :: (body.legacyText library ++ h.indent))) ++
      (("\x7d);".toList ++ mid) ++ post) := by
    rw [ht]; simp [Forest.definitionText]
  have hbegin : (pre ++ (h.legacyText library ++ '\n' ::
      (body.legacyText library ++ h.indent))).length =
      pre.length + (h.legacyText library).length + 1 + (body.legacyText library).length +
        h.indent.length := by simp; omega
  have hend : pre.length + (h.legacyText library).length + 1 + (body.legacyText library).length +
      h.indent.length + ("\x7d);".toList ++ mid).length =
      pre.length + (Forest.definitionText library h body ++ mid).length := by
    simp [Forest.definitionText]; omega
  rw [← htext, hbegin, hend] at hwindow
  have hfoot : footerPattern.fits? none ("\x7d);".toList ++ mid) =
      some [['\x7d'], [], [')'], [], [';']] := by
    apply Pattern.fits_of_reads (r := mid) rfl
    have hround : Text.isBlank ')' = false := by decide
    simp [footerPattern, Piece.readAll, Piece.split?, Piece.lit, Piece.blanks, Piece.gap,
      Text.after?, hround, Piece.isIndent]
  have hname : (Hit.mk pre.length (h.parts library)).part 4 = h.name := by
    cases he : h.exported <;> simp [Hit.part, Head.parts, he]
  have htarget : (Hit.mk pre.length (h.parts library)).part 1 ++
      (Hit.mk pre.length (h.parts library)).part 2 ++ h.name = h.target library := by
    cases he : h.exported <;> simp [Hit.part, Head.parts, Head.target, he]
  have hbase : (Base.ofIdentifier? ((Hit.mk pre.length (h.parts library)).part 8)).getD .animated =
      h.base := by
    have hpart : (Hit.mk pre.length (h.parts library)).part 8 = h.base.text := by
      cases he : h.exported <;> simp [Hit.part, Head.parts, Head.restParts, he]
    rw [hpart]
    cases h.base <;> decide
  have hparams : Text.strip ((Hit.mk pre.length (h.parts library)).part 14) = h.params := by
    have hpart : (Hit.mk pre.length (h.parts library)).part 14 = h.params := by
      cases he : h.exported <;> simp [Hit.part, Head.parts, Head.restParts, he]
    rw [hpart, hw.params.2]
  have hindent : (Hit.mk pre.length (h.parts library)).part 0 = h.indent := rfl
  rw [ofHeader]
  simp only [hstop, hname, htarget, hbase, hparams, hindent, Hit.span]
  rw [hclose, Nat.sub_add_cancel (by omega)]
  simp only [Except.mapError, bind, Except.bind]
  rw [hwindow]
  simp only [hfoot, hsuper]
  rfl

end

/-! All definitions. -/

namespace Forest

variable (library : Text)

/-- A forest whose lines outside definitions hold no header. -/
def Readable : Forest → Prop
  | done => True
  | line s r => Headless library s ∧ Readable r
  | call lead b args r => Headless library (lead ++ callText b args) ∧ Readable r
  | define h body r => h.WellFormed ∧ body.WellFormed ∧ Readable r

/-- In a text with the rendering of a forest at a position, its definitions are code throughout. -/
def CodeOver (t : Text) : Nat → Forest → Prop
  | _, done => True
  | i, line s r => CodeOver t (i + s.length + 1) r
  | i, call lead b args r => CodeOver t (i + lead.length + (callText b args).length + 1) r
  | i, define h body r =>
    Script.CodeAt t i (definitionText library h body) ∧
      CodeOver t (i + (definitionText library h body).length + 1) r

end Forest

theorem readable_of_well_formed {library : Text} (hl : Text.isName library = true) {f : Forest}
    (hf : f.WellFormed) : f.Readable library := by
  induction f with
  | done => trivial
  | line s r ih => exact ⟨plain_headless hl hf.1, ih hf.2⟩
  | call lead b args r ih =>
    obtain ⟨hlead, ha, _, hr⟩ := hf
    exact ⟨call_line_headless hl (fun c hc => (hlead c hc).1) ha, ih hr⟩
  | define h body r _ ihr => exact ⟨hf.1, hf.2.1, ihr hf.2.2⟩

theorem code_over_stretch {library t : Text} {f : Forest} {i : Nat} {u v : Text}
    (h : Script.CodeAt t i (u ++ (f.legacyText library ++ v))) :
    f.CodeOver library t (i + u.length) := by
  induction f generalizing u with
  | done => trivial
  | line s r ih =>
    have := ih (u := u ++ (s ++ ['\n'])) (by simpa [Forest.legacyText] using h)
    simpa [Forest.CodeOver, Nat.add_assoc] using this
  | call lead b args r ih =>
    have := ih (u := u ++ (lead ++ (callText b args ++ ['\n']))) (by simpa [Forest.legacyText] using h)
    simpa [Forest.CodeOver, Nat.add_assoc] using this
  | define h' body r _ ihr =>
    have htext : (Forest.define h' body r).legacyText library =
        Forest.definitionText library h' body ++ '\n' :: r.legacyText library := by
      simp [Forest.legacyText, Forest.definitionText]
    rw [htext] at h
    have := ihr (u := u ++ (Forest.definitionText library h' body ++ ['\n'])) (by simpa using h)
    refine ⟨Script.code_at_part (c := '\n' :: (r.legacyText library ++ v)) (by simpa using h), ?_⟩
    simpa [Nat.add_assoc] using this

theorem new_line_silent {library : Text} (hl : Text.isName library = true) (prev : Option Char) :
    HeaderSilent library prev ['\n'] := by
  have hnil : HeaderSilent library prev [] := fun t => ⟨Pattern.silent_nil _ _, Pattern.silent_nil _ _⟩
  exact header_silent_line (s := []) hnil (headless_of_absent hl (by decide))

/-- The search finds the definitions of a forest wherever its rendering stands in a text, behind a
stretch without a header and in front of one. -/
def Finds (library t : Text) (f : Forest) : Prop :=
  ∀ (fuel : Nat) {pre lead tail post : Text},
    t = pre ++ ((lead ++ (f.legacyText library ++ tail)) ++ post) →
    HeaderSilent library (endOf none pre) lead →
    Pattern.lineStart (endOf (endOf none pre) lead) = true →
    ¬ ".extend(".toList <:+: tail →
    f.CodeOver library t (pre.length + lead.length) →
    (lead ++ (f.legacyText library ++ tail)).length < fuel →
    findIn library (Script.marked t) t fuel pre.length
      (pre.length + (lead ++ (f.legacyText library ++ tail)).length) =
    .ok (f.definitionsAt library (pre.length + lead.length))

section

variable {library t : Text}

theorem finds_done : Finds library t .done := by
  intro fuel pre lead tail post ht hlead _ htail _ hfuel
  obtain ⟨fuel, rfl⟩ := Nat.exists_eq_succ_of_ne_zero (by omega : fuel ≠ 0)
  have hwindow := Text.window_middle pre (lead ++ tail) post
  have ht : t = pre ++ ((lead ++ tail) ++ post) := ht
  rw [← ht] at hwindow
  simp only [Forest.legacyText, List.nil_append]
  rw [findIn, hwindow, header_missing hlead htail]
  rfl

/-- A row without a header is passed over. -/
theorem finds_row {s : Text} {f r : Forest} (hs : Headless library s)
    (htext : f.legacyText library = s ++ '\n' :: r.legacyText library)
    (hcode : ∀ i, f.CodeOver library t i → r.CodeOver library t (i + s.length + 1))
    (hdefs : ∀ i, f.definitionsAt library i = r.definitionsAt library (i + s.length + 1))
    (hr : Finds library t r) : Finds library t f := by
  intro fuel pre lead tail post ht hlead _ htail hover hfuel
  have hshape : lead ++ (f.legacyText library ++ tail) =
      (lead ++ (s ++ ['\n'])) ++ (r.legacyText library ++ tail) := by simp [htext]
  have hat : pre.length + (lead ++ (s ++ ['\n'])).length =
      pre.length + lead.length + s.length + 1 := by simp; omega
  rw [hshape] at ht hfuel ⊢
  rw [hr fuel ht (header_silent_line hlead hs) (by simp [Text.endOf_append, endOf]; decide) htail
    (by rw [hat]; exact hcode _ hover) hfuel, hat, hdefs]

variable (hl : Text.isName library = true) {h : Head} (hw : h.WellFormed) {body r : Forest}
include hl hw

/-- The body of a definition is searched behind its header, up to the indent of its footer. -/
theorem children_found (hfinds : Finds library t body) {fuel : Nat} {pre lead mid post : Text}
    (ht : t = pre ++ ((lead ++ (Forest.definitionText library h body ++ mid)) ++ post))
    (hcode : Script.CodeAt t (pre ++ lead).length (Forest.definitionText library h body))
    (hfuel : (lead ++ (Forest.definitionText library h body ++ mid)).length < fuel + 1) :
    findIn library (Script.marked t) t fuel
      (Forest.definitionAt library (pre ++ lead).length h body).body.start
      (Forest.definitionAt library (pre ++ lead).length h body).body.stop =
    .ok (body.definitionsAt library ((pre ++ lead).length + (h.legacyText library).length + 1)) := by
  have hdot : ¬ ".extend(".toList <:+: h.indent := by
    intro hin
    have hmem : '.' ∈ h.indent := hin.subset (by simp)
    exact absurd (hw.indent _ hmem) (by decide)
  have hcut : t = (pre ++ (lead ++ h.legacyText library)) ++ ((['\n'] ++
      (body.legacyText library ++ h.indent)) ++ ("\x7d);".toList ++ (mid ++ post))) := by
    rw [ht]; simp [Forest.definitionText]
  have hover := code_over_stretch (f := body) (u := h.legacyText library ++ ['\n'])
    (v := h.indent ++ "\x7d);".toList) (by simpa [Forest.definitionText] using hcode)
  have hfound := hfinds fuel hcut (new_line_silent hl _) (by simp [endOf]; decide) hdot
    (by simpa [Nat.add_assoc] using hover)
    (by simp [Forest.definitionText] at hfuel ⊢; omega)
  have hopen : (Forest.definitionAt library (pre ++ lead).length h body).body.start =
      (pre ++ (lead ++ h.legacyText library)).length := by simp [Forest.definitionAt]; omega
  have hclose : (Forest.definitionAt library (pre ++ lead).length h body).body.stop =
      (pre ++ (lead ++ h.legacyText library)).length +
        (['\n'] ++ (body.legacyText library ++ h.indent)).length := by
    simp [Forest.definitionAt]; omega
  rw [hopen, hclose, hfound]
  simp [Nat.add_assoc]

/-- A definition is found with its children, and the search goes on behind its footer. -/
theorem finds_definition (hbody : body.WellFormed) (hchildren : Finds library t body)
    (hrest : Finds library t r) : Finds library t (.define h body r) := by
  intro fuel pre lead tail post ht hlead hstart htail hcode hfuel
  obtain ⟨hhere, hover⟩ := hcode
  obtain ⟨fuel, rfl⟩ := Nat.exists_eq_succ_of_ne_zero (by omega : fuel ≠ 0)
  have hshape : (Forest.define h body r).legacyText library ++ tail =
      Forest.definitionText library h body ++ '\n' :: (r.legacyText library ++ tail) := by
    simp [Forest.legacyText, Forest.definitionText]
  rw [hshape] at ht hfuel ⊢
  -- the text once more, cut where the definition begins and behind it
  have hlook : t = (pre ++ lead) ++ ((Forest.definitionText library h body ++
      '\n' :: (r.legacyText library ++ tail)) ++ post) := by rw [ht]; simp
  have hbehind : t = (pre ++ (lead ++ Forest.definitionText library h body)) ++ ((['\n'] ++
      (r.legacyText library ++ tail)) ++ post) := by rw [ht]; simp
  have hgives := header_gives hl hw hbody hlook (by simpa using hhere)
  have hinner := children_found hl hw hchildren ht (by simpa using hhere) hfuel
  have hnext := hrest fuel hbehind (new_line_silent hl _) (by simp [endOf]; decide) htail
    (by simpa [Nat.add_assoc] using hover) (by simp [Forest.definitionText] at hfuel ⊢; omega)
  have hafter : (Forest.definitionAt library (pre ++ lead).length h body).footer.stop =
      (pre ++ (lead ++ Forest.definitionText library h body)).length := by
    simp [Forest.definitionAt, Forest.definitionText]; omega
  have hwindow := Text.window_middle pre
    (lead ++ (h.legacyText library ++ ('\n' :: (body.legacyText library ++ (h.indent ++
      ("\x7d);".toList ++ '\n' :: (r.legacyText library ++ tail))))))) post
  have hcut : lead ++ (Forest.definitionText library h body ++ '\n' ::
      (r.legacyText library ++ tail)) = lead ++ (h.legacyText library ++ ('\n' ::
        (body.legacyText library ++ (h.indent ++ ("\x7d);".toList ++ '\n' ::
          (r.legacyText library ++ tail)))))) := by simp [Forest.definitionText]
  have hend : pre.length + (lead ++ (Forest.definitionText library h body ++
      '\n' :: (r.legacyText library ++ tail))).length =
      (pre ++ lead).length + (Forest.definitionText library h body ++
        '\n' :: (r.legacyText library ++ tail)).length := by simp; omega
  have hstop : (pre ++ lead).length + (Forest.definitionText library h body ++
      '\n' :: (r.legacyText library ++ tail)).length =
      (pre ++ (lead ++ Forest.definitionText library h body)).length +
        (['\n'] ++ (r.legacyText library ++ tail)).length := by simp; omega
  rw [← hcut, ← ht] at hwindow
  rw [findIn, hwindow, hcut, header_found hl hw hlead hstart, ← hcut, hend, ← List.length_append]
  simp only [hgives, bind, Except.bind, hinner]
  rw [hafter, hstop, hnext]
  simp [Forest.definitionsAt, Nat.add_assoc, pure, Except.pure]

end

/-- The search on the rendering of a forest whose lines hold no header. -/
theorem find_forest {library t : Text} (hl : Text.isName library = true) {f : Forest}
    (hf : f.Readable library) : Finds library t f := by
  induction f with
  | done => exact finds_done
  | line s r ih =>
    refine finds_row hf.1 rfl (fun i h => ?_) (fun _ => rfl) (ih hf.2)
    simpa [Forest.CodeOver] using h
  | call lead b args r ih =>
    refine finds_row hf.1 (by simp [Forest.legacyText]) (fun i h => ?_) (fun i => ?_) (ih hf.2)
    · simpa [Forest.CodeOver, Nat.add_assoc] using h
    · simp [Forest.definitionsAt, Nat.add_assoc]
  | define h body r ihb ihr =>
    obtain ⟨hw, hbody, hr⟩ := hf
    exact finds_definition hl hw hbody (ihb (readable_of_well_formed hl hbody)) (ihr hr)

end Restage.Legacy
