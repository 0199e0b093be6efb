import Restage.Proofs.LegacySearch
import Restage.Proofs.Splicing

/-!
Conversion of a rendered forest. The edits of its definitions, in whatever order they are listed,
turn the legacy rendering into the class rendering (`convert_forest`).
-/

set_option autoImplicit false

namespace Restage.Legacy

open Definition

namespace Forest

variable (library : Text)

/-- The edits of a forest from left to right, that of the first call of the base that is due
included. -/
def editsAt : Option Base → Nat → Forest → List Edit
  | _, _, done => []
  | due, i, line s r => editsAt due (i + s.length + 1) r
  | due, i, call lead b args r =>
    let next := i + lead.length + (callText b args).length + 1
    if due = some b then
      ⟨⟨i + lead.length, i + lead.length + (callLead b args).length⟩, "super(".toList⟩ ::
        editsAt none next r
    else editsAt due next r
  | due, i, define h body r =>
    let d := definitionAt library i h body
    ⟨d.header, h.classText library ++ if body.calls h.base then [] else h.insertedText⟩ ::
      (editsAt (some h.base) (d.header.stop + 1) body ++
        ⟨d.footer, Conversion.classFoot d⟩ ::
          editsAt due (i + (definitionText library h body).length + 1) r)

/-- The edit of the first call of the base that is due. -/
def dueEdits (due : Option Base) (i : Nat) (f : Forest) : List Edit :=
  match due with
  | none => []
  | some b => ((f.firstCall? library b i).map fun x => ⟨x.span, "super(".toList⟩).toList

end Forest

section

variable {library : Text}

theorem calls_first (b : Base) (f : Forest) (i : Nat) :
    f.calls b = (f.firstCall? library b i).isSome := by
  induction f generalizing i with
  | done => rfl
  | line s r ih => exact ih _
  | call lead b' args r ih =>
    by_cases hb : b' = b
    · simp [Forest.calls, Forest.firstCall?, hb]
    · simpa [Forest.calls, Forest.firstCall?, hb] using ih _
  | define h body r _ ihr => exact ihr _

theorem call_span (i : Nat) (b : Base) (args : Text) :
    (Hit.mk i (callParts b args)).span = ⟨i, i + (callLead b args).length⟩ := by
  simp [Hit.span, Hit.stop, Hit.text, call_parts_flatten]

/-- The edits that one definition gives. -/
theorem edits_definition (i : Nat) (h : Head) (body : Forest) (ds : List Definition) :
    Conversion.edits { Forest.definitionAt library i h body with children := ds } =
      Forest.dueEdits library (some h.base) (i + (h.legacyText library).length + 1) body ++
        [⟨(Forest.definitionAt library i h body).header,
            h.classText library ++ if body.calls h.base then [] else h.insertedText⟩,
          ⟨(Forest.definitionAt library i h body).footer,
            Conversion.classFoot (Forest.definitionAt library i h body)⟩] := by
  rw [@calls_first library h.base body (i + (h.legacyText library).length + 1)]
  cases hs : body.firstCall? library h.base (i + (h.legacyText library).length + 1) with
  | none => simp [Conversion.edits, Forest.definitionAt, Forest.dueEdits, hs, Conversion.classHead,
      Conversion.insertedCall, Conversion.classFoot, Head.classText, Head.insertedText]
  | some x => simp [Conversion.edits, Forest.definitionAt, Forest.dueEdits, hs,
      Conversion.classHead, Conversion.classFoot, Head.classText]

theorem edits_count (x : Edit) (due : Option Base) (i : Nat) (f : Forest) :
    ((walkAll (f.definitionsAt library i)).flatMap Conversion.edits).count x +
      (f.dueEdits library due i).count x = (f.editsAt library due i).count x := by
  induction f generalizing due i with
  | done => cases due <;> simp [Forest.definitionsAt, walkAll, Forest.dueEdits, Forest.firstCall?, Forest.editsAt]
  | line s r ih =>
    have := ih due (i + s.length + 1)
    cases due <;> exact this
  | call lead b args r ih =>
    have hnone := ih none (i + lead.length + (callText b args).length + 1)
    have hdue := ih due (i + lead.length + (callText b args).length + 1)
    cases due with
    | none => simpa [Forest.definitionsAt, Forest.dueEdits, Forest.editsAt] using hnone
    | some b' =>
      by_cases hb : b = b'
      · subst hb
        simp [Forest.definitionsAt, Forest.dueEdits, Forest.editsAt, Forest.firstCall?, call_span,
          List.count_cons] at hnone ⊢
        omega
      · have hb' : b' ≠ b := fun h => hb h.symm
        simpa [Forest.definitionsAt, Forest.dueEdits, Forest.editsAt, Forest.firstCall?, hb, hb']
          using hdue
  | define h body r ihb ihr =>
    have hbody := ihb (some h.base) (i + (h.legacyText library).length + 1)
    have hrest := ihr due (i + (Forest.definitionText library h body).length + 1)
    have hwalk : walkAll ((Forest.define h body r).definitionsAt library i) =
        { Forest.definitionAt library i h body with
            children := body.definitionsAt library (i + (h.legacyText library).length + 1) } ::
          (walkAll (body.definitionsAt library (i + (h.legacyText library).length + 1)) ++
            walkAll (r.definitionsAt library (i + (Forest.definitionText library h body).length + 1))) := by
      simp [Forest.definitionsAt, walkAll, walk]
    have hdue : Forest.dueEdits library due i (Forest.define h body r) =
        Forest.dueEdits library due (i + (Forest.definitionText library h body).length + 1) r := by
      cases due <;> rfl
    rw [hwalk, hdue, List.flatMap_cons, edits_definition, Forest.editsAt]
    simp only [List.flatMap_append, List.count_append, List.count_cons, List.count_nil]
    have hstop : (Forest.definitionAt library i h body).header.stop =
      i + (h.legacyText library).length := rfl
    rw [hstop]
    omega

theorem header_pos (h : Head) : 0 < (h.legacyText library).length := by
  have hmark : 0 < " = ".toList.length := by decide
  unfold Head.legacyText
  simp only [List.length_append]
  omega

theorem edits_along (due : Option Base) (i : Nat) (f : Forest) :
    Edit.Along i (i + (f.legacyText library).length) (f.editsAt library due i) := by
  induction f generalizing due i with
  | done => exact Nat.le_refl i
  | line s r ih =>
    have hlen : i + ((Forest.line s r).legacyText library).length =
        i + s.length + 1 + (r.legacyText library).length := by simp [Forest.legacyText]; omega
    rw [hlen]
    exact Edit.along_weaken (ih due _) (by omega)
  | call lead b args r ih =>
    have hlen : i + ((Forest.call lead b args r).legacyText library).length =
        i + lead.length + (callText b args).length + 1 + (r.legacyText library).length := by
      simp [Forest.legacyText]; omega
    have hlead : (callLead b args).length ≤ (callText b args).length := by simp [callText]
    have hpos : 0 < (callLead b args).length := by
      have hmark : 0 < ".call(".toList.length := by decide
      unfold callLead
      simp only [List.length_append]
      omega
    rw [hlen, Forest.editsAt]
    split
    · exact ⟨by simp only; omega, by simp only; omega, Edit.along_weaken (ih none _) (by simp only; omega)⟩
    · exact Edit.along_weaken (ih due _) (by omega)
  | define h body r ihb ihr =>
    have hlen : i + ((Forest.define h body r).legacyText library).length =
        i + (Forest.definitionText library h body).length + 1 + (r.legacyText library).length := by
      simp [Forest.legacyText, Forest.definitionText]; omega
    have hfoot : i + (Forest.definitionText library h body).length + 1 =
        i + (h.legacyText library).length + 1 + (body.legacyText library).length +
          h.indent.length + 4 := by
      simp [Forest.definitionText]; omega
    have hpos := @header_pos library h
    rw [hlen]
    refine ⟨Nat.le_refl i, by simp only [Forest.definitionAt]; omega, ?_⟩
    refine Edit.along_append (Edit.along_weaken (ihb (some h.base) _) (Nat.le_succ _)) ?_
    refine ⟨?_, ?_, Edit.along_weaken (ihr due _) ?_⟩ <;> simp only [Forest.definitionAt] <;> omega

theorem edits_behind (due : Option Base) (i : Nat) (f : Forest) {es : List Edit}
    (hes : Edit.Behind (i + (f.legacyText library).length) es) :
    Edit.Behind i (f.editsAt library due i ++ es) := by
  intro e he
  rcases List.mem_append.1 he with he | he
  · exact Edit.along_behind (edits_along due i f) e he
  · have := hes e he
    exact ⟨by omega, this.2⟩

/-- Splicing the edits of a forest into its legacy form, wherever that stands, gives its class form. -/
def Splices (library : Text) (due : Option Base) (f : Forest) : Prop :=
  ∀ (i : Nat) (t : Text) {es : List Edit}, Edit.Behind (i + (f.legacyText library).length) es →
    Edit.splice i (f.legacyText library ++ t) (f.editsAt library due i ++ es) =
      f.classText library due ++ Edit.splice (i + (f.legacyText library).length) t es

/-- A row without an edit is kept. -/
theorem splices_row {due : Option Base} {s : Text} {f r : Forest}
    (htext : f.legacyText library = s ++ r.legacyText library)
    (hedits : ∀ i, f.editsAt library due i = r.editsAt library due (i + s.length))
    (hclass : f.classText library due = s ++ r.classText library due)
    (hr : Splices library due r) : Splices library due f := by
  intro i t es hes
  have hlen : i + (f.legacyText library).length = i + s.length + (r.legacyText library).length := by
    rw [htext, List.length_append, Nat.add_assoc]
  rw [hlen] at hes ⊢
  rw [htext, hedits, hclass, List.append_assoc, Edit.splice_keep _ _ _ (edits_behind due _ r hes),
    hr _ t hes, List.append_assoc]

/-- The call that is due is replaced, and none is due behind it. -/
theorem splices_call {b : Base} {lead args : Text} {r : Forest} (hr : Splices library none r) :
    Splices library (some b) (.call lead b args r) := by
  intro i t es hes
  have hlen : i + ((Forest.call lead b args r).legacyText library).length =
      i + lead.length + (callLead b args).length + (args ++ ");\n".toList).length +
        (r.legacyText library).length := by
    simp [Forest.legacyText, callText]; omega
  have htext : (Forest.call lead b args r).legacyText library ++ t =
      lead ++ (callLead b args ++ ((args ++ ");\n".toList) ++ (r.legacyText library ++ t))) := by
    simp [Forest.legacyText, callText]
  have hedits : (Forest.call lead b args r).editsAt library (some b) i ++ es =
      ⟨⟨i + lead.length, i + lead.length + (callLead b args).length⟩, "super(".toList⟩ ::
        (r.editsAt library none (i + lead.length + (callLead b args).length +
          (args ++ ");\n".toList).length) ++ es) := by
    simp [Forest.editsAt, callText, Nat.add_assoc]
  rw [hlen] at hes ⊢
  have hnext := edits_behind none _ r hes
  have hcall := Edit.behind_weaken (i := i + lead.length + (callLead b args).length) hnext (by omega)
  have hall := Edit.behind_cons (i := i + lead.length)
    (e := ⟨⟨i + lead.length, i + lead.length + (callLead b args).length⟩, "super(".toList⟩)
    (Nat.le_refl _) (by simp) hcall
  rw [htext, hedits, Edit.splice_keep _ _ _ hall, Edit.splice_replace,
    Edit.splice_keep _ _ _ hnext, hr _ t hes]
  simp [Forest.classText]

/-- The header and the footer of a definition are replaced, and between them those of its body. -/
theorem splices_definition {due : Option Base} {h : Head} {body r : Forest}
    (hbody : Splices library (some h.base) body) (hr : Splices library due r) :
    Splices library due (.define h body r) := by
  intro i t es hes
  have hlen : i + ((Forest.define h body r).legacyText library).length =
      i + (h.legacyText library).length + ['\n'].length + (body.legacyText library).length +
        h.indent.length + "\x7d);".toList.length + ['\n'].length +
          (r.legacyText library).length := by
    simp [Forest.legacyText]; omega
  have htext : (Forest.define h body r).legacyText library ++ t =
      h.legacyText library ++ (['\n'] ++ (body.legacyText library ++ (h.indent ++
        ("\x7d);".toList ++ (['\n'] ++ (r.legacyText library ++ t)))))) := by
    simp [Forest.legacyText]
  have hedits : (Forest.define h body r).editsAt library due i ++ es =
      ⟨⟨i, i + (h.legacyText library).length⟩,
          h.classText library ++ if body.calls h.base then [] else h.insertedText⟩ ::
        (body.editsAt library (some h.base) (i + (h.legacyText library).length + ['\n'].length) ++
          ⟨⟨i + (h.legacyText library).length + ['\n'].length +
              (body.legacyText library).length + h.indent.length,
            i + (h.legacyText library).length + ['\n'].length +
              (body.legacyText library).length + h.indent.length + "\x7d);".toList.length⟩,
            "\x7d\n".toList ++ h.indent ++ ['\x7d']⟩ ::
          (r.editsAt library due (i + (h.legacyText library).length + ['\n'].length +
            (body.legacyText library).length + h.indent.length + "\x7d);".toList.length +
              ['\n'].length) ++ es)) := by
    simp [Forest.editsAt, Forest.definitionAt, Forest.definitionText, Conversion.classFoot,
      Nat.add_assoc, Nat.add_comm 1]
  rw [hlen] at hes ⊢
  have hrest := edits_behind due _ r hes
  have hfoot := Edit.behind_cons (i := i + (h.legacyText library).length + ['\n'].length +
      (body.legacyText library).length + h.indent.length)
    (e := ⟨⟨_, _⟩, "\x7d\n".toList ++ h.indent ++ ['\x7d']⟩) (Nat.le_refl _)
    (Nat.le_add_right _ _) (Edit.behind_weaken hrest (Nat.le_add_right _ _))
  have hindent := Edit.behind_weaken hfoot (Nat.le_add_right _ _)
  rw [htext, hedits, Edit.splice_replace, Edit.splice_keep _ _ _ (edits_behind _ _ body hindent),
    hbody _ _ hindent, Edit.splice_keep _ _ _ hfoot, Edit.splice_replace,
    Edit.splice_keep _ _ _ hrest, hr _ t hes]
  simp [Forest.classText]

theorem splice_forest (due : Option Base) (f : Forest) : Splices library due f := by
  induction f generalizing due with
  | done =>
    intro i t es hes
    rfl
  | line s r ih =>
    refine splices_row (s := s ++ ['\n']) ?_ (fun i => ?_) ?_ (ih due)
    · simp [Forest.legacyText]
    · simp [Forest.editsAt, Nat.add_assoc]
    · simp [Forest.classText]
  | call lead b args r ih =>
    by_cases hb : due = some b
    · subst hb
      exact splices_call (ih none)
    · refine splices_row (s := lead ++ (callText b args ++ ['\n'])) ?_ (fun i => ?_) ?_ (ih due)
      · simp [Forest.legacyText]
      · simp [Forest.editsAt, hb, Nat.add_assoc]
      · simp [Forest.classText, hb]
  | define h body r ihb ihr => exact splices_definition (ihb (some h.base)) (ihr due)

/-! The order of the definitions. -/

theorem walk_starts (i : Nat) (f : Forest) :
    (∀ d ∈ walkAll (f.definitionsAt library i),
      i ≤ d.header.start ∧ d.header.start < i + (f.legacyText library).length) ∧
    (walkAll (f.definitionsAt library i)).Pairwise fun a b => Conversion.inOrder a b = true := by
  induction f generalizing i with
  | done => simp [Forest.definitionsAt, walkAll]
  | line s r ih =>
    obtain ⟨h1, h2⟩ := ih (i + s.length + 1)
    refine ⟨fun d hd => ?_, h2⟩
    have := h1 d hd
    simp only [Forest.legacyText, List.length_append, List.length_cons]
    omega
  | call lead b args r ih =>
    obtain ⟨h1, h2⟩ := ih (i + lead.length + (callText b args).length + 1)
    refine ⟨fun d hd => ?_, h2⟩
    have := h1 d hd
    simp only [Forest.legacyText, List.length_append, List.length_cons]
    omega
  | define h body r ihb ihr =>
    obtain ⟨hb1, hb2⟩ := ihb (i + (h.legacyText library).length + 1)
    obtain ⟨hr1, hr2⟩ := ihr (i + (Forest.definitionText library h body).length + 1)
    have hlen : ((Forest.define h body r).legacyText library).length =
        (Forest.definitionText library h body).length + 1 + (r.legacyText library).length := by
      simp [Forest.legacyText, Forest.definitionText]; omega
    have hinner : (h.legacyText library).length + 1 + (body.legacyText library).length <
        (Forest.definitionText library h body).length := by
      simp [Forest.definitionText]; omega
    have hwalk : walkAll ((Forest.define h body r).definitionsAt library i) =
        { Forest.definitionAt library i h body with
            children := body.definitionsAt library (i + (h.legacyText library).length + 1) } ::
          (walkAll (body.definitionsAt library (i + (h.legacyText library).length + 1)) ++
            walkAll (r.definitionsAt library (i + (Forest.definitionText library h body).length + 1))) := by
      simp [Forest.definitionsAt, walkAll, walk]
    rw [hwalk, hlen]
    constructor
    · intro d hd
      rcases List.mem_cons.1 hd with rfl | hd
      · simp only [Forest.definitionAt]
        omega
      · rcases List.mem_append.1 hd with hd | hd
        · have := hb1 d hd; omega
        · have := hr1 d hd; omega
    · refine List.Pairwise.cons ?_ (List.pairwise_append.2 ⟨hb2, hr2, ?_⟩)
      · intro d hd
        refine decide_eq_true ?_
        change i ≤ d.header.start
        rcases List.mem_append.1 hd with hd | hd
        · have := hb1 d hd; omega
        · have := hr1 d hd; omega
      · intro a ha d hd
        have := hb1 a ha
        have := hr1 d hd
        simp only [Conversion.inOrder, decide_eq_true_eq]
        omega

theorem walk_names (i : Nat) (f : Forest) :
    (walkAll (f.definitionsAt library i)).map (·.name) = f.names := by
  induction f generalizing i with
  | done => rfl
  | line s r ih => exact ih _
  | call lead b args r ih => exact ih _
  | define h body r ihb ihr =>
    simp [Forest.definitionsAt, walkAll, walk, Forest.names, ihb, ihr, Forest.definitionAt]

/-- Conversion of a text that is the rendering of a forest and a tail without a header. -/
theorem convert_rendering (hl : Text.isName library = true) {f : Forest}
    (hf : f.Readable library) {tail : Text} (htail : ¬ ".extend(".toList <:+: tail)
    (hcode : f.CodeOver library (f.legacyText library ++ tail) 0) :
    ∃ c, (convert library (f.legacyText library ++ tail)).result = .ok c ∧
      c.text = f.classText library none ++ tail ∧
      c.definitions = walkAll (f.definitionsAt library 0) := by
  have hfind : findAll library (f.legacyText library ++ tail) = .ok (f.definitionsAt library 0) := by
    have hwhole : f.legacyText library ++ tail =
        [] ++ (([] ++ (f.legacyText library ++ tail)) ++ []) := by simp
    have := find_forest hl hf _ hwhole (fun t => ⟨Pattern.silent_nil _ _, Pattern.silent_nil _ _⟩)
      (by decide) htail hcode (Nat.lt_succ_self _)
    simpa [findAll] using this
  have hsort : (walkAll (f.definitionsAt library 0)).mergeSort Conversion.inOrder =
      walkAll (f.definitionsAt library 0) := List.mergeSort_of_pairwise (walk_starts 0 f).2
  have halong : Edit.Along 0 (f.legacyText library ++ tail).length (f.editsAt library none 0) :=
    Edit.along_extend (edits_along none 0 f) (by simp)
  have hperm : ((walkAll (f.definitionsAt library 0)).flatMap Conversion.edits).Perm
      (f.editsAt library none 0) := by
    rw [List.perm_iff_count]
    intro x
    have := @edits_count library x none 0 f
    simpa [Forest.dueEdits] using this
  have happly := Edit.apply_all_splice hperm (Edit.along_ascending halong) (Edit.along_within halong)
  have hbehind : Edit.Behind (0 + (f.legacyText library).length) [] := by simp [Edit.Behind]
  have hsplice := splice_forest none f 0 tail hbehind
  rw [List.append_nil] at hsplice
  simp only [convert, bind, Traced.andThen, Traced.ofExcept, hfind, hsort, happly, hsplice]
  exact ⟨_, rfl, by simp [Edit.splice], rfl⟩

theorem bare_line {s t : Text} (hs : Script.Bare s) (ht : Script.Bare t) :
    Script.Bare (s ++ '\n' :: t) := by
  constructor
  · intro c hc
    rcases List.mem_append.1 hc with hc | hc
    · exact hs.1 c hc
    · rcases List.mem_cons.1 hc with rfl | hc
      · decide
      · exact ht.1 c hc
  · intro h
    rcases Text.infix_across (by decide) h with h | h
    · exact hs.2 h
    · exact ht.2 h

theorem bare_without_dash {s : Text} (hs : ∀ c ∈ s, Script.opensLiteral c = false)
    (hd : '-' ∉ s) : Script.Bare s :=
  ⟨hs, fun h => hd (h.subset (by simp))⟩

theorem header_bare (hl : Text.isName library = true) {h : Head} (hw : h.WellFormed) :
    Script.Bare (h.legacyText library) := by
  obtain ⟨u, hu, hc⟩ := header_chars hl hw
  rw [hu]
  have hmem : ∀ x, headerChar x = false → x ≠ '\x7b' → x ∉ u ++ ['\x7b'] := by
    intro x hx hb
    simp [Text.not_mem_of_all hc hx, hb]
  apply bare_without_dash
  · intro c hc'
    by_contra hbad
    simp only [Bool.not_eq_false, Script.opensLiteral, Bool.or_eq_true, beq_iff_eq] at hbad
    rcases hbad with ((rfl | rfl) | rfl) | rfl <;>
      exact absurd hc' (hmem _ (by decide) (by decide))
  · exact hmem _ (by decide) (by decide)

theorem call_line_bare {lead args : Text} (b : Base)
    (hlead : ∀ c ∈ lead, Text.isBlank c = true) (ha : Script.Bare args) :
    Script.Bare (lead ++ callText b args) := by
  have hleadbare : ∀ c ∈ lead, Script.opensLiteral c = false ∧ c ≠ '-' := by
    intro c hc
    have hb := hlead c hc
    constructor
    · by_contra hbad
      simp only [Bool.not_eq_false, Script.opensLiteral, Bool.or_eq_true, beq_iff_eq] at hbad
      rcases hbad with ((rfl | rfl) | rfl) | rfl <;> revert hb <;> decide
    · rintro rfl
      revert hb
      decide
  have hcallbare : ∀ c ∈ callLead b args, Script.opensLiteral c = false ∧ c ≠ '-' := by
    unfold callLead
    split <;> cases b <;> decide
  constructor
  · intro c hc
    simp only [callText, List.mem_append] at hc
    rcases hc with hc | hc | hc | hc
    · exact (hleadbare c hc).1
    · exact (hcallbare c hc).1
    · exact ha.1 c hc
    · revert c; decide
  · intro h
    rw [callText, ← List.append_assoc] at h
    have hdash : '-' ∉ lead ++ callLead b args := by
      intro hm
      rcases List.mem_append.1 hm with hm | hm
      · exact (hleadbare _ hm).2 rfl
      · exact (hcallbare _ hm).2 rfl
    have h1 := Text.infix_right_of_head hdash h
    exact ha.2 (Text.infix_left_of_last (w := "--".toList) (by decide) h1)

theorem forest_bare (hl : Text.isName library = true) {f : Forest} (hf : f.WellFormed) {t : Text}
    (ht : Script.Bare t) : Script.Bare (f.legacyText library ++ t) := by
  induction f generalizing t with
  | done => exact ht
  | line s r ih =>
    simpa [Forest.legacyText] using bare_line hf.1.bare (ih hf.2 ht)
  | call lead b args r ih =>
    obtain ⟨hlead, ha, _, hr⟩ := hf
    have := bare_line (call_line_bare b (fun c hc => (hlead c hc).1) ha.bare) (ih hr ht)
    simpa [Forest.legacyText] using this
  | define h body r ihb ihr =>
    obtain ⟨hw, hbody, hr⟩ := hf
    have hfoot : Script.Bare (h.indent ++ "\x7d);".toList) := by
      apply bare_without_dash
      · intro c hc
        rcases List.mem_append.1 hc with hc | hc
        · have hi := hw.indent c hc
          simp only [Piece.isIndent, Bool.or_eq_true, beq_iff_eq] at hi
          rcases hi with rfl | rfl <;> decide
        · exact (by decide : ∀ c ∈ "\x7d);".toList, Script.opensLiteral c = false) c hc
      · have := Text.not_mem_of_all hw.indent (x := '-') (by decide)
        simp [this]
    have := bare_line (header_bare hl hw) (ihb hbody (bare_line hfoot (ihr hr ht)))
    simpa [Forest.legacyText] using this

end

/-- A stage that calls its base class and holds a group that does not. -/
def sampleForest : Forest :=
  .define ⟨"    ".toList, true, "Stage".toList, .animated, "mode, loop".toList⟩
    (.call "        ".toList .animated "mode, loop".toList
      (.define ⟨"        ".toList, false, "group".toList, .grouping, []⟩
        (.line "            this.x = 1;".toList .done)
        .done))
    (.line "    lib.ready = true;".toList .done)

end Restage.Legacy
