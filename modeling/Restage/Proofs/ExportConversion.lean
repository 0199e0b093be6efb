import Restage.Proofs.ClassRows
import Restage.Proofs.ExportStage

/-!
Conversion of the setup body of an export. The body is the text of one forest in which the assets
assignment is a line, and its class form is the assignment between two lists of rows
(`convert_export`).
-/

set_option autoImplicit false

namespace Restage.Legacy

open Piece
open Text (endOf)

/-! One forest behind another. -/

namespace Forest

def followed : Forest → Forest → Forest
  | done, g => g
  | line s r, g => line s (followed r g)
  | call lead b args r, g => call lead b args (followed r g)
  | define h body r, g => define h body (followed r g)

section

variable (library : Text) (f g : Forest)

theorem followed_legacy :
    (f.followed g).legacyText library = f.legacyText library ++ g.legacyText library := by
  induction f with
  | done => rfl
  | line s r ih => simp [followed, legacyText, ih]
  | call lead b args r ih => simp [followed, legacyText, ih]
  | define h body r _ ihr => simp [followed, legacyText, ihr]

theorem followed_class : (f.followed g).classText library none =
    f.classText library none ++ g.classText library none := by
  induction f with
  | done => rfl
  | line s r ih => simp [followed, classText, ih]
  | call lead b args r ih => simp [followed, classText, ih]
  | define h body r _ ihr => simp [followed, classText, ihr]

theorem followed_names : (f.followed g).names = f.names ++ g.names := by
  induction f with
  | done => rfl
  | line s r ih => exact ih
  | call lead b args r ih => exact ih
  | define h body r _ ihr => simp [followed, names, ihr]

end

theorem followed_readable {library : Text} {f g : Forest} (hf : f.Readable library)
    (hg : g.Readable library) : (f.followed g).Readable library := by
  induction f with
  | done => exact hg
  | line s r ih => exact ⟨hf.1, ih hf.2⟩
  | call lead b args r ih => exact ⟨hf.1, ih hf.2⟩
  | define h body r _ ihr => exact ⟨hf.1, hf.2.1, ihr hf.2.2⟩

theorem followed_code {library t : Text} {f g : Forest} {i : Nat} (hf : f.CodeOver library t i)
    (hg : g.CodeOver library t (i + (f.legacyText library).length)) :
    (f.followed g).CodeOver library t i := by
  induction f generalizing i with
  | done => exact hg
  | line s r ih =>
    refine ih hf ?_
    have hlen : i + ((line s r).legacyText library).length =
        i + s.length + 1 + (r.legacyText library).length := by simp [legacyText]; omega
    rwa [hlen] at hg
  | call lead b args r ih =>
    refine ih hf ?_
    have hlen : i + ((call lead b args r).legacyText library).length =
        i + lead.length + (callText b args).length + 1 + (r.legacyText library).length := by
      simp [legacyText]; omega
    rwa [hlen] at hg
  | define h body r _ ihr =>
    refine ⟨hf.1, ihr hf.2 ?_⟩
    have hlen : i + ((define h body r).legacyText library).length =
        i + (definitionText library h body).length + 1 + (r.legacyText library).length := by
      simp [legacyText, definitionText]; omega
    rwa [hlen] at hg

end Forest

/-! Patterns at the beginning of a line. -/

/-- Inside a line such a pattern fits nowhere. -/
theorem midline_silent {p : Pattern} (hp : p.behind = Pattern.lineStart) {b : Option Char}
    (hb : Pattern.lineStart b = false) {u : Text} (hu : '\n' ∉ u) (x : Char) (t : Text) :
    p.Silent b (u ++ [x]) t := by
  have hnone : ∀ {b : Option Char} (v : Text), Pattern.lineStart b = false → p.fits? b v = none :=
    fun v hb => by simp [Pattern.fits?, hp, hb]
  induction u generalizing b with
  | nil => exact Pattern.silent_cons.2 ⟨hnone _ hb, Pattern.silent_nil _ _⟩
  | cons c u ih =>
    simp only [List.mem_cons, not_or] at hu
    exact Pattern.silent_cons.2 ⟨hnone _ hb, ih (by simp [Pattern.lineStart, Ne.symm hu.1]) hu.2⟩

/-- A pattern that begins at the beginning of a line and needs, in front of the next brace, quote or
line end, a word with a dot in it and a parenthesis or a semicolon. -/
structure LineBound (p : Pattern) : Prop where
  behind : p.behind = Pattern.lineStart
  needs : ∃ ps w qs, p.pieces = ps ++ .word w :: qs ∧
    (∀ x ∈ ['{', '\x22', '\n'], (∀ q ∈ ps, q.Avoids x) ∧ x ∉ w) ∧
    '.' ∈ w ∧ ('(' ∈ w ∨ ';' ∈ w)

theorem line_bound_silent {p : Pattern} (hp : LineBound p) {x : Char}
    (hx : x ∈ ['{', '\x22', '\n']) {s : Text} (hs : '.' ∉ s ∨ '(' ∉ s ∧ ';' ∉ s)
    (b : Option Char) (t : Text) : p.Silent b (s ++ [x]) t := by
  obtain ⟨ps, w, qs, hpieces, havoid, hdot, hmark⟩ := hp.needs
  refine Pattern.silent_absent hpieces (havoid x hx).1 (havoid x hx).2 ?_ b t
  intro hin
  rcases hs with hs | ⟨h1, h2⟩
  · exact hs (hin.subset hdot)
  · exact hmark.elim (fun h => h1 (hin.subset h)) fun h => h2 (hin.subset h)

theorem header_line_bound {target : List Piece}
    (ht : ∀ x ∈ ['{', '\x22', '\n'], ∀ q ∈ target, q.Avoids x) :
    LineBound (Definition.headerOf target) := by
  refine ⟨rfl, _, _, _, header_needs target, ?_, by decide, by decide⟩
  intro x hx
  have hgap : Piece.gap.Avoids x := by
    rcases List.mem_cons.1 hx with rfl | hx
    · rfl
    rcases List.mem_cons.1 hx with rfl | hx
    · rfl
    · rw [List.mem_singleton.1 hx]
      rfl
  have hrest : ∀ q ∈ Piece.name ++ [.gap, .lit "=", .gap, .oneOf (Base.all.map Base.text)],
      q.Avoids x := by
    simp only [List.mem_cons, List.not_mem_nil, or_false] at hx
    intro q hq
    simp only [Piece.name, List.cons_append, List.nil_append, List.mem_cons, List.not_mem_nil,
      or_false] at hq
    rcases hq with rfl | rfl | rfl | rfl | rfl | rfl
    · trivial
    all_goals rcases hx with rfl | rfl | rfl <;>
      simp [Avoids, Piece.gap, Piece.lit] <;> decide
  refine ⟨?_, ?_⟩
  · intro q hq
    simp only [List.append_assoc, List.mem_append, List.mem_singleton] at hq
    rcases hq with rfl | hq | hq
    · exact hgap
    · exact ht x hx q hq
    · exact hrest q (by simpa only [List.mem_append] using hq)
  · simp only [List.mem_cons, List.not_mem_nil, or_false] at hx
    rcases hx with rfl | rfl | rfl <;> decide

theorem member_line_bound {library : Text} (hl : Text.isName library = true) :
    LineBound (Definition.memberHeader library) := by
  refine header_line_bound fun x hx q hq => ?_
  have hmark : Text.isNamePart x = false ∧ x ≠ '.' := by
    simp only [List.mem_cons, List.not_mem_nil, or_false] at hx
    rcases hx with rfl | rfl | rfl <;> decide
  have hlib : x ∉ library := Text.not_mem_of_all (Text.name_parts hl) hmark.1
  simp only [List.mem_cons, List.not_mem_nil, or_false] at hq
  rcases hq with rfl | rfl <;> simp [Avoids, hlib, hmark.2]

theorem variable_line_bound : LineBound Definition.variableHeader := by
  refine header_line_bound fun x hx q hq => ?_
  simp only [List.mem_cons, List.not_mem_nil, or_false] at hx hq
  rcases hq with rfl | rfl <;> rcases hx with rfl | rfl | rfl <;>
    simp [Avoids, Piece.gaps, Piece.lit] <;> decide

/-! The assets assignment, for a name of the library. -/

theorem asset_inside {s : Text} (hs : AssetString s) : Script.InQuotes '\x22' s := by
  intro c hc
  have := hs c hc
  simp only [List.mem_cons, List.not_mem_nil, or_false, not_or] at this
  exact ⟨this.1, this.2.1, this.2.2.1, this.2.2.2.1⟩

/-- What is visible of a mapping between its braces. -/
def isMappingMark (c : Char) : Bool := isFiller c || c == '\x22'

/-- A character of a class without quotes, slashes and the end of an arrow. -/
theorem harmless_of {p : Char → Bool}
    (hp : ∀ c ∈ ['\x22', '\x27', '\x60', '/', '>'], p c = false) {c : Char} (hc : p c = true) :
    Script.opensLiteral c = false ∧ c ≠ '>' := by
  have hne : ∀ {x : Char}, x ∈ ['\x22', '\x27', '\x60', '/', '>'] → c ≠ x := by
    rintro x hx rfl
    rw [hp c hx] at hc
    exact Bool.noConfusion hc
  refine ⟨?_, hne (by decide)⟩
  simp [Script.opensLiteral, hne (x := '\x22') (by decide), hne (x := '\x27') (by decide),
    hne (x := '\x60') (by decide), hne (x := '/') (by decide)]

theorem fillers_flow {u : Text} (hu : ∀ c ∈ u, isFiller c = true) :
    Script.Flows isMappingMark u :=
  Script.flows_harmless (fun c hc => harmless_of (by decide) (hu c hc))
    fun c hc => by simp [isMappingMark, hu c hc]

namespace AssetPair

variable {p : AssetPair} (hp : p.Formed)
include hp

theorem pair_flows : Script.Flows isMappingMark p.text :=
  Script.flows_append (fillers_flow hp.lead) (Script.flows_append
    (Script.flows_quotes rfl (asset_inside hp.id) rfl) (Script.flows_append (fillers_flow hp.middle)
      (Script.flows_quotes rfl (asset_inside hp.path) rfl)))

theorem pair_silent {q : Pattern} (hq : LineBound q) (b : Option Char) (t : Text) :
    q.Silent b p.text t := by
  have hfill : ∀ {u : Text}, (∀ c ∈ u, isFiller c = true) → ∀ b t, q.Silent b (u ++ ['\x22']) t :=
    fun hu b t => line_bound_silent hq (by decide) (Or.inl (fillers_lack (by decide) hu)) b t
  have hstring : ∀ {s : Text}, AssetString s → ∀ t, q.Silent (some '\x22') (s ++ ['\x22']) t := by
    intro s hs t
    exact midline_silent hq.behind rfl (fun h => (asset_inside hs _ h).2.2.1 rfl) _ t
  have htext : p.text = (p.lead ++ ['\x22']) ++ ((p.id ++ ['\x22']) ++ ((p.middle ++ ['\x22']) ++
      (p.path ++ ['\x22']))) := by simp [text, quoteText]
  rw [htext]
  refine Pattern.silent_append.2 ⟨hfill hp.lead _ _, Pattern.silent_append.2 ⟨?_,
    Pattern.silent_append.2 ⟨hfill hp.middle _ _, ?_⟩⟩⟩
  · rw [Text.endOf_concat]
    exact hstring hp.id _
  · rw [Text.endOf_concat]
    exact hstring hp.path _

end AssetPair

namespace Export

variable {e : Export}

/-- The assignment between the name of the library and the mapping. -/
def assigned (e : Export) : Text := '.' :: (e.stage ++ (".assets".toList ++ " = \x7b".toList))

theorem assignment_split (root : Text) : e.assignment root =
    (e.indent ++ (root ++ e.assigned)) ++ (e.inner ++ "\x7d;".toList) := by
  simp [assignment, assigned]

variable (he : e.Formed)
include he

theorem inner_flows : Script.Flows isMappingMark e.inner := by
  have hpairs : ∀ ps : List AssetPair, (∀ p ∈ ps, p.Formed) →
      Script.Flows isMappingMark (ps.flatMap AssetPair.text) := by
    intro ps hps
    induction ps with
    | nil => exact Script.flows_harmless (by simp) (by simp)
    | cons p ps ih =>
      rw [List.flatMap_cons]
      exact Script.flows_append (AssetPair.pair_flows (hps p (by simp)))
        (ih fun q hq => hps q (by simp [hq]))
  exact Script.flows_append (hpairs _ he.pairs) (fillers_flow he.close)

theorem inner_silent {q : Pattern} (hq : LineBound q) (b : Option Char) (t : Text) :
    q.Silent b (e.inner ++ "\x7d;\n".toList) t := by
  have hpairs : ∀ (ps : List AssetPair) (b : Option Char) (t : Text), (∀ p ∈ ps, p.Formed) →
      q.Silent b (ps.flatMap AssetPair.text) t := by
    intro ps b t hps
    induction ps generalizing b with
    | nil => exact Pattern.silent_nil _ _
    | cons p ps ih =>
      rw [List.flatMap_cons]
      exact Pattern.silent_append.2 ⟨AssetPair.pair_silent (hps p (by simp)) hq _ _,
        ih _ fun r hr => hps r (by simp [hr])⟩
  have hclose : ∀ b, q.Silent b ((e.close ++ "\x7d;".toList) ++ ['\n']) t := by
    refine fun b => line_bound_silent hq (by decide) (Or.inl ?_) b t
    simp only [List.mem_append, not_or]
    exact ⟨fillers_lack (by decide) he.close, by decide⟩
  have htext : e.inner ++ "\x7d;\n".toList =
      e.pairs.flatMap AssetPair.text ++ ((e.close ++ "\x7d;".toList) ++ ['\n']) := by simp [inner]
  rw [htext]
  exact Pattern.silent_append.2 ⟨hpairs _ _ _ he.pairs, hclose _⟩

/-- In front of the mapping there are name characters, indents and the marks of an assignment. -/
theorem assigned_lacks {root : Text} {x : Char} (hroot : x ∉ root)
    (h1 : isIndent x = false) (h2 : Text.isNamePart x = false)
    (h3 : x ∉ ".assets = ".toList) : x ∉ e.indent ++ (root ++ ('.' :: (e.stage ++
      (".assets".toList ++ " = ".toList)))) := by
  have hindent := Text.not_mem_of_all he.indent h1
  have hstage := Text.not_mem_of_all (Text.name_parts he.stage) h2
  have hmarks : x ∉ ".assets".toList ∧ x ∉ " = ".toList ∧ x ≠ '.' := by
    have hcut : ".assets = ".toList = ".assets".toList ++ " = ".toList := rfl
    have hdot : '.' ∈ ".assets".toList := by decide
    rw [hcut, List.mem_append, not_or] at h3
    exact ⟨h3.1, h3.2, fun h => h3.1 (h ▸ hdot)⟩
  simp only [List.mem_append, List.mem_cons, not_or]
  exact ⟨hindent, hroot, hmarks.2.2, hstage, hmarks.1, hmarks.2.1⟩

/-- A pattern at the beginning of a line is silent on the assignment. -/
theorem assignment_line_silent {q : Pattern} (hq : LineBound q) {root : Text}
    (hroot : '(' ∉ root ∧ ';' ∉ root) (b : Option Char) (t : Text) :
    q.Silent b (e.assignment root ++ ['\n']) t := by
  have htext : e.assignment root ++ ['\n'] =
      ((e.indent ++ (root ++ ('.' :: (e.stage ++ (".assets".toList ++ " = ".toList))))) ++ ['{']) ++
        (e.inner ++ "\x7d;\n".toList) := by
    simp [assignment]
  have hfront := line_bound_silent hq (x := '{') (by decide) (Or.inr
    ⟨assigned_lacks he hroot.1 (by decide) (by decide) (by decide),
      assigned_lacks he hroot.2 (by decide) (by decide) (by decide)⟩)
  rw [htext]
  exact Pattern.silent_append.2 ⟨hfront _ _, inner_silent he hq _ _⟩

theorem assignment_headless {library : Text} (hl : Text.isName library = true) :
    Headless library (e.assignment library) := by
  have hlib : '(' ∉ library ∧ ';' ∉ library :=
    ⟨library_lacks hl (by decide), library_lacks hl (by decide)⟩
  exact fun b t => ⟨assignment_line_silent he (member_line_bound hl) hlib b t,
    assignment_line_silent he variable_line_bound hlib b t⟩

theorem assigned_harmless {root : Text}
    (hroot : ∀ c ∈ root, Script.opensLiteral c = false ∧ c ≠ '>') :
    ∀ c ∈ e.indent ++ (root ++ e.assigned), Script.opensLiteral c = false ∧ c ≠ '>' := by
  intro c hc
  simp only [assigned, List.mem_append, List.mem_cons] at hc
  rcases hc with hc | hc | rfl | hc | hc | hc
  · exact harmless_of (by decide) (he.indent c hc)
  · exact hroot c hc
  · decide
  · exact harmless_of (by decide) (Text.name_parts he.stage c hc)
  · exact (by decide : ∀ c ∈ ".assets".toList, Script.opensLiteral c = false ∧ c ≠ '>') c hc
  · exact (by decide : ∀ c ∈ " = \x7b".toList, Script.opensLiteral c = false ∧ c ≠ '>') c hc

theorem assignment_flows {root : Text}
    (hroot : ∀ c ∈ root, Script.opensLiteral c = false ∧ c ≠ '>') :
    Script.Flows (fun _ => true) (e.assignment root) := by
  have hinner : Script.Flows (fun _ => true) e.inner := by
    intro m hm
    obtain ⟨n, hn, h, _⟩ := inner_flows he m hm
    exact ⟨n, hn, h, fun _ _ => rfl⟩
  rw [assignment_split]
  exact Script.flows_append (Script.flows_harmless (assigned_harmless he hroot) fun _ _ => rfl)
    (Script.flows_append hinner (Script.flows_harmless (by decide) fun _ _ => rfl))

end Export

/-! Texts whose code ends with a line. -/

/-- A text without literal that is empty or ends a line. -/
theorem scan_ended {u : Text} (hu : Script.Bare u) (hend : endOf (some '\n') u = some '\n') :
    Script.scan .fresh u = some .fresh := by
  rcases List.eq_nil_or_concat u with rfl | ⟨w, c, hw⟩
  · rfl
  · rw [List.concat_eq_append] at hw
    subst hw
    rw [Text.endOf_concat, Option.some.injEq] at hend
    subst hend
    have hw : Script.Bare w := ⟨fun c hc => hu.1 c (by simp [hc]),
      fun h => hu.2 (h.trans (List.prefix_append _ _).isInfix)⟩
    rw [Script.scan_line (Script.tidy_bare hw)]
    rfl

/-- Code in front of which the automaton stands at the beginning of a line. -/
theorem code_behind {n : Script.Post} {pre u v : Text}
    (hfirst : ∀ w, pre ++ (u ++ v) = '#' :: '!' :: w → ∀ c ∈ w.takeWhile (· != '\n'),
      Script.isQuote c = false)
    (hscan : Script.scan .fresh (pre ++ (u ++ v)) = some n) (hn : n.inString = false)
    (hpre : Script.scan .fresh pre = some .fresh) (hu : Script.Bare u) :
    Script.CodeAt (pre ++ (u ++ v)) pre.length u := by
  obtain ⟨k, _, hk⟩ := Script.tidy_bare hu
  refine ⟨pre, v, Script.quoteMask .fresh pre, Script.quoteMask k v, rfl, rfl,
    Script.length_mask _ _, Script.length_mask _ _, ?_⟩
  rw [Script.code_mask_scan hscan hn hfirst, Script.mask_append hpre, Script.mask_append hk,
    Script.mask_bare hu]

namespace Export

/-- The setup body as one forest. -/
def bodyForest (e : Export) : Forest :=
  .line [] (e.front.followed (.line (e.assignment e.libraryAlias) e.back))

theorem body_forest (e : Export) : e.bodyForest.legacyText e.libraryAlias = e.body := by
  simp [bodyForest, body, Forest.legacyText, Forest.followed_legacy]

variable {e : Export} (he : e.Formed)
include he

/-- The definitions of a setup body are code. -/
theorem body_code : e.bodyForest.CodeOver e.libraryAlias e.body 0 := by
  have hl := he.libraryAlias
  have hbare : ∀ {f : Forest}, f.Exportable none → Script.Bare (f.legacyText e.libraryAlias) := by
    intro f hf
    have hempty : Script.Bare [] := bare_without_dash (by simp) (by simp)
    have := forest_bare hl (exportable_well_formed hf) hempty
    rwa [List.append_nil] at this
  have hroot : ∀ c ∈ e.libraryAlias, Script.opensLiteral c = false ∧ c ≠ '>' :=
    fun c hc => harmless_of (by decide) (Text.name_parts hl c hc)
  have hline : ∀ v, Script.scan .fresh (e.assignment e.libraryAlias ++ '\n' :: v) =
      Script.scan .fresh v := fun _ => Script.scan_line (Script.flows_tidy (assignment_flows he hroot))
  have hnew : ∀ v, Script.scan .fresh ('\n' :: v) = Script.scan .fresh v :=
    fun _ => Script.scan_line Script.tidy_nil
  have hfront := scan_ended (hbare he.front) (legacy_ends _ _)
  have hback := scan_ended (hbare he.back) (legacy_ends _ _)
  have hwhole : Script.scan .fresh e.body = some .fresh := by
    rw [body, hnew, Script.scan_append, hfront, Option.bind_some, hline, hback]
  have hfirst : ∀ w, e.body = '#' :: '!' :: w → ∀ c ∈ w.takeWhile (· != '\n'),
      Script.isQuote c = false := by
    intro w hw
    exact absurd (List.cons.inj hw).1 (by decide)
  have hcode : ∀ {pre u v : Text}, e.body = pre ++ (u ++ v) →
      Script.scan .fresh pre = some .fresh → Script.Bare u → Script.CodeAt e.body pre.length u := by
    intro pre u v hcut hpre hu
    rw [hcut] at hwhole hfirst ⊢
    exact code_behind hfirst hwhole rfl hpre hu
  have hover : ∀ (f : Forest) (u v : Text),
      e.body = u ++ (f.legacyText e.libraryAlias ++ v) → Script.scan .fresh u = some .fresh →
      f.Exportable none → f.CodeOver e.libraryAlias e.body u.length := by
    intro f u v hcut hpre hf
    have := hcode hcut hpre (hbare hf)
    exact code_over_stretch (u := []) (v := []) (by simpa using this)
  refine Forest.followed_code ?_ ?_
  · exact hover e.front ['\n'] (e.assignment e.libraryAlias ++
      '\n' :: e.back.legacyText e.libraryAlias) (by simp [body]) rfl he.front
  · have hlen : ('\n' :: (e.front.legacyText e.libraryAlias ++
        (e.assignment e.libraryAlias ++ ['\n']))).length = 0 + ([] : Text).length + 1 +
        (e.front.legacyText e.libraryAlias).length + (e.assignment e.libraryAlias).length + 1 := by
      simp; omega
    show e.back.CodeOver e.libraryAlias e.body _
    rw [← hlen]
    refine hover _ _ [] (by simp [body]) ?_ he.back
    rw [hnew, Script.scan_append, hfront, Option.bind_some, hline]
    rfl

/-- A setup body in a later form: an assignment between rows. -/
def rewrittenBody (e : Export) (σ : Style) (front back : List Row) : Text :=
  '\n' :: (rowsText σ front ++ (e.assignment σ.root ++ '\n' :: rowsText σ back))

/-- The setup body of an export is converted, and its classes are those of both forests. -/
theorem convert_export : ∃ c, (convert e.libraryAlias e.body).result = .ok c ∧
    c.text = e.rewrittenBody (.converted e.libraryAlias) (e.front.rows none) (e.back.rows none) ∧
    c.classNames = e.front.names ++ e.back.names := by
  have hl := he.libraryAlias
  have hreadable : e.bodyForest.Readable e.libraryAlias := by
    have hempty : ¬ ".extend(".toList <:+: ([] : Text) := by decide
    refine ⟨headless_of_absent hl hempty, Forest.followed_readable
      (readable_of_well_formed hl (exportable_well_formed he.front)) ⟨assignment_headless he hl,
        readable_of_well_formed hl (exportable_well_formed he.back)⟩⟩
  have hnil : ¬ ".extend(".toList <:+: ([] : Text) := by decide
  have hcode := body_code he
  rw [← List.append_nil e.body, ← body_forest] at hcode
  obtain ⟨c, hc, htext, hdefs⟩ := convert_rendering hl hreadable hnil hcode
  rw [List.append_nil, body_forest] at hc
  refine ⟨c, hc, ?_, ?_⟩
  · rw [htext, rewrittenBody, rows_class_text, rows_class_text]
    simp [bodyForest, Forest.classText, Forest.followed_class, Style.converted]
  · rw [Conversion.classNames, hdefs, walk_names]
    simp [bodyForest, Forest.names, Forest.followed_names]

end Export
end Restage.Legacy
