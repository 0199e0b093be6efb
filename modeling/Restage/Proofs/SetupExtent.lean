import Restage.Proofs.BraceCounts
import Restage.Proofs.StaleExports

/-!
Where a captured setup body ends. Conversion, renaming and emission keep the count of braces, so the
bracket check sees to it that an accepted body opens as many braces as it closes; that it is the stretch
between one brace and the brace that closes it needs more (`setup_delimited_iff`). A body that closes
its brace early and opens another one at its end is accepted (`early_end_migrated`).
-/

set_option autoImplicit false

namespace Restage

open Legacy Output
open Script (isBrace isBracket net net_append net_plain net_cons net_zero net_trim net_unbracketed)
open Text (endOf)

/-! The count along a migration. -/

namespace Legacy

/-- What an edit adds to the count of a text. -/
def gain (t : Text) (e : Edit) : Int := net e.text - net (t.slice e.span)

section

variable {t : Text} {d : Definition}

/-- A class opens one brace more than the header it is made of, and closes one more than the
footer. -/
theorem edits_gain (hname : ∀ c ∈ d.name, Text.isNamePart c = true) (h : Definition.Stands t d) :
    ((Conversion.edits d).map (gain t)).sum = 0 := by
  obtain ⟨⟨x, hx⟩, hcall⟩ := h
  have hindent : net x.indent = 0 := net_zero (p := Piece.isIndent) (by decide) hx.indented
  have hhead : net x.head = net x.target + net x.raw + 1 := by
    simp only [Cut.head, net_append, net, hindent, net_unbracketed hx.link, net_unbracketed hx.keyword,
      net_zero (p := Piece.isIndent) (by decide) hx.gap]
    simp [Int.add_assoc]
  have hfoot : net x.foot = -1 := by
    simp only [Cut.foot, net_append, net, net_unbracketed hx.tail,
      net_zero (p := Text.isBlank) (by decide) hx.space]
    simp
  have hclass : net (Conversion.classHead d) = net x.target + net x.raw + 2 := by
    have hbase : net d.base.text = 0 := by cases d.base <;> decide
    have hparams : net d.params = net x.raw := by
      rw [hx.params]
      exact net_trim (by decide) _
    have hassigned : net " = class ".toList = 0 := by decide
    have hextends : net " extends ".toList = 0 := by decide
    have hopens : net " \x7b\n".toList = 1 := by decide
    have hconstructor : net "    constructor(".toList = 0 := by decide
    have hbrace : net ") \x7b".toList = 1 := by decide
    simp only [Conversion.classHead, hx.indent, hx.target, net_append, hindent, hbase, hparams,
      net_zero (p := Text.isNamePart) (by decide) hname, hassigned, hextends, hopens, hconstructor,
      hbrace]
    omega
  have hinserted : net (Conversion.insertedCall d) = 0 := by
    have hnone : net "        super();".toList = 0 := by decide
    simp only [Conversion.insertedCall, hx.indent, List.cons_append, net, net_append, hindent, hnone]
    simp
  have hclassfoot : net (Conversion.classFoot d) = -2 := by
    have hclose : net "\x7d\n".toList = -1 := by decide
    have hlast : net ['}'] = -1 := by decide
    simp only [Conversion.classFoot, hx.indent, net_append, hindent, hclose, hlast]
    omega
  rw [Conversion.edits]
  cases hs : d.superCall with
  | none =>
    simp only [List.map_cons, List.map_nil, List.sum_cons, List.sum_nil, gain, net_append,
      Definition.header_slice hx, Definition.footer_slice hx, hhead, hfoot, hclass, hinserted, hclassfoot]
    omega
  | some s =>
    obtain ⟨_, u, arg, v, hcut, rfl, _, harg⟩ := hcall s hs
    have hcallslice : net (t.slice ⟨u.length, u.length + (d.base.text ++ (".call(".toList ++
        arg)).length⟩) = 0 := by
      have hbase : net d.base.text = 0 := by cases d.base <;> decide
      have hword : net ".call(".toList = 0 := by decide
      rw [hcut, Text.slice_middle, net_append, net_append, hbase, hword, net_unbracketed harg]
      rfl
    have hsuper : net "super(".toList = 0 := by decide
    simp only [List.map_cons, List.map_nil, List.sum_cons, List.sum_nil, gain,
      Definition.header_slice hx, Definition.footer_slice hx, hhead, hfoot, hclass, hclassfoot, hcallslice,
      hsuper]
    omega

end

/-- A conversion keeps the count of braces. -/
theorem convert_net {library t : Text} {c : Conversion} (h : (convert library t).result = .ok c) :
    net c.text = net t := by
  obtain ⟨es, hperm, hascending, hwithin, htext⟩ := convert_splice h
  obtain ⟨tree, htree, hdefs, _⟩ := convert_ok h
  have hsum : (es.map (gain t)).sum = 0 := by
    rw [(hperm.map (gain t)).sum_eq, List.map_flatMap, List.flatMap_def, List.sum_flatten]
    refine List.sum_eq_zero fun n hn => ?_
    obtain ⟨_, hedits, rfl⟩ := List.mem_map.1 hn
    obtain ⟨d, hd, rfl⟩ := List.mem_map.1 hedits
    have hname := Definition.find_names htree d (List.mem_mergeSort.1 (hdefs ▸ hd))
    exact edits_gain hname (convert_stands h d hd)
  rw [htext, Edit.splice_net hascending hwithin]
  exact (congrArg (net t + ·) hsum).trans (Int.add_zero _)

namespace Substitution

/-- A substitution whose pattern takes no braces and that writes none. -/
structure Neutral (s : Substitution) : Prop where
  opener : ∀ q ∈ s.pattern.pieces, q.Avoids '{'
  closer : ∀ q ∈ s.pattern.pieces, q.Avoids '}'
  writes : ∀ b v h, s.pattern.fits? b v = some h.parts → net (s.replacement h) = 0

theorem run_net {s : Substitution} (hs : s.Neutral) (t : Text) : net (s.run t).1 = net t := by
  have hsum : ((s.editsFrom (Script.codeMask t) none 0 t).map (gain t)).sum = 0 := by
    refine List.sum_eq_zero fun n hn => ?_
    obtain ⟨e, he, rfl⟩ := List.mem_map.1 hn
    obtain ⟨hit, hhit, rfl⟩ := List.mem_map.1 he
    obtain ⟨u, v, hcut, hstart, hfit⟩ := Pattern.hit_cut (List.mem_filter.1 hhit).1
    obtain ⟨_, rest, hread⟩ := Pattern.fits_some.1 hfit
    have hslice : t.slice hit.span = hit.text := by
      rw [Hit.span, Hit.stop, hstart, Nat.zero_add, hcut, Piece.readAll_flatten hread]
      exact Text.slice_middle _ _ _
    have htext : net hit.text = 0 :=
      net_plain (Piece.readAll_avoids hs.opener hread) (Piece.readAll_avoids hs.closer hread)
    rw [gain, hslice, htext, hs.writes _ _ _ hfit, Int.sub_zero]
  rw [run_spread, spread, Edit.splice_net_from (edits_behind s _ _ _ _)
    (List.pairwise_map.2 ((hits_apart.2.filter _).imp id))]
  exact (congrArg (net t + ·) hsum).trans (Int.add_zero _)

theorem run_all_net {ss : List Substitution} (hs : ∀ s ∈ ss, s.Neutral) (t : Text) :
    net (runAll ss t).2 = net t := by
  induction ss generalizing t with
  | nil => rfl
  | cons s ss ih =>
    have hrest : (runAll (s :: ss) t).2 = (runAll ss (s.run t).1).2 := rfl
    rw [hrest, ih fun s hs' => hs s (by simp [hs']), run_net (hs s (by simp))]

section

variable {n : Names} (hspace : Text.isName n.namespaceAlias = true)
  (hlibrary : Text.isName n.libraryAlias = true)
include hspace hlibrary

theorem all_avoid {x : Char} (hx : isBrace x = true) :
    ∀ s ∈ all n, ∀ q ∈ s.pattern.pieces, q.Avoids x := by
  have hbrace : x = '{' ∨ x = '}' := by simpa [isBrace] using hx
  have hpart : Text.isNamePart x = false := by rcases hbrace with rfl | rfl <;> decide
  have hspace := name_lacks hspace hpart
  have hlibrary := name_lacks hlibrary hpart
  rcases hbrace with rfl | rfl
  all_goals
    simp [all, dropShapes, dropFromFrame, namespaceMembers, renderingPrimitives, libraryTable,
      shapesCache, textureLookup, declarations, bindingLine, primitives, Piece.Avoids, Piece.lit,
      Piece.gap, Piece.gaps, Piece.nextIs, Piece.nextIsNot, Piece.isIndent, hspace, hlibrary]

theorem all_neutral (hemitted : net n.emitted = 0) : ∀ s ∈ all n, s.Neutral := by
  intro s hs
  refine ⟨all_avoid hspace hlibrary (by decide) s hs, all_avoid hspace hlibrary (by decide) s hs,
    fun b v h hfit => ?_⟩
  have hdot : net ['.'] = 0 := by decide
  simp only [all, List.mem_cons, List.not_mem_nil, or_false] at hs
  rcases hs with rfl | rfl | rfl | rfl | rfl | rfl | rfl | rfl
  · rfl
  · rfl
  · exact (net_append _ _).trans (by rw [hemitted, hdot]; rfl)
  · have hall : ∀ w ∈ primitives, net w = 0 := by decide
    have hwritten : (renderingPrimitives n).replacement h = (n.emitted ++ ['.']) ++ h.part 1 := rfl
    rw [hwritten, net_append, net_append, hemitted, hdot, hall _ (primitive_taken hfit)]
    rfl
  all_goals rfl

/-- A renaming keeps the count of braces. -/
theorem rename_net (hemitted : net n.emitted = 0) (t : Text) : net (runAll (all n) t).2 = net t :=
  run_all_net (all_neutral hspace hlibrary hemitted) t

end

end Substitution

/-! The stage literal. -/

theorem find_cut {part t : Text} {i : Nat} (h : Text.find? part t = some i) :
    t = t.take i ++ (part ++ t.drop (i + part.length)) := by
  induction t generalizing i with
  | nil =>
    rw [Text.find?] at h
    split at h
    · next hnil => simp [List.isEmpty_iff.1 hnil]
    · simp at h
  | cons c t ih =>
    rw [Text.find?] at h
    split at h
    · next hstart =>
      obtain rfl := Option.some.inj h
      obtain ⟨v, hv⟩ := Setup.starts_iff.1 hstart
      rw [← hv]
      simp
    · obtain ⟨k, hk, rfl⟩ := Option.map_eq_some_iff.1 h
      have hcut := ih hk
      have hlater : k + 1 + part.length = (k + part.length) + 1 := by omega
      rw [hlater, List.take_succ_cons, List.drop_succ_cons, List.cons_append, ← hcut]

theorem erase_net {t part : Text} (h : net part = 0) : net (Text.erase t part) = net t := by
  rw [Text.erase]
  cases hfind : Text.find? part t with
  | none => rfl
  | some i =>
    have hcut := congrArg net (find_cut hfind)
    rw [net_append, net_append, h, Int.zero_add] at hcut
    rw [net_append]
    exact hcut.symm

namespace Stage

theorem trimmed_chars {parts : List Text} {e : Text} (he : e ∈ trimmed parts) {c : Char}
    (hc : c ∈ e) : ∃ q ∈ parts, c ∈ q := by
  obtain ⟨q, hq, rfl⟩ := List.mem_map.1 (List.mem_filter.1 he).1
  exact ⟨q, hq, (Text.trim_infix _ _).subset hc⟩

/-- The entries of a literal are made of its characters. -/
theorem entry_chars {inner e : Text} (he : e ∈ entries inner) {c : Char} (hc : c ∈ e) :
    c ∈ inner := by
  have hlines : ∀ e ∈ trimmed (Text.splitWhere (fun c => c == '\r' || c == '\n') inner.strip),
      ∀ c ∈ e, c ∈ inner := by
    intro e he c hc
    obtain ⟨q, hq, hc⟩ := trimmed_chars he hc
    exact (Text.trim_infix _ _).subset (Text.split_parts hq c hc).2
  rw [entries] at he
  split at he
  · next one hone =>
    have hline := hlines one (hone ▸ List.mem_singleton_self one)
    split at he
    · obtain ⟨q, hq, hc⟩ := trimmed_chars he hc
      exact hline c (Text.split_on_parts hq c hc).2
    · rw [List.mem_singleton.1 he] at hc
      exact hline c hc
  · exact hlines e he c hc

/-- A text that closes no brace and has none too many has none. -/
theorem opener_absent {u : Text} (hclose : '}' ∉ u) (h : net u = 0) : '{' ∉ u := by
  have hcount : net u = u.count '{' := by
    clear h
    induction u with
    | nil => rfl
    | cons c u ih =>
      rw [List.mem_cons, not_or] at hclose
      rw [net_cons, ih hclose.2, List.count_cons]
      by_cases hc : c = '{'
      · simp only [hc, net, beq_self_eq_true, if_true]
        omega
      · simp [net, hc, Ne.symm hclose.1]
  rw [h] at hcount
  exact List.count_eq_zero.1 (by omega)

/-- The lines of a literal that opens one brace have none. -/
theorem lines_net {t : Text} (h : ∀ s, (Stage.find t).statement = some s → net s = 0) :
    ∀ l ∈ (Stage.find t).lines, net l = 0 := by
  rw [Stage.find] at h ⊢
  cases hfirst : literal.first? t.entire with
  | none =>
    simp only []
    decide
  | some hit =>
    simp only [hfirst] at h ⊢
    obtain ⟨_, v, _, _, _, hfit⟩ := Pattern.first_iff.1 hfirst
    obtain ⟨_, _, hread⟩ := Pattern.fits_some.1 hfit
    change Piece.readAll [_, _, _, _, _, _, _] v = some (hit.parts, _) at hread
    obtain ⟨_, _, _, g0, h0, hparts⟩ := Piece.readAll_cons_iff.1 hread
    obtain ⟨gap, _, _, g1, h1, rfl⟩ := Piece.readAll_cons_iff.1 h0
    obtain ⟨_, _, _, g2, h2, rfl⟩ := Piece.readAll_cons_iff.1 h1
    obtain ⟨space, _, _, g3, h3, rfl⟩ := Piece.readAll_cons_iff.1 h2
    obtain ⟨_, _, _, g4, h4, rfl⟩ := Piece.readAll_cons_iff.1 h3
    obtain ⟨inner, _, _, g5, h5, rfl⟩ := Piece.readAll_cons_iff.1 h4
    obtain ⟨_, _, _, g6, h6, rfl⟩ := Piece.readAll_cons_iff.1 h5
    obtain ⟨rfl, rfl⟩ := Piece.readAll_nil_iff.1 h6
    obtain ⟨rfl, _⟩ := Piece.word_split_iff.1 g0
    obtain ⟨_, _, hgap, _⟩ := Piece.run_split_iff.1 g1
    obtain ⟨rfl, _⟩ := Piece.word_split_iff.1 g2
    obtain ⟨_, _, hspace, _⟩ := Piece.run_split_iff.1 g3
    obtain ⟨rfl, _⟩ := Piece.word_split_iff.1 g4
    obtain ⟨_, _, hinner, _⟩ := Piece.run_split_iff.1 g5
    obtain ⟨rfl, _⟩ := Piece.word_split_iff.1 g6
    have hpart : hit.part 5 = inner := by rw [Hit.part, hparts]; rfl
    have hclose : '}' ∉ inner := fun hin => absurd (hinner _ hin) (by decide)
    have htext : net hit.text = net inner := by
      have hword : net "module.exports".toList = 0 := by decide
      have hequals : net "=".toList = 0 := by decide
      have hopen : net "\x7b".toList = 1 := by decide
      have hend : net "\x7d;".toList = -1 := by decide
      simp only [Hit.text, hparts, List.flatten_cons, List.flatten_nil, net_append, hword, hequals,
        hopen, hend, net_zero (p := Text.isBlank) (by decide) hgap,
        net_zero (p := Text.isBlank) (by decide) hspace, net]
      omega
    have hopen := opener_absent hclose (htext ▸ h _ rfl)
    intro l hl
    obtain ⟨e, he, rfl⟩ := List.mem_map.1 hl
    have he := (List.mem_filter.1 he).1
    rw [hpart] at he
    have hentry : net e = 0 :=
      net_plain (fun hin => hopen (entry_chars he hin)) fun hin => hclose (entry_chars he hin)
    rw [withComma]
    split
    · exact hentry
    · rw [net_append, hentry]
      decide

end Stage

end Legacy

/-! The module. -/

namespace Output

theorem module_net (ls : List Text) : net (moduleText ls) = (ls.map net).sum := by
  induction ls with
  | nil => rfl
  | cons l ls ih =>
    rw [module_cons, net_append, List.map_cons, List.sum_cons, net_cons, ih]
    simp [net]

theorem net_framed (i k : Int) {a u b : Text} (ha : net a = i) (hb : net b = k) :
    net (a ++ u ++ b) = i + net u + k := by
  rw [net_append, net_append, ha, hb]

/-- A text with nothing but other texts and words without braces around them. -/
theorem net_between {a u b : Text} (ha : net a = 0) (hu : net u = 0) (hb : net b = 0) :
    net (a ++ u ++ b) = 0 := by
  rw [net_append, net_append, ha, hu, hb]
  rfl

section

variable {assets : Assets} {body : Text}

/-- Attaching the stage keeps the count of braces, if the object that it replaces has no other in it. -/
theorem attached_net (hname : ∀ s, assets.stageName = some s → Text.isName s = true)
    (hfound : ∀ s, assets.stageName = some s → assets.found = true)
    (hmapping : ∀ s pre x post, assets.stageName = some s → AssignsBetween s body pre x post →
      net x.mapping = 0) : net (attachedBody assets body) = net body := by
  cases hs : assets.stageName with
  | none =>
    have hkept : attachedBody assets body = body := by
      rw [attachedBody, hs]
      split <;> simp_all
    rw [hkept]
  | some s =>
    by_cases hnone : Unassigned s body
    · rw [attached_unassigned hs hnone]
    · have hsome : s ≠ [] := by
        rintro rfl
        exact absurd (hname _ hs) (by decide)
      have hstage : net s = 0 := net_zero (p := Text.isNamePart) (by decide) (Text.name_parts (hname s hs))
      obtain ⟨pre, x, post, hfirst, hattached⟩ := attached_assigned hs (hfound s hs) hsome hnone
      have hstatement : net (stageStatement s) = 0 := net_between (by decide) hstage (by decide)
      have htext : net (x.text s) = 0 := by
        have hword : net (Export.assetsWord s) = 0 := net_between (by decide) hstage (by decide)
        have hend : net (if x.ended then [';'] else []) = 0 := by cases x.ended <;> decide
        simp only [Assignment.text, Assignment.parts, List.flatten_cons, List.flatten_nil, net_append,
          hword, hend, net_zero (p := Text.isBlank) (by decide) hfirst.1.formed.before,
          net_zero (p := Text.isBlank) (by decide) hfirst.1.formed.behind,
          hmapping s _ _ _ hs hfirst.1, net]
        decide
      have hcut := congrArg net hfirst.1.cut
      rw [net_append, net_append, htext] at hcut
      rw [hattached, net_append, net_append, hstatement]
      exact hcut.symm

end

section

variable {target : Target} (hspace : net target.namespaceName = 0)
include hspace

theorem front_net (hsource : net target.importSource = 0) (assets : Assets) {stage : Stage}
    (hlines : ∀ l ∈ stage.lines, net l = 0) (mode : Mode) :
    net (frontText target assets stage mode) = net assets.mapping + 2 := by
  have himport : net (Script.importText target.namespaceName target.importSource) = 0 := by
    have hline : net (importLine target) = 0 :=
      net_between (net_between (by decide) hspace (by decide)) hsource (by decide)
    rw [import_text_line, net_append, hline]
    rfl
  have hstage : ((stage.lines.map ("    ".toList ++ ·)).map net).sum = 0 := by
    refine List.sum_eq_zero fun n hn => ?_
    obtain ⟨_, hline, rfl⟩ := List.mem_map.1 hn
    obtain ⟨l, hl, rfl⟩ := List.mem_map.1 hline
    exact (net_append _ _).trans ((congrArg (net "    ".toList + ·) (hlines l hl)).trans (by decide))
  have hhead : (["const data = \x7b".toList, "    stage: null,".toList].map net).sum = 1 := by decide
  have hmapping : (["    assets: ".toList ++ assets.mapping ++ [','], "    lib: \x7b\x7d,".toList,
      "    shapes: \x7b\x7d,".toList, "    textures: \x7b\x7d,".toList,
      "    spritesheets: [],".toList].map net).sum = net assets.mapping := by
    have hassets : net ("    assets: ".toList ++ assets.mapping ++ [',']) = 0 + net assets.mapping + 0 :=
      net_framed 0 0 (by decide) (by decide)
    have hempty : (["    lib: \x7b\x7d,".toList, "    shapes: \x7b\x7d,".toList,
        "    textures: \x7b\x7d,".toList, "    spritesheets: [],".toList].map net).sum = 0 := by
      decide +kernel
    rw [List.map_cons, List.sum_cons, hassets, hempty]
    omega
  have haccessor : (textureAccessor.map net).sum = 0 := by
    unfold textureAccessor
    simp only [List.map_cons, List.map_nil]
    repeat rw [String.toList_ofList]
    decide +kernel
  have hsetup : (["    setup: function(".toList ++ target.namespaceName ++ ") \x7b".toList].map
      net).sum = 1 := by
    have hline : net ("    setup: function(".toList ++ target.namespaceName ++ ") \x7b".toList) =
        0 + net target.namespaceName + 1 := net_framed 0 1 (by decide) (by decide)
    rw [List.map_cons, List.map_nil, List.sum_cons, List.sum_nil, hline, hspace]
    rfl
  have hdata : net (moduleText (dataFront target assets stage)) = net assets.mapping + 2 := by
    rw [module_net, dataFront]
    simp only [List.map_append, List.sum_append] at hhead hstage hmapping haccessor hsetup ⊢
    omega
  rw [frontText, net_append, hdata]
  split
  · rw [himport, Int.zero_add]
  · simp [net]

theorem back_net (mode : Mode) {exports : List Text}
    (hexports : ∀ n ∈ exports, ∀ c ∈ n, Text.isNamePart c = true) :
    net (backText target mode exports) = -2 := by
  have hcall : net (setupCall target) = 0 := net_between (by decide) hspace (by decide)
  have hpairs : ((exports.flatMap exportLines).map net).sum = 0 := by
    refine List.sum_eq_zero fun k hk => ?_
    obtain ⟨l, hl, rfl⟩ := List.mem_map.1 hk
    obtain ⟨n, hn, hl⟩ := List.mem_flatMap.1 hl
    have hname : net n = 0 := net_zero (p := Text.isNamePart) (by decide) (hexports n hn)
    rw [exportLines, List.mem_cons, List.mem_singleton] at hl
    rcases hl with rfl | rfl
    · exact net_between (net_between (by decide) hname (by decide)) hname (by decide)
    · have hpair : net ("export \x7b".toList ++ n ++ "\x7d;".toList) = 1 + net n + -1 :=
        net_framed 1 (-1) (by decide) (by decide)
      rw [hpair, hname]
      rfl
  have hlast : ([[], lastLine mode].map net).sum = 0 := by cases mode <;> decide
  have hends : (["    \x7d".toList, "\x7d;".toList].map net).sum = -2 := by decide
  have hline : net ['\n'] = 0 := by decide
  rw [backText, net_cons, hline, module_net, List.map_append, List.sum_append, hends, closingLines,
    List.map_append, List.sum_append, hlast]
  split
  · rw [List.map_cons, List.sum_cons, hcall, hpairs]
    rfl
  · rfl

end

end Output

/-! The extent of the body. -/

/-- A setup function is found from its opening brace to the last closing behind it. -/
theorem found_between {t : Text} {s : Setup} {hit : Hit} (hfind : Setup.find t = .ok s)
    (hhit : Setup.opening.first? t.entire = some hit) :
    ∃ head tail, t = head ++ '{' :: (s.body ++ (Setup.closing ++ tail)) ∧
      hit.stop = head.length + 1 := by
  obtain ⟨front, v, ht, hstart, _, hfit⟩ := Pattern.first_iff.1 hhit
  have ht : t = front ++ v := ht
  obtain ⟨gap, raw, space, rest, hparts, rfl, _, _, _⟩ := Setup.opening_fits.1 hfit
  have hstop : hit.stop = front.length + hit.parts.flatten.length := by
    rw [Hit.stop, Hit.text, hstart, Text.entire, Nat.zero_add]
  have hrest : t.drop hit.stop = rest := by
    rw [hstop, ht, ← List.drop_drop, List.drop_left, List.drop_left]
  obtain ⟨opened, hopened⟩ : ∃ opened, hit.parts.flatten = opened ++ ['{'] := by
    rw [hparts]
    exact ⟨["(function".toList, gap, ['('], raw, [')'], space].flatten, by simp⟩
  rw [Setup.find, hhit] at hfind
  simp only [hrest] at hfind
  split at hfind
  · simp at hfind
  · next k hlast =>
    obtain ⟨inner, tail, hinner, hk, _⟩ := Setup.closing_last.1 hlast
    obtain ⟨c, rfl⟩ : ∃ c, rest = c :: (inner ++ (Setup.closing ++ tail)) := by
      cases rest with
      | nil => simp [Setup.closing] at hinner
      | cons c r => exact ⟨c, by simpa using hinner⟩
    have hbody : s.body = c :: inner := by
      split at hfind
      · split at hfind
        · rw [Except.ok.injEq] at hfind
          rw [← hfind]
          simp [← hk]
        · simp at hfind
      · simp at hfind
    refine ⟨front ++ opened, tail, ?_, ?_⟩
    · rw [ht, hopened, hbody]
      simp
    · rw [hstop, hopened]
      simp only [List.length_append, List.length_singleton]
      omega

theorem landmarks_found {t : Text} {l : Landmarks} (hl : landmarks t = .ok l) :
    Setup.find t = .ok l.setup ∧ l.stage = Stage.find t := by
  rw [landmarks] at hl
  cases hfind : Setup.find t with
  | error f => simp [hfind, Except.map] at hl
  | ok s =>
    simp only [hfind, Except.map, Except.ok.injEq] at hl
    rw [← hl]
    exact ⟨rfl, rfl⟩

/-- The captured body is the stretch between a brace in the code of a source and the brace that closes
it. -/
def Delimited (t : Text) (hit : Hit) (s : Setup) : Prop :=
  Script.isCode t (hit.stop - 1) = true ∧
    Script.closingBrace t (hit.stop - 1) none = .ok (hit.stop + s.body.length)

/-- The braces of a setup body and of its module are all in code, and the objects that the migration
copies or takes out close as many as they open. -/
structure PlainBraces (settings : Settings) (t : Text) (l : Landmarks) (hit : Hit) (m : Migration) :
    Prop where
  target : net settings.target.namespaceName = 0 ∧ net settings.target.importSource = 0
  body : (Script.veil isBrace t).slice ⟨hit.stop, hit.stop + l.setup.body.length + 1⟩ =
    t.slice ⟨hit.stop, hit.stop + l.setup.body.length + 1⟩
  output : Script.veil isBrace m.output = m.output
  literal : ∀ s, l.stage.statement = some s → net s = 0
  mapping : net l.assets.mapping = 0
  attached : ∀ c, l.conversion = .ok c → ∀ s pre x post, l.assets.stageName = some s →
    AssignsBetween s (l.renamed settings c) pre x post → net x.mapping = 0

section

variable {settings : Settings} {source : String} {mode : Mode} {t : Text} {l : Landmarks} {hit : Hit}
  {m : Migration}

theorem renamed_net (hl : landmarks t = .ok l) {c : Conversion} (hc : l.conversion = .ok c)
    (htarget : net settings.target.namespaceName = 0)
    (hliteral : ∀ s, l.stage.statement = some s → net s = 0) :
    net (l.renamed settings c) = net l.setup.body := by
  obtain ⟨_, _, _, _, _, _, _, _, _, _, hspace, hlibrary⟩ := Setup.find_iff.1 (landmarks_found hl).1
  have hbody : net l.body = net l.setup.body := by
    rw [Landmarks.body, bodyWithoutStage]
    cases hs : l.stage.statement with
    | none => rfl
    | some s =>
      simp only []
      split
      · rfl
      · exact erase_net (hliteral s hs)
  rw [Landmarks.renamed, Substitution.rename_net hspace hlibrary htarget, convert_net hc, hbody]

/-- An accepted body opens as many braces as it closes. -/
theorem captured_net (hchecks : .brackets ∈ settings.checks)
    (h : (migrate settings source mode t).result = .ok m) (hl : landmarks t = .ok l)
    (hp : PlainBraces settings t l hit m) : net l.setup.body = 0 := by
  obtain ⟨l', c, hl', hc, hissues, rfl⟩ := migrate_accepted h
  obtain rfl : l' = l := by
    rw [hl', Except.ok.injEq] at hl
    exact hl
  have hout : net (l'.output settings mode c) = 0 := by
    have hnet := Script.balanced_net ((passes_iff.1 hissues).brackets hchecks)
    rw [Script.code_text_kept, Script.net_cover (p := isBrace) (fun _ hc => hc)
      (Script.length_codeMask _)] at hnet
    exact (congrArg net hp.output).symm.trans hnet
  have hlines : ∀ x ∈ l'.stage.lines, net x = 0 := by
    have hliteral := hp.literal
    rw [(landmarks_found hl).2] at hliteral ⊢
    exact Stage.lines_net hliteral
  have hattached := attached_net (fun s hs => (landmarks_stage hl hs).1)
    (fun s hs => (landmarks_stage hl hs).2) (hp.attached c hc)
  have hcut : net (Text.trim isCut (attachedBody l'.assets (l'.renamed settings c))) =
      net l'.setup.body := by
    rw [net_trim (by decide), hattached, renamed_net hl hc hp.target.1 hp.literal]
  rw [Landmarks.output, emit_setup, net_append, net_append, hcut,
    front_net hp.target.1 hp.target.2 l'.assets hlines, hp.mapping,
    back_net hp.target.1 mode (exports_are_names hc)] at hout
  omega

end

/-- A body that closes the brace in front of it and opens the one that ends it. -/
def earlySetup : Setup :=
  ⟨"PIXI".toList, "lib".toList, ("\n    run();\n\x7d, function (a, b) \x7b\n    stop();\n").toList⟩

def earlySource : Text :=
  "(function (PIXI, lib) \x7b".toList ++ earlySetup.body ++ "\x7d)(PIXI, lib = \x7b\x7d);".toList

end Restage
