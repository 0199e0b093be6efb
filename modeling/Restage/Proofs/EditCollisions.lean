import Restage.Proofs.OwnCalls
import Restage.Proofs.SimultaneousEdits

/-!
Edits of a conversion that collide. The spans of headers, calls and footers lie apart in every forest,
but for one kind of pair: the call of a definition and the header of a child of it, since a call owns
the blanks behind its comma and a header the indentation of its line. A conversion fails on overlapping
edits just if there is such a pair (`edits_collide_iff`).
-/

set_option autoImplicit false

namespace Restage

namespace Legacy

open Conversion

namespace Definition

theorem footer_chars {t : Text} {parts : List Text} (h : footerPattern.fits? none t = some parts) :
    ∀ c ∈ parts.flatten, c = '}' ∨ c = ')' ∨ c = ';' ∨ Text.isBlank c = true := by
  obtain ⟨space, gap, last, _, _, hflat, hspace, hgap, hlast⟩ := footer_parts h
  intro c hc
  simp only [hflat, List.mem_cons, List.mem_append] at hc
  rcases hc with hc | hc | hc | hc | hc
  · exact Or.inl hc
  · exact Or.inr (Or.inr (Or.inr (hspace c hc)))
  · exact Or.inr (Or.inl hc)
  · refine Or.inr (Or.inr (Or.inr ?_))
    have hindent := hgap c hc
    rw [Piece.isIndent, Bool.or_eq_true, beq_iff_eq, beq_iff_eq] at hindent
    rcases hindent with rfl | rfl <;> decide
  · rcases hlast with rfl | rfl
    · simp at hc
    · exact Or.inr (Or.inr (Or.inl (List.mem_singleton.1 hc)))

section

variable {library t : Text} {start stop : Nat} {d : Definition}

theorem begins_footer (h : Begins library t start stop d) : ∃ parts,
    footerPattern.FitsWithin t stop ⟨d.body.stop, parts⟩ ∧
      d.footer = ⟨d.body.stop, d.body.stop + parts.flatten.length⟩ := by
  obtain ⟨hit, _, hd⟩ := h
  obtain ⟨closeAt, parts, _, hfoot, heq⟩ := of_header_ok hd
  cases d
  simp only [Definition.mk.injEq] at heq
  obtain ⟨_, _, _, _, _, _, rfl, rfl, _⟩ := heq
  exact ⟨parts, hfoot, rfl⟩

theorem begins_foot (h : Begins library t start stop d) {k : Nat} (h1 : d.footer.start ≤ k)
    (h2 : k < d.footer.stop) : ∃ c, t[k]? = some c ∧
      (c = '}' ∨ c = ')' ∨ c = ';' ∨ Text.isBlank c = true) := by
  obtain ⟨parts, hfoot, hfooter⟩ := begins_footer h
  rw [hfooter] at h1 h2
  simp only at h1 h2
  have hk : k - d.body.stop < parts.flatten.length := by omega
  have hget := Pattern.fits_within_get hfoot hk
  rw [Nat.add_sub_cancel' h1] at hget
  exact ⟨_, hget.trans (List.getElem?_eq_getElem hk), footer_chars hfoot _ (List.getElem_mem hk)⟩

/-- No call has a brace in it. -/
theorem own_call_chars {s : Span} (h : OwnCall t d s) {k : Nat} (h1 : s.start ≤ k) (h2 : k < s.stop) :
    t[k]? ≠ some '{' := by
  obtain ⟨parts, hfit, hstop⟩ := h.fits
  obtain ⟨_, arg, _, _, hflat, harg⟩ := call_reads hfit
  have hget := Pattern.fits_within_get hfit (k := k - s.start) (show k - s.start < parts.flatten.length by
    omega)
  rw [Nat.add_sub_cancel' h1] at hget
  rw [hget]
  intro hbrace
  have hmem : '{' ∈ parts.flatten := List.mem_of_getElem? hbrace
  have hbase : ∀ b : Base, '{' ∉ b.text := by
    intro b
    cases b <;> decide
  rw [hflat, List.mem_append, List.mem_append] at hmem
  rcases hmem with hmem | hmem | hmem
  · exact hbase _ hmem
  · exact absurd hmem (by decide)
  · exact absurd (harg _ hmem) (by decide)

/-- An own call stands in front of the block of a definition in the body, or behind its footer. -/
theorem own_call_apart (h : Placed library t start stop d) {s : Span} (hs : OwnCall t d s)
    {e : Definition} (he : e ∈ walkAll d.children) :
    s.stop < e.body.start ∨ e.footer.stop ≤ s.start := by
  have hspans := placed_spans h
  have hbound := h.bound
  obtain ⟨_, _, _, hinner, hfooter, hfoot, hlast⟩ := spans_order hspans
  obtain ⟨start', stop', _, _, hplaced⟩ :=
    found_placed hinner (by omega) (guarded_body hspans) h.children e he
  have hspans' := placed_spans hplaced
  have hheader := hspans'.header
  have hopens := hspans'.opens
  have hfooter' := hspans'.footer
  have houtside := own_call_outside h hs he
  by_contra hnot
  rw [not_or, Nat.not_lt, Nat.not_le] at hnot
  rcases Nat.lt_or_ge s.start e.body.start with hfront | hfront
  · exact own_call_chars hs (k := e.header.stop - 1) (by omega) (by omega) hspans'.closes.opens.here
  · obtain ⟨c, hc, hchars⟩ := begins_foot hplaced.begins (k := s.start) (by omega) hnot.2
    rw [(own_call_start hs).2, Option.some.injEq] at hc
    subst hc
    revert hchars
    cases d.base <;> decide

end

theorem mem_walk_child {ds : List Definition} {e : Definition} (he : e ∈ walkAll ds) :
    ∃ c ∈ ds, e = c ∨ e ∈ walkAll c.children := by
  induction ds with
  | nil => simp [walkAll] at he
  | cons d ds ih =>
    rcases mem_walk_all.1 he with he | he | he
    · exact ⟨d, by simp, Or.inl he⟩
    · exact ⟨d, by simp, Or.inr he⟩
    · obtain ⟨c, hc, hec⟩ := ih he
      exact ⟨c, by simp [hc], hec⟩

/-- The call of a definition overlaps the header of a child. -/
def Collides (d : Definition) : Prop :=
  ∃ s, d.superCall = some s ∧ ∃ c ∈ d.children, s.Overlaps c.header

instance (d : Definition) : Decidable (Collides d) :=
  inferInstanceAs (Decidable (∃ s ∈ d.superCall, ∃ c ∈ d.children, s.Overlaps c.header))

section

variable {library t : Text} {start stop : Nat} {d : Definition} {ds : List Definition}

theorem found_child (h : Found library t start stop ds) {c : Definition} (hd : d ∈ walkAll ds)
    (hc : c ∈ d.children) : c ∈ walkAll ds := by
  induction h with
  | none => simp [walkAll] at hd
  | next _ _ _ ihin ihout =>
    rw [mem_walk_all] at hd ⊢
    rcases hd with rfl | hd | hd
    · exact Or.inr (Or.inl (mem_roots hc))
    · exact Or.inr (Or.inl (ihin hd))
    · exact Or.inr (Or.inr (ihout hd))

theorem call_edit {s : Span} (hs : d.superCall = some s) : ∃ e ∈ edits d, e.span = s := by
  rw [edits, hs]
  exact ⟨_, List.mem_cons_self, rfl⟩

theorem placed_call (h : Placed library t start stop d) {s : Span} (hs : d.superCall = some s) :
    OwnCall t d s := ((call_own h).1 s hs).1

/-- The edits of a definition stand in it. -/
theorem edits_in (h : Placed library t start stop d) {e : Edit} (he : e ∈ edits d) :
    d.header.start ≤ e.span.start ∧ e.span.start < e.span.stop ∧ e.span.stop ≤ d.footer.stop := by
  have hspans := placed_spans h
  obtain ⟨_, hheader, hopens, hinner, hfooter, hfoot, _⟩ := spans_order hspans
  rcases mem_edits he with hspan | hspan | hcall
  · rw [hspan]
    omega
  · rw [hspan]
    omega
  · have hs := placed_call h hcall
    have hfirst := hs.first
    have hlast := hs.last
    have hlength := (own_call_start hs).1
    omega

theorem edits_disjoint (h : Placed library t start stop d) : Edit.Disjoint (edits d) := by
  have hspans := placed_spans h
  obtain ⟨_, hheader, hopens, hinner, hfooter, _, _⟩ := spans_order hspans
  rw [edits]
  cases hcall : d.superCall with
  | none =>
    refine List.pairwise_pair.2 fun hover => ?_
    have := hover.2
    simp only at this
    omega
  | some s =>
    have hs := placed_call h hcall
    have hfirst := hs.first
    have hlast := hs.last
    refine List.pairwise_cons.2 ⟨fun e he hover => ?_, List.pairwise_pair.2 fun hover => ?_⟩
    · obtain ⟨hfront, hback⟩ := hover
      simp only [List.mem_cons, List.not_mem_nil, or_false] at he hfront hback
      rcases he with rfl | rfl <;> simp only at hfront hback <;> omega
    · have := hover.2
      simp only at this
      omega

/-- The edits of a definition and those of one inside it can only overlap where the call of the one
overlaps the header of the other. -/
theorem edits_apart (h : Placed library t start stop d) (hclear : ¬ Collides d) {e : Definition}
    (he : e ∈ walkAll d.children) {x y : Edit} (hx : x ∈ edits d) (hy : y ∈ edits e) :
    ¬ x.span.Overlaps y.span := by
  have hspans := placed_spans h
  have hbound := h.bound
  obtain ⟨_, hheader, hopens, hinner, hfooter, hfoot, hlast⟩ := spans_order hspans
  have hplaced := fun {e} he => found_placed hinner (by omega) (guarded_body hspans) h.children e he
  obtain ⟨_, _, hfrom, hto, he'⟩ := hplaced he
  have hspans' := placed_spans he'
  have hfirst' := hspans'.first
  have hlast' := hspans'.last
  have hin := edits_in he' hy
  rintro ⟨hfront, hback⟩
  rcases mem_edits hx with hspan | hspan | hcall
  · rw [hspan] at hfront hback
    omega
  · rw [hspan] at hfront hback
    omega
  · have hs := placed_call h hcall
    obtain ⟨c, hc, hec⟩ := mem_walk_child he
    have hapart := own_call_apart h hs (mem_roots hc)
    obtain ⟨_, _, _, _, hc'⟩ := hplaced (mem_roots hc)
    have hspansc := placed_spans hc'
    have hopensc := hspansc.opens
    have hinnerc := spans_inner hspansc
    have hfooterc := hspansc.footer
    have hfootc := hspansc.foot
    rcases hec with rfl | hec
    · -- behind the header, both the call and the block of the child are where they should be
      rcases mem_edits hy with hspany | hspany | hcally
      · exact hclear ⟨x.span, hcall, e, hc, hspany ▸ ⟨hfront, hback⟩⟩
      · rw [hspany] at hfront hback
        omega
      · have hsy := (placed_call hc' hcally).first
        omega
    · obtain ⟨_, _, hfromc, htoc, hec'⟩ := found_placed hinnerc (by
        have := hc'.bound
        have := hspansc.last
        omega) (guarded_body hspansc) hc'.children e hec
      have hfirste := (placed_spans hec').first
      have hlaste := (placed_spans hec').last
      omega

theorem found_disjoint (hstart : start ≤ stop) (hstop : stop ≤ t.length) (hg : Guarded t start stop)
    (h : Found library t start stop ds) (hclear : ∀ d ∈ walkAll ds, ¬ Collides d) :
    Edit.Disjoint ((walkAll ds).flatMap edits) := by
  induction h with
  | none => exact List.Pairwise.nil
  | @next start stop d ds h hin hout ihin ihout =>
    have hplaced : Placed library t start stop d := ⟨hstart, hstop, hg, h, hin⟩
    have hspans := begins_spans hstart hstop h
    obtain ⟨hfirst, hheader, hopens, hinner, hfooter, hfoot, hlast⟩ := spans_order hspans
    have hrest := guarded_behind hg (show start ≤ d.footer.stop by omega)
    have hchildren := fun {e} he => found_placed hinner (by omega) (guarded_body hspans) hin e he
    have hbehind := fun {e} he => found_placed hlast hstop hrest hout e he
    have hclear' := hclear d (mem_walk_all.2 (Or.inl rfl))
    -- edits in front of the footer's end and edits behind it
    have hapart : ∀ x y : Edit, x.span.stop ≤ d.footer.stop → ∀ e ∈ walkAll ds, y ∈ edits e →
        ¬ x.span.Overlaps y.span := by
      intro x y hx e he hy hover
      obtain ⟨_, _, hfrom, _, he'⟩ := hbehind he
      have hfirst' := (placed_spans he').first
      have hy' := (edits_in he' hy).1
      have := hover.2
      omega
    rw [walkAll, walk_eq, List.cons_append, List.flatMap_cons, List.flatMap_append, Edit.Disjoint,
      List.pairwise_append, List.pairwise_append]
    refine ⟨edits_disjoint hplaced, ⟨?_, ?_, fun x hx y hy => ?_⟩, fun x hx y hy => ?_⟩
    · exact ihin hinner (by omega) (guarded_body hspans) fun e he =>
        hclear e (mem_walk_all.2 (Or.inr (Or.inl he)))
    · exact ihout hlast hstop hrest fun e he => hclear e (mem_walk_all.2 (Or.inr (Or.inr he)))
    · obtain ⟨a, ha, hxa⟩ := List.mem_flatMap.1 hx
      obtain ⟨b, hb, hyb⟩ := List.mem_flatMap.1 hy
      obtain ⟨_, _, _, hto, ha'⟩ := hchildren ha
      have hlast' := (placed_spans ha').last
      have hx' := (edits_in ha' hxa).2.2
      exact hapart x y (by omega) b hb hyb
    · rcases List.mem_append.1 hy with hy | hy
      · obtain ⟨b, hb, hyb⟩ := List.mem_flatMap.1 hy
        exact edits_apart hplaced hclear' hb hx hyb
      · obtain ⟨b, hb, hyb⟩ := List.mem_flatMap.1 hy
        exact hapart x y (edits_in hplaced hx).2.2 b hb hyb

end

/-- The edits of a forest lie apart just if no call overlaps the header of a child. -/
theorem find_all_disjoint_iff {library t : Text} {tree : List Definition}
    (h : findAll library t = .ok tree) :
    Edit.Disjoint ((walkAll tree).flatMap edits) ↔ ∀ d ∈ walkAll tree, ¬ Collides d := by
  constructor
  · rintro hdisjoint d hd ⟨s, hs, c, hc, hover⟩
    obtain ⟨_, _, hplaced⟩ := find_all_placed h d hd
    have hcin : c ∈ walkAll tree := found_child (find_all_iff.1 h) hd hc
    obtain ⟨_, _, hplaced'⟩ := find_all_placed h c hcin
    obtain ⟨x, hx, hxspan⟩ := call_edit hs
    obtain ⟨y, hy, hyspan⟩ := header_edit c
    have hne : x ≠ y := by
      rintro rfl
      have hclose := (placed_spans hplaced').closes.opens.here
      have hheader := (placed_spans hplaced').header
      rw [hxspan] at hyspan
      subst hyspan
      exact own_call_chars (placed_call hplaced hs) (by omega) (by omega) hclose
    have : Std.Symm fun a b : Edit => ¬ a.span.Overlaps b.span := ⟨fun _ _ => Edit.overlaps_symm⟩
    have hapart := hdisjoint.forall (List.mem_flatMap.2 ⟨d, hd, hx⟩)
      (List.mem_flatMap.2 ⟨c, hcin, hy⟩) hne
    rw [hxspan, hyspan] at hapart
    exact hapart hover
  · exact found_disjoint (Nat.zero_le _) (Nat.le_refl _) (guarded_whole t) (find_all_iff.1 h)

end Definition

open Definition

/-- A conversion whose definitions are found succeeds if its edits lie apart, and else fails on edits
that overlap. -/
theorem convert_apart {library t : Text} {tree : List Definition} (h : findAll library t = .ok tree) :
    ((∃ c, (convert library t).result = .ok c) ↔ Edit.Disjoint ((walkAll tree).flatMap edits)) ∧
      ((∃ n, (convert library t).result = .error (.overlap n)) ↔
        ¬ Edit.Disjoint ((walkAll tree).flatMap edits)) := by
  have hwithin : Edit.Within t.length ((walkAll tree).flatMap edits) := by
    intro e he
    obtain ⟨d, hd, he⟩ := List.mem_flatMap.1 he
    exact edits_within (find_all_stands h d hd) e he
  rw [← Edit.apply_all_iff hwithin]
  simp only [convert, Traced.bind_result, h, Traced.ofExcept, Except.bind, Traced.noteAll,
    find_all_sorted h]
  cases happly : Edit.applyAll t ((walkAll tree).flatMap edits) with
  | error i => simp [Except.mapError]
  | ok u => simp [Except.mapError, Traced.pure_result]

/-- A call with a definition among its arguments, on a line of its own. -/
def argumentSource : Text := ("lib.A = MovieClip.extend(function () \x7b\n" ++
  "    MovieClip.call(this,\n" ++ "        lib.B = Container.extend(function () \x7b\n" ++
  "            Container.call(this);\n" ++ "        \x7d));\n" ++ "\x7d);\n").toList

end Legacy

end Restage
