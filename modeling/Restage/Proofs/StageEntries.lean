import Restage.Proofs.ExportStage
import Restage.Proofs.ObjectEntries

/-!
The entries of a stage literal. What is kept of a literal are its lines, or the parts between commas
when it has one line. A literal that is laid out so that every such part holds whole entries keeps
exactly its entries but for the reserved ones when no line has both kinds (`kept_entries_iff`).
-/

set_option autoImplicit false

namespace Restage.Legacy

open Script

/-! Lists of parts. -/

/-- Leaving parts out and leaving entries out come to the same just if no part has entries of both
kinds. -/
theorem kept_parts_iff {α β : Type} {f : α → List β} {r : α → Bool} {k : β → Bool} {ps : List α} :
    (ps.filter r).flatMap f = (ps.flatMap f).filter k ↔ ∀ p ∈ ps, ∀ e ∈ f p, k e = r p := by
  constructor
  · intro h
    have hkept : ∀ p ∈ ps, r p = true → ∀ e ∈ f p, k e = true := by
      intro p hp hr e he
      have hmem : e ∈ (ps.filter r).flatMap f :=
        List.mem_flatMap.2 ⟨p, List.mem_filter.2 ⟨hp, hr⟩, he⟩
      rw [h] at hmem
      exact (List.mem_filter.1 hmem).2
    induction ps with
    | nil => simp
    | cons p ps ih =>
      rw [List.flatMap_cons, List.filter_append, List.filter_cons] at h
      have hrest : ∀ q ∈ ps, r q = true → ∀ e ∈ f q, k e = true :=
        fun q hq => hkept q (List.mem_cons_of_mem p hq)
      cases hr : r p with
      | true =>
        have hp := hkept p (by simp) hr
        rw [if_pos hr, List.flatMap_cons, List.filter_eq_self.2 hp, List.append_cancel_left_eq] at h
        exact List.forall_mem_cons.2 ⟨fun e he => by rw [hp e he, hr], ih h hrest⟩
      | false =>
        rw [if_neg (by simp [hr])] at h
        -- what is kept of the other parts leaves no room for an entry of this one
        have hsub : ((ps.filter r).flatMap f).Sublist ((ps.flatMap f).filter k) := by
          have hfilter := ((List.filter_sublist (p := r) (l := ps)).flatMap f).filter k
          rwa [List.filter_eq_self.2 fun e he => ?_] at hfilter
          obtain ⟨q, hq, he⟩ := List.mem_flatMap.1 he
          exact hrest q (List.mem_of_mem_filter hq) (List.mem_filter.1 hq).2 e he
        have hnone : (f p).filter k = [] := by
          have hlength := congrArg List.length h
          have hle := hsub.length_le
          rw [List.length_append] at hlength
          exact List.length_eq_zero_iff.1 (by omega)
        rw [hnone, List.nil_append] at h
        refine List.forall_mem_cons.2 ⟨fun e he => ?_, ih h hrest⟩
        rw [hr]
        simpa using List.filter_eq_nil_iff.1 hnone e he
  · intro h
    induction ps with
    | nil => rfl
    | cons p ps ih =>
      have ih := ih fun q hq => h q (by simp [hq])
      have hp := h p (by simp)
      rw [List.flatMap_cons, List.filter_append, ← ih, List.filter_cons]
      cases hr : r p with
      | true =>
        rw [if_pos rfl, List.flatMap_cons, List.filter_eq_self.2 fun e he => (hp e he).trans hr]
      | false =>
        have hnone : (f p).filter k = [] := List.filter_eq_nil_iff.2 fun e he => by
          simp [hp e he, hr]
        rw [if_neg Bool.false_ne_true, hnone, List.nil_append]

/-! Closed texts. -/

section

variable {u v t : Text}

theorem closed_append (hu : Closed u) (hv : Closed v) : Closed (u ++ v) := by
  refine ⟨fun m hm => ?_, ?_⟩
  · obtain ⟨k, hk, h1⟩ := closed_reads hu (mem_outside.1 hm)
    obtain ⟨n, hn, h2⟩ := closed_reads hv hk
    rw [scan_append, h1, Option.bind_some, h2]
    simp [hn]
  · rw [mask_flows (closed_flows hu), depth_append (length_mask _ u), hu.2, hv.2]

theorem closed_blanks (hu : ∀ c ∈ u, Text.isBlank c = true) : Closed u := by
  refine ⟨fun m hm => ?_, depth_blanks hu _ _⟩
  obtain ⟨n, hn, h, _⟩ := blanks_flow hu m (mem_outside.1 hm)
  rw [h]
  simp [hn]

theorem closed_comma (hu : Closed u) : Closed (u ++ [',']) := closed_append hu (by decide)

/-- Blanks around a text neither close nor open anything, and hold no entry. -/
theorem strip_closed (ht : Closed t.strip) :
    Closed t ∧ quotedEntries t = quotedEntries t.strip := by
  obtain ⟨a, b, hcut, ha, hb⟩ := Text.trim_parts Text.isBlank t
  have hcut : t = a ++ (t.strip ++ b) := hcut
  constructor
  · rw [hcut]
    exact closed_append (closed_blanks ha) (closed_append ht (closed_blanks hb))
  · conv_lhs => rw [hcut, quoted_front ha, quoted_behind (closed_flows ht) hb]

theorem strip_blank (h : t.strip = []) : ∀ c ∈ t, Text.isBlank c = true := by
  obtain ⟨a, b, hcut, ha, hb⟩ := Text.trim_parts Text.isBlank t
  have hcut : t = a ++ (t.strip ++ b) := hcut
  rw [h, List.nil_append] at hcut
  rw [hcut]
  exact fun c hc => (List.mem_append.1 hc).elim (ha c) (hb c)

/-- A text is cut nowhere, or at its first cut. -/
theorem cut_cases (p : Char → Bool) (t : Text) : (∀ c ∈ t, p c = false) ∨
    ∃ (u : Text) (c : Char) (v : Text), t = u ++ c :: v ∧ (∀ d ∈ u, p d = false) ∧ p c = true := by
  by_cases h : ∀ c ∈ t, p c = false
  · exact Or.inl h
  · right
    refine ⟨t.takeWhile (!p ·), ?_⟩
    cases hdrop : t.dropWhile (!p ·) with
    | nil =>
      refine absurd (fun c hc => ?_) h
      simpa using List.dropWhile_eq_nil_iff.1 hdrop c hc
    | cons c v =>
      have hhead := List.head?_dropWhile_not (!p ·) t
      rw [hdrop] at hhead
      refine ⟨c, v, ?_, fun d hd => ?_, by simpa using hhead⟩
      · rw [← hdrop, List.takeWhile_append_dropWhile]
      · simpa using List.all_eq_true.1 List.all_takeWhile d hd

end

namespace Stage

/-- Whether an entry is kept. -/
def keeps (entry : Text) : Bool := !reservedKeys.contains (keyOf entry)

/-- The lines of a literal that are not blank. -/
def literalLines (inner : Text) : List Text := trimmed (Text.splitWhere isCut inner.strip)

/-- A literal in which no string and no bracket goes over the end of a part, and in which every line
but the last ends with a comma. -/
structure LaidOut (inner : Text) : Prop where
  closed : ∀ p ∈ entries inner, Closed p
  ended : ∀ l ∈ (literalLines inner).dropLast, Text.endsWith l [','] = true

instance (inner : Text) : Decidable (LaidOut inner) :=
  decidable_of_iff ((∀ p ∈ entries inner, Closed p) ∧
    ∀ l ∈ (literalLines inner).dropLast, Text.endsWith l [','] = true)
    ⟨fun h => ⟨h.1, h.2⟩, fun h => ⟨h.1, h.2⟩⟩

section

variable {t : Text}

theorem trimmed_single (q : Text) (ps : List Text) :
    trimmed (q :: ps) = (if q.strip = [] then [] else [q.strip]) ++ trimmed ps := by
  by_cases h : q.strip = [] <;> simp [trimmed, h]

theorem ends_comma {l : Text} : Text.endsWith l [','] = true ↔ ∃ u, l = u ++ [','] :=
  Text.ends_suffix.trans (exists_congr fun _ => eq_comm)

/-- A part whose stripped text is closed, if there is any, has the entries of that. -/
theorem part_entries (q : Text) (hq : ∀ p ∈ (if q.strip = [] then [] else [q.strip]), Closed p) :
    Closed q ∧ quotedEntries q =
      (if q.strip = [] then [] else [q.strip]).flatMap quotedEntries := by
  have hclosed : Closed q.strip := by
    split at hq
    · next hnil => rw [hnil]; decide
    · exact hq _ (by simp)
  obtain ⟨h1, h2⟩ := strip_closed hclosed
  refine ⟨h1, ?_⟩
  rw [h2]
  split
  · next hnil => rw [hnil, quoted_nil]; rfl
  · simp

/-- Parts between commas that are closed have the entries of the text. -/
theorem comma_entries (h : ∀ p ∈ trimmed (Text.splitOn ',' t), Closed p) :
    Closed t ∧ quotedEntries t = (trimmed (Text.splitOn ',' t)).flatMap quotedEntries := by
  rw [Text.split_on_where] at h ⊢
  induction hlength : t.length using Nat.strong_induction_on generalizing t with
  | _ n ih =>
    rcases cut_cases (· == ',') t with hplain | ⟨u, c, v, rfl, hu, hc⟩
    · rw [Text.split_whole hplain, trimmed_single] at h ⊢
      simpa [trimmed] using part_entries t (by simpa [trimmed] using h)
    · rw [Text.split_head hu hc, trimmed_single] at h ⊢
      obtain rfl : c = ',' := by simpa using hc
      obtain ⟨hu1, hu2⟩ := part_entries u fun p hp => h p (List.mem_append_left _ hp)
      obtain ⟨hv1, hv2⟩ := ih v.length (by rw [← hlength]; simp; omega)
        (fun p hp => h p (List.mem_append_right _ hp)) rfl
      refine ⟨?_, ?_⟩
      · rw [List.append_cons]
        exact closed_append (closed_comma hu1) hv1
      · rw [quoted_comma hu1, hu2, hv2, List.flatMap_append]

/-- Behind a closed line with a comma at its end the entries begin anew. -/
theorem line_entries {u : Text} (hclosed : Closed u.strip)
    (hend : Text.endsWith u.strip [','] = true) (v : Text) :
    quotedEntries (u ++ v) = quotedEntries u.strip ++ quotedEntries v := by
  obtain ⟨a, b, hcut, ha, hb⟩ := Text.trim_parts Text.isBlank u
  obtain ⟨w, hw⟩ := ends_comma.1 hend
  have hcut : u = a ++ ((w ++ [',']) ++ b) := by rw [← hw]; exact hcut
  rw [hw] at hclosed ⊢
  have hfront := closed_front hclosed
  have hall : u ++ v = (a ++ w) ++ ',' :: (b ++ v) := by rw [hcut]; simp
  rw [hall, quoted_comma (closed_append (closed_blanks ha) hfront), quoted_front ha,
    quoted_front hb, quoted_last hfront]

theorem cut_blank {c : Char} (hc : isCut c = true) : ∀ d ∈ [c], Text.isBlank d = true := by
  simp only [isCut, Bool.or_eq_true, beq_iff_eq] at hc
  rcases hc with rfl | rfl <;> decide

/-- A text all of whose lines are blank is blank. -/
theorem lines_blank (h : trimmed (Text.splitWhere isCut t) = []) :
    ∀ c ∈ t, Text.isBlank c = true := by
  induction hlength : t.length using Nat.strong_induction_on generalizing t with
  | _ n ih =>
    rcases cut_cases isCut t with hplain | ⟨u, c, v, rfl, hu, hc⟩
    · rw [Text.split_whole hplain, trimmed_single] at h
      by_cases hnil : t.strip = []
      · exact strip_blank hnil
      · simp [hnil] at h
    · rw [Text.split_head hu hc, trimmed_single, List.append_eq_nil_iff] at h
      have hnil : u.strip = [] := by
        by_contra hne
        simp [hne] at h
      have hv := ih v.length (by rw [← hlength]; simp; omega) h.2 rfl
      have hrest := List.forall_mem_append.2 ⟨cut_blank hc, hv⟩
      exact List.forall_mem_append.2 ⟨strip_blank hnil, hrest⟩

/-- Lines that are closed and end with commas but for the last have the entries of the text. -/
theorem lines_entries (hclosed : ∀ l ∈ trimmed (Text.splitWhere isCut t), Closed l)
    (hended : ∀ l ∈ (trimmed (Text.splitWhere isCut t)).dropLast,
      Text.endsWith l [','] = true) :
    Closed t ∧ quotedEntries t = (trimmed (Text.splitWhere isCut t)).flatMap quotedEntries := by
  induction hlength : t.length using Nat.strong_induction_on generalizing t with
  | _ n ih =>
    rcases cut_cases isCut t with hplain | ⟨u, c, v, rfl, hu, hc⟩
    · rw [Text.split_whole hplain, trimmed_single] at hclosed ⊢
      simpa [trimmed] using part_entries t (by simpa [trimmed] using hclosed)
    · have hblank := cut_blank hc
      have hcut : u ++ c :: v = u ++ ([c] ++ v) := rfl
      have hshort : v.length < n := by rw [← hlength]; simp; omega
      rw [Text.split_head hu hc, trimmed_single] at hclosed hended ⊢
      by_cases hnil : u.strip = []
      · -- a blank line in front
        have hu := strip_blank hnil
        rw [if_pos hnil, List.nil_append] at hclosed hended ⊢
        obtain ⟨hv1, hv2⟩ := ih v.length hshort hclosed hended rfl
        rw [hcut, quoted_front hu, quoted_front hblank, hv2]
        exact ⟨closed_append (closed_blanks hu) (closed_append (closed_blanks hblank) hv1), rfl⟩
      · rw [if_neg hnil, List.singleton_append] at hclosed hended ⊢
        have hline := hclosed u.strip (by simp)
        obtain ⟨hu1, hu2⟩ := strip_closed hline
        have hdrop : ∀ l ∈ (trimmed (Text.splitWhere isCut v)).dropLast,
            Text.endsWith l [','] = true := by
          intro l hl
          refine hended l ?_
          rw [List.dropLast_cons_of_ne_nil fun h => by simp [h] at hl]
          exact List.mem_cons_of_mem _ hl
        obtain ⟨hv1, hv2⟩ := ih v.length hshort
          (fun l hl => hclosed l (List.mem_cons_of_mem _ hl)) hdrop rfl
        rw [hcut, List.flatMap_cons, ← hv2]
        refine ⟨closed_append hu1 (closed_append (closed_blanks hblank) hv1), ?_⟩
        by_cases hnone : trimmed (Text.splitWhere isCut v) = []
        · -- the last line that is not blank needs no comma
          have hrest := List.forall_mem_append.2 ⟨hblank, lines_blank hnone⟩
          rw [quoted_behind (closed_flows hu1) hrest, hu2, hv2, hnone]
          simp
        · have hend := hended u.strip (by rw [List.dropLast_cons_of_ne_nil hnone]; simp)
          rw [line_entries hline hend, quoted_front hblank]

theorem comma_line {p : Text} (hp : Closed p) :
    ∃ w, withComma p = w ++ [','] ∧ Closed w ∧ quotedEntries p = quotedEntries w := by
  rw [withComma]
  split
  · next hend =>
    obtain ⟨w, rfl⟩ := ends_comma.1 hend
    have hw := closed_front hp
    exact ⟨w, rfl, hw, quoted_last hw⟩
  · exact ⟨p, rfl, hp, rfl⟩

/-- The lines that are made of closed parts have their entries. -/
theorem joined_entries {ps : List Text} (h : ∀ p ∈ ps, Closed p) :
    Closed (Text.joinWith ['\n'] (ps.map withComma)) ∧
      quotedEntries (Text.joinWith ['\n'] (ps.map withComma)) = ps.flatMap quotedEntries := by
  induction ps with
  | nil => exact ⟨by decide, by decide⟩
  | cons p ps ih =>
    obtain ⟨w, hw, hclosed, hentries⟩ := comma_line (h p (by simp))
    obtain ⟨h1, h2⟩ := ih fun q hq => h q (by simp [hq])
    cases ps with
    | nil =>
      simp only [List.map_cons, List.map_nil, Text.joinWith, hw, List.flatMap_cons,
        List.flatMap_nil, List.append_nil]
      exact ⟨closed_comma hclosed, by rw [quoted_last hclosed, hentries]⟩
    | cons q qs =>
      have hjoin : Text.joinWith ['\n'] ((p :: q :: qs).map withComma) =
          w ++ ',' :: (['\n'] ++ Text.joinWith ['\n'] ((q :: qs).map withComma)) := by
        simp [Text.joinWith, hw]
      have hline : Closed (['\n'] ++ Text.joinWith ['\n'] ((q :: qs).map withComma)) :=
        closed_append (by decide) h1
      rw [hjoin]
      refine ⟨?_, ?_⟩
      · rw [List.append_cons]
        exact closed_append (closed_comma hclosed) hline
      · rw [quoted_comma hclosed, quoted_front (by decide), h2, ← hentries]
        rfl

/-- The parts of a literal that is laid out have its entries. -/
theorem laid_out_entries {inner : Text} (h : LaidOut inner) :
    Closed inner ∧ quotedEntries inner = (entries inner).flatMap quotedEntries := by
  have hlines : ∀ ls, literalLines inner = ls → (∀ l ∈ ls, Closed l) →
      Closed inner.strip ∧ quotedEntries inner.strip = ls.flatMap quotedEntries := by
    rintro ls rfl hls
    exact lines_entries hls h.ended
  have hclosed := h.closed
  suffices hstrip : Closed inner.strip ∧
      quotedEntries inner.strip = (entries inner).flatMap quotedEntries by
    obtain ⟨h1, h2⟩ := strip_closed hstrip.1
    exact ⟨h1, h2.trans hstrip.2⟩
  cases hcount : literalLines inner with
  | nil =>
    have hnone : entries inner = [] := by
      have hcut : trimmed (Text.splitWhere (fun c => c == '\r' || c == '\n') inner.strip) = [] :=
        hcount
      rw [entries, hcut]
    rw [hnone]
    exact hlines _ hcount (by simp)
  | cons one rest =>
    cases rest with
    | cons two rest =>
      rw [entries_several hcount] at hclosed ⊢
      exact hlines _ hcount hclosed
    | nil =>
      rw [entries_single hcount] at hclosed ⊢
      split at hclosed
      · next hcomma =>
        rw [if_pos hcomma]
        obtain ⟨h1, h2⟩ := comma_entries hclosed
        obtain ⟨h3, h4⟩ := hlines _ hcount (by simpa using h1)
        exact ⟨h3, by rw [h4, ← h2]; simp⟩
      · next hcomma =>
        rw [if_neg hcomma]
        exact hlines _ hcount hclosed

end

end Stage

/-- The lines that are kept of a literal which is laid out have exactly its entries that are not
reserved just if no part of the literal has entries of both kinds. -/
theorem kept_entries_iff {t : Text} {h : Hit} (hlit : Stage.literal.first? t.entire = some h)
    (hlaid : Stage.LaidOut (h.part 5)) :
    objectEntries (Text.joinWith ['\n'] (Stage.find t).lines) =
        (objectEntries (h.part 5)).filter Stage.keeps ↔
      ∀ p ∈ Stage.entries (h.part 5), ∀ e ∈ objectEntries p, Stage.keeps e = Stage.keeps p := by
  have hlines : (Stage.find t).lines =
      ((Stage.entries (h.part 5)).filter Stage.keeps).map Stage.withComma := by
    rw [Stage.find, hlit]
    rfl
  obtain ⟨hclosed, hentries⟩ := Stage.laid_out_entries hlaid
  have hparts : ∀ p ∈ (Stage.entries (h.part 5)).filter Stage.keeps, Closed p :=
    fun p hp => hlaid.closed p (List.mem_of_mem_filter hp)
  obtain ⟨hjoined, hkept⟩ := Stage.joined_entries hparts
  have hpart : ∀ p ∈ Stage.entries (h.part 5), objectEntries p = quotedEntries p :=
    fun p hp => entries_quoted (closed_flows (hlaid.closed p hp))
  rw [hlines, entries_quoted (closed_flows hjoined), entries_quoted (closed_flows hclosed), hkept,
    hentries, kept_parts_iff]
  exact forall₂_congr fun p hp => by rw [hpart p hp]

/-- A text with nothing but a literal, and the fit of the literal's pattern. -/
def literalText (inner : Text) : Text :=
  "module.exports = \x7b".toList ++ (inner ++ "\x7d;".toList)

def literalHit (inner : Text) : Hit :=
  ⟨0, ["module.exports".toList, [' '], ['='], [' '], ['\x7b'], inner, "\x7d;".toList]⟩

/-- Two entries on a line, and commas in a string and in an array. -/
def sharedLine : Text :=
  "\n    stage: lib.Scene,\n    title: 'a, b', sizes: [1, 2],\n    framerate: 24\n".toList

theorem kept_entries_shared :
    objectEntries (Text.joinWith ['\n'] (Stage.find (literalText sharedLine)).lines) =
      (objectEntries sharedLine).filter Stage.keeps :=
  (kept_entries_iff (h := literalHit sharedLine) (by decide +kernel) (by decide +kernel)).2
    (by decide +kernel)

/-- An entry behind a reserved one on the same line. -/
def behindReserved : Text := "\n    stage: lib.a, width: 10,\n    height: 20\n".toList

/-- The entry is dropped with the line. -/
theorem entry_behind_reserved_lost :
    Stage.literal.first? (literalText behindReserved).entire = some (literalHit behindReserved) ∧
    (objectEntries behindReserved).filter Stage.keeps =
      ["width: 10".toList, "height: 20".toList] ∧
    objectEntries (Text.joinWith ['\n'] (Stage.find (literalText behindReserved)).lines) =
      ["height: 20".toList] := by
  decide +kernel

end Restage.Legacy
