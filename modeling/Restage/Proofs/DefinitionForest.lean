import Restage.Proofs.BraceLevels
import Restage.Proofs.ConversionSplice

/-!
The forest of definitions. A definition is found in a stretch, its children in its body and its
successors behind its footer (`find_in_iff`), so the spans of a forest are nested and in source order
(`definitions_nest`). Pairs of braces that open in a searched stretch close in it, so no block is ever
found to run past the one around it.
-/

set_option autoImplicit false

namespace Restage.Legacy

open Script (Paired)

namespace Definition

/-- The first definition of a stretch, with any children. -/
def Begins (library t : Text) (start stop : Nat) (d : Definition) : Prop :=
  ∃ h, header? library (t.window start stop) = some (h, d.exported) ∧
    ofHeader (Script.marked t) t h d.exported stop = .ok { d with children := [] }

/-- The definitions of a stretch, as the search goes through it. -/
inductive Found (library t : Text) : Nat → Nat → List Definition → Prop
  | none {start stop : Nat} (h : header? library (t.window start stop) = none) :
      Found library t start stop []
  | next {start stop : Nat} {d : Definition} {ds : List Definition} (h : Begins library t start stop d)
      (hin : Found library t d.body.start d.body.stop d.children)
      (hout : Found library t d.footer.stop stop ds) : Found library t start stop (d :: ds)

/-- The header, the body and the footer of a definition, one behind another in a stretch. -/
structure Spans (t : Text) (start stop : Nat) (d : Definition) : Prop where
  first : start ≤ d.header.start
  header : d.header.start < d.header.stop
  opens : d.body.start = d.header.stop
  closes : Paired t (d.header.stop - 1) d.body.stop
  footer : d.footer.start = d.body.stop
  foot : d.footer.start < d.footer.stop
  last : d.footer.stop ≤ stop

/-- Every pair of braces that opens in a stretch closes in it. -/
def Guarded (t : Text) (start stop : Nat) : Prop :=
  ∀ i j, start ≤ i → i < stop → Paired t i j → j < stop

theorem walk_eq (d : Definition) : walk d = d :: walkAll d.children := by
  cases d
  rfl

theorem mem_walk_all {d : Definition} {ds : List Definition} {e : Definition} :
    e ∈ walkAll (d :: ds) ↔ e = d ∨ e ∈ walkAll d.children ∨ e ∈ walkAll ds := by
  rw [walkAll, walk_eq, List.cons_append, List.mem_cons, List.mem_append]

section

variable {library t : Text} {start stop : Nat} {d : Definition} {ds : List Definition}

theorem spans_inner (h : Spans t start stop d) : d.body.start ≤ d.body.stop := by
  have hopens := h.opens
  have hheader := h.header
  have horder := h.closes.order
  omega

theorem spans_order (h : Spans t start stop d) : start ≤ d.header.start ∧
    d.header.start < d.header.stop ∧ d.body.start = d.header.stop ∧ d.body.start ≤ d.body.stop ∧
    d.footer.start = d.body.stop ∧ d.footer.start < d.footer.stop ∧ d.footer.stop ≤ stop :=
  ⟨h.first, h.header, h.opens, spans_inner h, h.footer, h.foot, h.last⟩

theorem begins_of_header {h : Hit} {exported : Bool}
    (hh : header? library (t.window start stop) = some (h, exported))
    (hd : ofHeader (Script.marked t) t h exported stop = .ok d) : Begins library t start stop d := by
  obtain ⟨_, _, _, _, rfl⟩ := of_header_ok hd
  exact ⟨h, hh, hd⟩

/-! What is found in a stretch, by the header that is first in it. -/

theorem found_empty (hh : header? library (t.window start stop) = none) :
    Found library t start stop ds ↔ ds = [] := by
  constructor
  · intro h
    cases h with
    | none => rfl
    | next hd =>
      obtain ⟨_, hsome, _⟩ := hd
      simp [hh] at hsome
  · rintro rfl
    exact .none hh

theorem begins_header {h : Hit} {exported : Bool}
    (hh : header? library (t.window start stop) = some (h, exported))
    (hd : Begins library t start stop d) :
    ofHeader (Script.marked t) t h exported stop = .ok { d with children := [] } := by
  obtain ⟨_, hsome, hok⟩ := hd
  rw [hh, Option.some.injEq, Prod.mk.injEq] at hsome
  obtain ⟨rfl, rfl⟩ := hsome
  exact hok

theorem found_fault {h : Hit} {exported : Bool} {f : Fault}
    (hh : header? library (t.window start stop) = some (h, exported))
    (hd : ofHeader (Script.marked t) t h exported stop = .error f) :
    ¬ Found library t start stop ds := by
  intro hfound
  cases hfound with
  | none hnone => simp [hh] at hnone
  | next hbegins => simp [begins_header hh hbegins] at hd

/-- Behind a header there is one definition, with the definitions of its body for its children. -/
theorem found_header {h : Hit} {exported : Bool}
    (hh : header? library (t.window start stop) = some (h, exported))
    (hd : ofHeader (Script.marked t) t h exported stop = .ok d) :
    Found library t start stop ds ↔ ∃ cs rest, Found library t d.body.start d.body.stop cs ∧
      Found library t d.footer.stop stop rest ∧ ds = { d with children := cs } :: rest := by
  constructor
  · intro hfound
    cases hfound with
    | none hnone => simp [hh] at hnone
    | @next _ _ e rest hbegins hcs hrest =>
      have hsame := begins_header hh hbegins
      rw [hd, Except.ok.injEq] at hsame
      subst hsame
      exact ⟨e.children, rest, hcs, hrest, by cases e; rfl⟩
  · rintro ⟨cs, rest, hcs, hrest, rfl⟩
    obtain ⟨h, hsome, hok⟩ := begins_of_header hh hd
    exact .next ⟨h, hsome, hok⟩ hcs hrest

section

variable (hstart : start ≤ stop) (hstop : stop ≤ t.length)
include hstart hstop

theorem begins_spans (h : Begins library t start stop d) : Spans t start stop d := by
  obtain ⟨hit, hhead, hd⟩ := h
  obtain ⟨⟨x, hx⟩, _, hfirst, _, _, hlast⟩ := of_header_cut hstart hstop hhead hd
  have hheader := hx.header
  have hbody := hx.body
  have hfooter := hx.footer
  have hhead : 0 < x.head.length := by simp [Cut.head]
  have hfoot : 0 < x.foot.length := by simp [Cut.foot]
  simp only at hheader hbody hfooter hfirst hlast
  refine ⟨hfirst, ?_, ?_, Script.close_of_iff.1 hx.closes, ?_, ?_, hlast⟩
  · rw [hheader]
    simp only
    omega
  · rw [hbody]
  · rw [hfooter]
  · rw [hfooter]
    simp only
    omega

/-- With enough fuel the search finds the definitions of a stretch, and nothing else. -/
theorem find_in_iff {fuel : Nat} (hfuel : stop - start < fuel) :
    findIn library (Script.marked t) t fuel start stop = .ok ds ↔ Found library t start stop ds := by
  induction fuel generalizing start stop ds with
  | zero => omega
  | succ fuel ih =>
    rw [findIn]
    cases hhead : header? library (t.window start stop) with
    | none =>
      rw [found_empty hhead, Except.ok.injEq]
      exact eq_comm
    | some x =>
      obtain ⟨hit, exported⟩ := x
      simp only [bind, Except.bind]
      cases hd : ofHeader (Script.marked t) t hit exported stop with
      | error f => exact iff_of_false (by simp) (found_fault hhead hd)
      | ok d =>
        have hspans := begins_spans hstart hstop (begins_of_header hhead hd)
        obtain ⟨hfirst, hheader, hopens, hinner, hfooter, hfoot, hlast⟩ := spans_order hspans
        have hin : ∀ cs, findIn library (Script.marked t) t fuel d.body.start d.body.stop = .ok cs ↔
            Found library t d.body.start d.body.stop cs := fun _ => ih hinner (by omega) (by omega)
        have hout : ∀ rest, findIn library (Script.marked t) t fuel d.footer.stop stop = .ok rest ↔
            Found library t d.footer.stop stop rest := fun _ => ih hlast hstop (by omega)
        simp only [found_header hhead hd, ← hin, ← hout]
        cases findIn library (Script.marked t) t fuel d.body.start d.body.stop with
        | error f => simp
        | ok cs =>
          cases findIn library (Script.marked t) t fuel d.footer.stop stop with
          | error f => simp
          | ok rest => simp [pure, Except.pure, eq_comm]

theorem found_within (h : Found library t start stop ds) :
    ∀ d ∈ walkAll ds, start ≤ d.header.start ∧ d.header.start < d.footer.stop ∧
      d.footer.stop ≤ stop := by
  induction h with
  | none => simp [walkAll]
  | @next start stop d ds h _ _ ihin ihout =>
    have hspans := begins_spans hstart hstop h
    obtain ⟨hfirst, hheader, hopens, hinner, hfooter, hfoot, hlast⟩ := spans_order hspans
    intro e he
    rcases mem_walk_all.1 he with rfl | he | he
    · omega
    · have := ihin hinner (by omega) e he
      omega
    · have := ihout hlast hstop e he
      omega

/-- The headers of all definitions ascend, parents in front of their children. -/
theorem found_ascending (h : Found library t start stop ds) :
    (walkAll ds).Pairwise fun a b => a.header.start < b.header.start := by
  induction h with
  | none => exact List.Pairwise.nil
  | @next start stop d ds h hin hout ihin ihout =>
    have hspans := begins_spans hstart hstop h
    obtain ⟨_, hheader, hopens, hinner, hfooter, hfoot, hlast⟩ := spans_order hspans
    have hchildren := found_within hinner (by omega) hin
    have hrest := found_within hlast hstop hout
    rw [walkAll, walk_eq, List.cons_append, List.pairwise_cons, List.pairwise_append]
    refine ⟨fun e he => ?_, ihin hinner (by omega), ihout hlast hstop, fun a ha b hb => ?_⟩
    · rcases List.mem_append.1 he with he | he
      · have := hchildren e he
        omega
      · have := hrest e he
        omega
    · have := hchildren a ha
      have := hrest b hb
      omega

end

/-! Stretches that hold the pairs of their braces. -/

theorem guarded_whole (t : Text) : Guarded t 0 t.length :=
  fun _ _ _ _ h => Script.code_char_bound h.closes

theorem guarded_behind {k : Nat} (h : Guarded t start stop) (hk : start ≤ k) : Guarded t k stop :=
  fun i j hi hstop hp => h i j (by omega) hstop hp

theorem guarded_inside {i j : Nat} (h : Paired t i j) : Guarded t (i + 1) j :=
  fun _ _ hi hj hp => Script.pairs_nest h hp (by omega) hj

theorem guarded_body (h : Spans t start stop d) : Guarded t d.body.start d.body.stop := by
  have hheader := h.header
  have hpos : d.header.stop - 1 + 1 = d.body.start := by
    rw [h.opens]
    omega
  rw [← hpos]
  exact guarded_inside h.closes

/-- In a guarded stretch a brace is closed as it is in the whole text. -/
theorem guarded_closing {i : Nat} (h : Guarded t start stop) (hi : start ≤ i) (hstop : i < stop) :
    Script.closingBraceIn (Script.marked t) t i (some stop) = Script.closingBrace t i none := by
  rw [Script.closingBrace, Script.closingBraceIn, Script.closingBraceIn]
  cases t[i]? with
  | none => rfl
  | some c =>
    simp only
    split
    · rfl
    · cases hclose : Script.closeOf? ((Script.marked t).drop i) with
      | none => rfl
      | some j =>
        have := h i j hi hstop (Script.close_of_iff.1 hclose)
        simp [this]

/-- A definition of the forest with the stretch that it was searched for in. -/
structure Placed (library t : Text) (start stop : Nat) (d : Definition) : Prop where
  order : start ≤ stop
  bound : stop ≤ t.length
  guarded : Guarded t start stop
  begins : Begins library t start stop d
  children : Found library t d.body.start d.body.stop d.children

theorem placed_spans (h : Placed library t start stop d) : Spans t start stop d :=
  begins_spans h.order h.bound h.begins

theorem found_placed (hstart : start ≤ stop) (hstop : stop ≤ t.length) (hg : Guarded t start stop)
    (h : Found library t start stop ds) : ∀ d ∈ walkAll ds, ∃ start' stop',
      start ≤ start' ∧ stop' ≤ stop ∧ Placed library t start' stop' d := by
  induction h with
  | none => simp [walkAll]
  | @next start stop d ds h hin hout ihin ihout =>
    have hspans := begins_spans hstart hstop h
    obtain ⟨hfirst, hheader, hopens, hinner, hfooter, hfoot, hlast⟩ := spans_order hspans
    intro e he
    rcases mem_walk_all.1 he with rfl | he | he
    · exact ⟨start, stop, Nat.le_refl _, Nat.le_refl _, hstart, hstop, hg, h, hin⟩
    · obtain ⟨start', stop', hfrom, hto, hplaced⟩ := ihin hinner (by omega) (guarded_body hspans) e he
      exact ⟨start', stop', by omega, by omega, hplaced⟩
    · obtain ⟨start', stop', hfrom, hto, hplaced⟩ :=
        ihout hlast hstop (guarded_behind hg (by omega)) e he
      exact ⟨start', stop', by omega, hto, hplaced⟩

/-- A list of definitions in a stretch, each of them behind those in front of it. -/
structure Lined (start stop : Nat) (ds : List Definition) : Prop where
  within : ∀ d ∈ ds, start ≤ d.header.start ∧ d.footer.stop ≤ stop
  ascending : ds.Pairwise fun a b => a.footer.stop ≤ b.header.start

theorem mem_roots {e : Definition} (he : e ∈ ds) : e ∈ walkAll ds := by
  induction ds with
  | nil => simp at he
  | cons d ds ih =>
    rw [mem_walk_all]
    rcases List.mem_cons.1 he with rfl | he
    · exact Or.inl rfl
    · exact Or.inr (Or.inr (ih he))

theorem found_lined (hstart : start ≤ stop) (hstop : stop ≤ t.length)
    (h : Found library t start stop ds) : Lined start stop ds := by
  refine ⟨fun d hd => ?_, ?_⟩
  · obtain ⟨hfirst, _, hlast⟩ := found_within hstart hstop h d (mem_roots hd)
    exact ⟨hfirst, hlast⟩
  · induction h with
    | none => exact List.Pairwise.nil
    | @next start stop d ds h hin hout _ ihout =>
      have hspans := begins_spans hstart hstop h
      refine List.pairwise_cons.2 ⟨fun e he => ?_, ihout hspans.last hstop⟩
      exact (found_within hspans.last hstop hout e (mem_roots he)).1

/-- The parts of a definition follow one another, and its children stand in its body. -/
structure Nested (d : Definition) : Prop where
  header : d.header.start < d.header.stop
  body : d.body.start = d.header.stop ∧ d.body.start ≤ d.body.stop
  footer : d.footer.start = d.body.stop ∧ d.footer.start < d.footer.stop
  children : Lined d.body.start d.body.stop d.children

theorem placed_nested (h : Placed library t start stop d) : Nested d := by
  have hspans := placed_spans h
  have hbound := h.bound
  obtain ⟨_, _, _, hinner, hfooter, hfoot, hlast⟩ := spans_order hspans
  exact ⟨hspans.header, ⟨hspans.opens, hinner⟩, ⟨hfooter, hfoot⟩,
    found_lined hinner (by omega) h.children⟩

/-! The whole text. -/

theorem find_all_iff : findAll library t = .ok ds ↔ Found library t 0 t.length ds :=
  find_in_iff (Nat.zero_le _) (Nat.le_refl _) (by omega)

theorem find_all_placed (h : findAll library t = .ok ds) :
    ∀ d ∈ walkAll ds, ∃ start stop, Placed library t start stop d := by
  intro d hd
  obtain ⟨start, stop, _, _, hplaced⟩ := found_placed (Nat.zero_le _) (Nat.le_refl _)
    (guarded_whole t) (find_all_iff.1 h) d hd
  exact ⟨start, stop, hplaced⟩

/-- A search can be evaluated by what is asked of its result. -/
theorem find_all_ok {α : Type} {f : List Definition → α} {x : α}
    (h : (findAll library t).toOption.map f = some x) :
    ∃ tree, findAll library t = .ok tree ∧ f tree = x := by
  cases hf : findAll library t with
  | error g => simp [hf, Except.toOption] at h
  | ok tree => exact ⟨tree, rfl, by simpa [hf, Except.toOption] using h⟩

/-- Sorting changes nothing, since the definitions are walked through in the order of their headers. -/
theorem find_all_sorted (h : findAll library t = .ok ds) :
    (walkAll ds).mergeSort Conversion.inOrder = walkAll ds := by
  refine List.mergeSort_of_pairwise ?_
  refine (found_ascending (Nat.zero_le _) (Nat.le_refl _) (find_all_iff.1 h)).imp fun hab => ?_
  simp only [Conversion.inOrder, decide_eq_true_eq]
  omega

/-- No header of a guarded stretch has a block that runs past it. -/
theorem of_header_overrun (hstart : start ≤ stop) (hstop : stop ≤ t.length) (hg : Guarded t start stop)
    {h : Hit} {exported : Bool} (hh : header? library (t.window start stop) = some (h, exported))
    (n : Nat) : ofHeader (Script.marked t) t h exported stop ≠ .error (.brace (.overrun n)) := by
  obtain ⟨a, b, hfirst⟩ := header_hit hh
  obtain ⟨pre, mid, post, _, hpre, hmid, hwindow⟩ := Text.window_cut hstart hstop
  rw [Pattern.first?, hwindow] at hfirst
  obtain ⟨u, v, rfl, hat, _, hfit⟩ := Pattern.first_iff.1 hfirst
  obtain ⟨_, _, _, _, rest, hrest, hhead, _⟩ := header_reads hfit
  have hat : h.start = start + u.length := hat
  have hlength : 0 < h.text.length := by
    rw [Hit.text, hhead]
    simp
  have hbound : h.stop ≤ stop := by
    have hpart : v.length = h.text.length + rest.length := by
      rw [hrest, List.length_append]
      rfl
    rw [Hit.stop]
    rw [List.length_append] at hmid
    omega
  have hfrom : start ≤ h.stop - 1 := by
    rw [Hit.stop]
    omega
  have hto : h.stop - 1 < stop := by
    rw [Hit.stop] at hbound ⊢
    omega
  intro herror
  rw [ofHeader, guarded_closing hg hfrom hto, Script.closingBrace, Script.closingBraceIn] at herror
  cases hchar : t[h.stop - 1]? with
  | none => simp [hchar, Except.mapError, bind, Except.bind] at herror
  | some c =>
    simp only [hchar] at herror
    by_cases hc : c = '{'
    · simp only [hc, ne_eq, not_true_eq_false, if_false] at herror
      cases hclose : Script.closeOf? ((Script.marked t).drop (h.stop - 1)) with
      | none => simp [hclose, Except.mapError, bind, Except.bind] at herror
      | some j =>
        simp only [hclose, Option.any_none, Bool.false_eq_true, if_false, Except.mapError, bind,
          Except.bind] at herror
        split at herror <;> simp at herror
    · simp [hc, Except.mapError, bind, Except.bind] at herror

theorem find_in_overrun {fuel : Nat} (hstart : start ≤ stop) (hstop : stop ≤ t.length)
    (hg : Guarded t start stop) (n : Nat) :
    findIn library (Script.marked t) t fuel start stop ≠ .error (.brace (.overrun n)) := by
  induction fuel generalizing start stop with
  | zero => simp [findIn]
  | succ fuel ih =>
    rw [findIn]
    cases hhead : header? library (t.window start stop) with
    | none => simp
    | some x =>
      obtain ⟨hit, exported⟩ := x
      simp only [bind, Except.bind]
      cases hd : ofHeader (Script.marked t) t hit exported stop with
      | error f =>
        have hfault := of_header_overrun hstart hstop hg hhead n
        rw [hd] at hfault
        simpa using hfault
      | ok d =>
        have hbegins := begins_of_header hhead hd
        have hspans := begins_spans hstart hstop hbegins
        obtain ⟨hfirst, hheader, hopens, hinner, hfooter, hfoot, hlast⟩ := spans_order hspans
        have hin := ih hinner (by omega) (guarded_body hspans)
        have hout := ih hlast hstop (guarded_behind hg (by omega))
        simp only
        split
        · next f hf => simpa [hf] using hin
        · split
          · next f hf => simpa [hf] using hout
          · simp [pure, Except.pure]

end

end Definition

open Definition

/-- A conversion lists the definitions in source order. -/
theorem convert_in_order {library t : Text} {c : Conversion}
    (h : (convert library t).result = .ok c) :
    ∃ tree, findAll library t = .ok tree ∧ c.definitions = walkAll tree := by
  obtain ⟨tree, htree, hdefs, _⟩ := convert_ok h
  exact ⟨tree, htree, hdefs.trans (find_all_sorted htree)⟩

theorem convert_brace {library t : Text} {f : Script.BraceFault}
    (h : (convert library t).result = .error (.brace f)) : findAll library t = .error (.brace f) := by
  simp only [convert, Traced.bind_result] at h
  cases hf : findAll library t with
  | error g => simpa [hf, Traced.ofExcept, Except.bind] using h
  | ok tree =>
    simp only [hf, Traced.ofExcept, Except.bind, Traced.noteAll] at h
    split at h
    · next e he =>
      obtain ⟨i, _, rfl⟩ : ∃ i, Edit.applyAll t (((walkAll tree).mergeSort
          Conversion.inOrder).flatMap Conversion.edits) = .error i ∧ e = .overlap (t.lineOf i) := by
        cases happly : Edit.applyAll t (((walkAll tree).mergeSort
            Conversion.inOrder).flatMap Conversion.edits) with
        | error i => exact ⟨i, rfl, by simpa [happly, Except.mapError] using he.symm⟩
        | ok out => simp [happly, Except.mapError] at he
      simp at h
    · simp [Traced.pure_result] at h

/-- The definitions of a text are nested and in source order, and no conversion fails on a block that
runs past the one around it. -/
theorem definitions_nest (library t : Text) :
    (∀ tree, findAll library t = .ok tree → Lined 0 t.length tree ∧ (∀ d ∈ walkAll tree, Nested d) ∧
      ((walkAll tree).Pairwise fun a b => a.header.start < b.header.start) ∧
      (walkAll tree).mergeSort Conversion.inOrder = walkAll tree) ∧
    (∀ c, (convert library t).result = .ok c →
      (c.definitions.Pairwise fun a b => a.header.start < b.header.start) ∧
      ∃ tree, findAll library t = .ok tree ∧ c.classNames = (walkAll tree).map (·.name) ∧
        c.exports = ((walkAll tree).filter (·.exported)).map (·.name)) ∧
    ∀ n, (convert library t).result ≠ .error (.brace (.overrun n)) := by
  have hascending : ∀ tree, findAll library t = .ok tree →
      (walkAll tree).Pairwise fun a b => a.header.start < b.header.start :=
    fun tree h => found_ascending (Nat.zero_le _) (Nat.le_refl _) (find_all_iff.1 h)
  refine ⟨fun tree h => ⟨?_, fun d hd => ?_, hascending tree h, find_all_sorted h⟩, fun c h => ?_,
    fun n h => ?_⟩
  · exact found_lined (Nat.zero_le _) (Nat.le_refl _) (find_all_iff.1 h)
  · obtain ⟨_, _, hplaced⟩ := find_all_placed h d hd
    exact placed_nested hplaced
  · obtain ⟨tree, htree, hdefs⟩ := convert_in_order h
    refine ⟨by rw [hdefs]; exact hascending tree htree, tree, htree, ?_, ?_⟩
    · rw [Conversion.classNames, hdefs]
    · rw [Conversion.exports, hdefs]
  · exact find_in_overrun (Nat.zero_le _) (Nat.le_refl _) (guarded_whole t) n (convert_brace h)

/-- A definition with another one in it, in front of its own call. -/
def wheelSource : Text := ("lib.Scene = MovieClip.extend(function (mode) \x7b\n" ++
  "    var Wheel = Container.extend(function () \x7b\n" ++
  "        Container.call(this, '\x7d');\n" ++ "    \x7d);\n" ++ "    MovieClip.call(this, mode);\n" ++
  "\x7d);\n").toList

theorem wheel_converts : ∃ c, (convert "lib".toList wheelSource).result = .ok c ∧
    c.classNames = ["Scene".toList, "Wheel".toList] := by
  have hnames : (splicedConversion "lib".toList wheelSource).map (·.2.1) =
      some ["Scene".toList, "Wheel".toList] := by
    unfold wheelSource
    simp only [String.toList_append]
    repeat rw [String.toList_ofList]
    decide +kernel
  obtain ⟨⟨_, _, _⟩, hspliced, rfl⟩ := Option.map_eq_some_iff.1 hnames
  obtain ⟨c, hc, _, hclasses⟩ := spliced_ok hspliced
  exact ⟨c, hc, hclasses⟩

theorem wheel_nests : ∃ tree, findAll "lib".toList wheelSource = .ok tree ∧
    (walkAll tree).map (·.name) = ["Scene".toList, "Wheel".toList] ∧ (∀ d ∈ walkAll tree, Nested d) ∧
      (walkAll tree).mergeSort Conversion.inOrder = walkAll tree := by
  obtain ⟨c, hc, hclasses⟩ := wheel_converts
  obtain ⟨hforest, hconverted, _⟩ := definitions_nest "lib".toList wheelSource
  obtain ⟨_, tree, htree, hnames, _⟩ := hconverted c hc
  obtain ⟨_, hnested, _, hsorted⟩ := hforest tree htree
  exact ⟨tree, htree, hnames.symm.trans hclasses, hnested, hsorted⟩

end Restage.Legacy
