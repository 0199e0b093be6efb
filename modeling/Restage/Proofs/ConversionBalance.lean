import Restage.Proofs.BracketMates
import Restage.Proofs.CarriedWords

/-!
Bracket balance of converted scripts. A conversion turns the brackets around the function of every
definition into braces, so a balanced script stays balanced as long as these two brackets are mates,
which they are unless the parameters open brackets of their own (`mismatch_converted_iff`). A comment
behind the parameters takes their closing bracket into itself (`comment_swallows_bracket`).
-/

set_option autoImplicit false

namespace Restage

open Legacy
open Script

namespace Edit

/-- A splice pairs up like the text with its characters painted over, if each of its edits does so
where it stands and nothing is painted between them. -/
theorem splice_painted {f : Placed → Char} {i : Nat} {t : Text} {es : List Edit} (hb : Behind i es)
    (ha : Ascending es) (hw : ∀ e ∈ es, e.span.stop ≤ i + t.length)
    (hkept : ∀ p ∈ t.zipIdx i, (∀ e ∈ es, ¬ (e.span.start ≤ p.2 ∧ p.2 < e.span.stop)) → f p = p.1)
    (hedits : ∀ e ∈ es, Alike e.text
      ((((t.take (e.span.stop - i)).drop (e.span.start - i)).zipIdx e.span.start).map f)) :
    Alike (splice i t es) ((t.zipIdx i).map f) := by
  induction es generalizing i t with
  | nil =>
    rw [splice, painted_kept fun p hp => hkept p hp (by simp)]
    exact fun _ => rfl
  | cons e es ih =>
    have hrest := (List.pairwise_cons.1 ha).2
    have he := hb e (by simp)
    have hstop := hw e (by simp)
    have hbehind := behind_tail ha hb
    obtain ⟨front, mid, back, rfl, hfront, hmid⟩ := cut_span he.1 he.2 hstop
    have hstart : e.span.start - i = front.length := by omega
    have hend : e.span.stop - i = front.length + mid.length := by omega
    have hplace : ∀ d ∈ es, ((front ++ (mid ++ back)).take (d.span.stop - i)).drop (d.span.start - i) =
        (back.take (d.span.stop - e.span.stop)).drop (d.span.start - e.span.stop) := by
      intro d hd
      have hd := hbehind d hd
      have hlong : d.span.stop - i = (front ++ mid).length + (d.span.stop - e.span.stop) := by
        rw [List.length_append]
        omega
      have hlater : d.span.start - i = (front ++ mid).length + (d.span.start - e.span.stop) := by
        rw [List.length_append]
        omega
      rw [← List.append_assoc, hlong, hlater, List.take_length_add_append, List.drop_length_add_append]
    have hzip : (front ++ (mid ++ back)).zipIdx i =
        front.zipIdx i ++ (mid.zipIdx e.span.start ++ back.zipIdx e.span.stop) := by
      rw [List.zipIdx_append, List.zipIdx_append, hfront, hmid]
    have hhead : (front.zipIdx i).map f = front := by
      refine painted_kept fun p hp => hkept p (by rw [hzip]; simp [hp]) fun d hd => ?_
      have hbound := List.snd_lt_add_of_mem_zipIdx hp
      rcases List.mem_cons.1 hd with rfl | hd
      · omega
      · have := hbehind d hd
        omega
    have hedit : Alike e.text ((mid.zipIdx e.span.start).map f) := by
      have hplaced := hedits e (by simp)
      rwa [hstart, hend, ← List.append_assoc, ← List.length_append, List.take_left, List.drop_left]
        at hplaced
    have htail : Alike (splice e.span.stop back es) ((back.zipIdx e.span.stop).map f) := by
      refine ih hbehind hrest (fun d hd => ?_) (fun p hp hout => ?_) fun d hd => ?_
      · have := hw d (by simp [hd])
        simp only [List.length_append] at this
        omega
      · refine hkept p (by rw [hzip]; simp [hp]) fun d hd => ?_
        have hbound := List.le_snd_of_mem_zipIdx hp
        rcases List.mem_cons.1 hd with rfl | hd
        · omega
        · exact hout d hd
      · rw [← hplace d hd]
        exact hedits d (by simp [hd])
    rw [splice_cut es hfront hmid, hzip, List.map_append, List.map_append, hhead]
    exact alike_append (fun _ => rfl) (alike_append hedit htail)

end Edit

namespace Legacy

namespace Definition

/-- Where the bracket in front of the function of a definition stands. -/
def openAt (t : Text) (d : Definition) : Nat :=
  let i := d.header.start + (d.indent.length + d.target.length)
  i + ((t.drop i).takeWhile (· != '(')).length

/-- Where the bracket behind it stands. -/
def closeAt (t : Text) (d : Definition) : Nat :=
  d.footer.start + ((t.drop d.footer.start).takeWhile (· != ')')).length

section

variable {t : Text} {d : Definition} {x : Cut}

theorem open_at_cut (hx : CutIn t d x) : openAt t d =
    x.before.length + (x.indent.length + x.target.length) + x.link.length := by
  have hstart : d.header.start = x.before.length := by rw [hx.header]
  have hdrop : t.drop (x.before.length + (x.indent.length + x.target.length)) =
      x.link ++ '(' :: (x.keyword ++ '(' :: (x.raw ++ ')' :: (x.gap ++ '{' :: (x.inner ++
        (x.foot ++ x.after))))) := by
    have hcut : t = (x.before ++ (x.indent ++ x.target)) ++ (x.link ++ '(' :: (x.keyword ++ '(' ::
        (x.raw ++ ')' :: (x.gap ++ '{' :: (x.inner ++ (x.foot ++ x.after)))))) := by
      rw [hx.text]
      simp [Cut.text, Cut.head]
    rw [hcut, ← List.length_append, ← List.length_append, List.drop_left]
  have hlink : (x.link ++ '(' :: (x.keyword ++ '(' :: (x.raw ++ ')' :: (x.gap ++ '{' :: (x.inner ++
      (x.foot ++ x.after)))))).takeWhile (· != '(') = x.link := by
    refine Text.run_taken (fun c hc => ?_) (by simp)
    have hplain := hx.link c hc
    simp only [bne_iff_ne, ne_eq]
    rintro rfl
    exact absurd hplain (by decide)
  rw [openAt, hstart, hx.indent, hx.target]
  simp only [hdrop, hlink]

theorem close_at_cut (hx : CutIn t d x) : closeAt t d = d.footer.start + 1 + x.space.length := by
  have hstart : d.footer.start = (x.before ++ (x.head ++ x.inner)).length := by
    rw [hx.footer, hx.body, hx.header]
    simp only [List.length_append]
    omega
  have hcut : t = (x.before ++ (x.head ++ x.inner)) ++ (('}' :: x.space) ++ ')' :: (x.tail ++
      x.after)) := by
    rw [hx.text]
    simp [Cut.text, Cut.foot]
  have hspace : (('}' :: x.space) ++ ')' :: (x.tail ++ x.after)).takeWhile (· != ')') =
      '}' :: x.space := by
    refine Text.run_taken (fun c hc => ?_) (by simp)
    simp only [bne_iff_ne, ne_eq]
    rintro rfl
    rcases List.mem_cons.1 hc with hc | hc
    · exact absurd hc (by decide)
    · exact absurd (hx.space _ hc) (by decide)
  have hdrop : t.drop (x.before ++ (x.head ++ x.inner)).length =
      ('}' :: x.space) ++ ')' :: (x.tail ++ x.after) := by
    conv_lhs => rw [hcut]
    exact List.drop_left
  rw [closeAt, hstart, hdrop, hspace, List.length_cons]
  omega

theorem open_in_header (hx : CutIn t d x) : d.header.start ≤ openAt t d ∧ openAt t d < d.header.stop := by
  rw [open_at_cut hx, hx.header]
  simp only [Cut.head, List.length_append, List.length_cons]
  omega

theorem close_in_footer (hx : CutIn t d x) :
    d.footer.start ≤ closeAt t d ∧ closeAt t d < d.footer.stop := by
  rw [close_at_cut hx, hx.footer]
  simp only [Cut.foot, List.length_append, List.length_cons]
  omega

theorem header_before_footer (hx : CutIn t d x) :
    d.header.start < d.header.stop ∧ d.header.stop ≤ d.footer.start := by
  have hbounds := open_in_header hx
  rw [hx.footer, hx.body]
  simp only
  omega

end

end Definition

open Conversion Definition

/-! The edits of a conversion stand apart. -/

section

variable {library t : Text} {c : Conversion} (h : (convert library t).result = .ok c)
include h

theorem edits_apart : (c.definitions.flatMap edits).Pairwise Edit.Apart := by
  obtain ⟨es, hperm, hascending, _, _⟩ := convert_splice h
  exact (hperm.pairwise_iff fun hab => hab.symm).1 (hascending.imp Or.inl)

/-- A position is in one edit only. -/
theorem edit_spot {d d' : Definition} (hd : d ∈ c.definitions) (hd' : d' ∈ c.definitions) {e e' : Edit}
    (he : e ∈ edits d) (he' : e' ∈ edits d') {k : Nat} (hk : e.span.start ≤ k ∧ k < e.span.stop)
    (hk' : e'.span.start ≤ k ∧ k < e'.span.stop) : d = d' ∧ e = e' := by
  have hmeet : ∀ {a b : Edit}, a.span.start ≤ k ∧ k < a.span.stop →
      b.span.start ≤ k ∧ k < b.span.stop → ¬ Edit.Apart a b := by
    rintro a b ha hb (hab | hab) <;> omega
  obtain ⟨hinner, houter⟩ := List.pairwise_flatMap.1 (edits_apart h)
  have : Std.Symm Edit.Apart := ⟨fun _ _ hab => hab.symm⟩
  have : Std.Symm fun a b => ∀ x ∈ edits a, ∀ y ∈ edits b, Edit.Apart x y :=
    ⟨fun _ _ hab x hx y hy => (hab y hy x hx).symm⟩
  have hone : d = d' := by
    by_contra hne
    exact hmeet hk hk' (houter.forall hd hd' hne e he e' he')
  subst hone
  refine ⟨rfl, ?_⟩
  by_contra hne
  exact hmeet hk hk' ((hinner d hd).forall he he' hne)

end

theorem base_brackets (b : Base) : b.text.filter isBracket = [] := by
  cases b <;> decide

theorem brackets_none {u : Text} (hu : ∀ a ∈ u, isBracket a = false) : u.filter isBracket = [] :=
  List.filter_eq_nil_iff.2 fun a ha => by simp [hu a ha]

/-! The painting that a conversion amounts to. -/

/-- The characters of a script with the brackets around its functions turned into braces. -/
def repaint (t : Text) (ds : List Definition) (p : Placed) : Char :=
  if p.2 ∈ ds.map (openAt t) then '{' else if p.2 ∈ ds.map (closeAt t) then '}' else p.1

section

variable {library t : Text} {c : Conversion} (h : (convert library t).result = .ok c)
include h

/-- The only painted character of an edit is the bracket in front of the function or the one behind. -/
theorem open_spot_iff {d : Definition} (hd : d ∈ c.definitions) {e : Edit} (he : e ∈ edits d) {k : Nat}
    (hk : e.span.start ≤ k ∧ k < e.span.stop) :
    k ∈ c.definitions.map (openAt t) ↔ e.span = d.header ∧ k = openAt t d := by
  constructor
  · intro hin
    obtain ⟨d', hd', rfl⟩ := List.mem_map.1 hin
    obtain ⟨x, hx⟩ := (convert_stands h d' hd').cut
    obtain ⟨e', he', hspan⟩ := header_edit d'
    obtain ⟨rfl, rfl⟩ := edit_spot h hd hd' he he' hk (hspan ▸ open_in_header hx)
    exact ⟨hspan, rfl⟩
  · rintro ⟨_, rfl⟩
    exact List.mem_map_of_mem hd

theorem close_spot_iff {d : Definition} (hd : d ∈ c.definitions) {e : Edit} (he : e ∈ edits d) {k : Nat}
    (hk : e.span.start ≤ k ∧ k < e.span.stop) :
    k ∈ c.definitions.map (closeAt t) ↔ e.span = d.footer ∧ k = closeAt t d := by
  constructor
  · intro hin
    obtain ⟨d', hd', rfl⟩ := List.mem_map.1 hin
    obtain ⟨x, hx⟩ := (convert_stands h d' hd').cut
    obtain ⟨e', he', hspan⟩ := footer_edit d'
    obtain ⟨rfl, rfl⟩ := edit_spot h hd hd' he he' hk (hspan ▸ close_in_footer hx)
    exact ⟨hspan, rfl⟩
  · rintro ⟨_, rfl⟩
    exact List.mem_map_of_mem hd

/-- Nothing is painted outside the edits. -/
theorem repaint_kept {p : Placed}
    (hp : ∀ e ∈ c.definitions.flatMap edits, ¬ (e.span.start ≤ p.2 ∧ p.2 < e.span.stop)) :
    repaint t c.definitions p = p.1 := by
  have hopen : p.2 ∉ c.definitions.map (openAt t) := by
    intro hin
    obtain ⟨d, hd, hat⟩ := List.mem_map.1 hin
    obtain ⟨x, hx⟩ := (convert_stands h d hd).cut
    obtain ⟨e, he, hspan⟩ := header_edit d
    exact hp e (List.mem_flatMap.2 ⟨d, hd, he⟩) (hspan ▸ hat ▸ open_in_header hx)
  have hclose : p.2 ∉ c.definitions.map (closeAt t) := by
    intro hin
    obtain ⟨d, hd, hat⟩ := List.mem_map.1 hin
    obtain ⟨x, hx⟩ := (convert_stands h d hd).cut
    obtain ⟨e, he, hspan⟩ := footer_edit d
    exact hp e (List.mem_flatMap.2 ⟨d, hd, he⟩) (hspan ▸ hat ▸ close_in_footer hx)
  rw [repaint, if_neg hopen, if_neg hclose]

omit h in
theorem repaint_open {d : Definition} (hd : d ∈ c.definitions) (a : Char) :
    repaint t c.definitions (a, openAt t d) = '{' := by
  rw [repaint, if_pos (List.mem_map_of_mem hd)]

theorem repaint_close {d : Definition} (hd : d ∈ c.definitions) (a : Char) :
    repaint t c.definitions (a, closeAt t d) = '}' := by
  obtain ⟨x, hx⟩ := (convert_stands h d hd).cut
  obtain ⟨e, he, hspan⟩ := footer_edit d
  have hopen : closeAt t d ∉ c.definitions.map (openAt t) := by
    rw [open_spot_iff h hd he (hspan ▸ close_in_footer hx), hspan]
    rintro ⟨heq, _⟩
    have := header_before_footer hx
    rw [heq] at this
    omega
  rw [repaint, if_neg hopen, if_pos (List.mem_map_of_mem hd)]

section

variable {d : Definition} (hd : d ∈ c.definitions) {x : Cut} (hx : CutIn t d x)
include hd hx

/-- The header, painted. -/
theorem header_painted : (x.head.zipIdx d.header.start).map (repaint t c.definitions) =
    (x.indent ++ (x.target ++ x.link)) ++ '{' ::
      (x.keyword ++ '(' :: (x.raw ++ ')' :: (x.gap ++ ['{']))) := by
  have hcut : x.head = (x.indent ++ (x.target ++ x.link)) ++ '(' ::
      (x.keyword ++ '(' :: (x.raw ++ ')' :: (x.gap ++ ['{']))) := by
    simp [Cut.head]
  have hopen : openAt t d = d.header.start + (x.indent ++ (x.target ++ x.link)).length := by
    rw [open_at_cut hx, hx.header]
    simp only [List.length_append]
    omega
  obtain ⟨e, he, hspan⟩ := header_edit d
  rw [hcut]
  refine painted_at fun p hp => ?_
  rw [← hcut] at hp
  have hbounds : e.span.start ≤ p.2 ∧ p.2 < e.span.stop := by
    have h1 := List.le_snd_of_mem_zipIdx hp
    have h2 := List.snd_lt_add_of_mem_zipIdx hp
    rw [hspan, hx.header]
    rw [hx.header] at h1 h2
    exact ⟨h1, h2⟩
  have hne : e.span ≠ d.footer := by
    rw [hspan]
    intro heq
    have := header_before_footer hx
    rw [← heq] at this
    omega
  simp only [repaint, open_spot_iff h hd he hbounds, close_spot_iff h hd he hbounds, hspan, true_and,
    hspan ▸ hne, false_and, if_false, hopen]

/-- The footer, painted. -/
theorem footer_painted : (x.foot.zipIdx d.footer.start).map (repaint t c.definitions) =
    ('}' :: x.space) ++ '}' :: x.tail := by
  have hcut : x.foot = ('}' :: x.space) ++ ')' :: x.tail := rfl
  have hclose : closeAt t d = d.footer.start + ('}' :: x.space).length := by
    rw [close_at_cut hx, List.length_cons]
    omega
  obtain ⟨e, he, hspan⟩ := footer_edit d
  rw [hcut]
  refine painted_at fun p hp => ?_
  rw [← hcut] at hp
  have hbounds : e.span.start ≤ p.2 ∧ p.2 < e.span.stop := by
    have h1 := List.le_snd_of_mem_zipIdx hp
    have h2 := List.snd_lt_add_of_mem_zipIdx hp
    rw [hspan, hx.footer]
    rw [hx.footer] at h1 h2
    exact ⟨h1, h2⟩
  have hne : e.span ≠ d.header := by
    rw [hspan]
    intro heq
    have := header_before_footer hx
    rw [heq] at this
    omega
  simp only [repaint, open_spot_iff h hd he hbounds, close_spot_iff h hd he hbounds, hspan, true_and,
    hspan ▸ hne, false_and, if_false, hclose]

/-- The call of the base class is not painted. -/
theorem call_painted {s : Span} (hs : d.superCall = some s) {u : Text} (hu : s.start + u.length = s.stop) :
    (u.zipIdx s.start).map (repaint t c.definitions) = u := by
  have he : (⟨s, "super(".toList⟩ : Edit) ∈ edits d := by simp [edits, hs]
  obtain ⟨hwithin, _⟩ := (convert_stands h d hd).call s hs
  refine painted_kept fun p hp => ?_
  have hbounds : s.start ≤ p.2 ∧ p.2 < s.stop := by
    have h1 := List.le_snd_of_mem_zipIdx hp
    have h2 := List.snd_lt_add_of_mem_zipIdx hp
    omega
  have hheader : s ≠ d.header := by
    rintro rfl
    have := header_before_footer hx
    rw [hx.body] at hwithin
    simp only at hwithin
    omega
  have hfooter : s ≠ d.footer := by
    rintro rfl
    have hstart : d.footer.start = d.body.stop := by rw [hx.footer]
    omega
  simp only [repaint, open_spot_iff h hd he hbounds, close_spot_iff h hd he hbounds, hheader, hfooter,
    false_and, if_false]

/-! What an edit writes pairs up like the painted stretch that it replaces. -/

omit h hd in
theorem indent_brackets : d.indent.filter isBracket = [] := by
  rw [hx.indent]
  exact unbracketed hx.indented fun _ => indent_not_bracket

theorem header_alike (hname : ∀ a ∈ d.name, Text.isNamePart a = true) :
    Alike (classHead d) (((t.slice d.header).zipIdx d.header.start).map
      (repaint t c.definitions)) := by
  have hindent := indent_brackets hx
  rw [hx.indent] at hindent
  have hparams : d.params.filter isBracket = x.raw.filter isBracket := by
    rw [hx.params]
    exact Text.filter_trim (fun _ => blank_not_bracket) _
  have hassigned : " = class ".toList.filter isBracket = [] := by decide
  have hextends : " extends ".toList.filter isBracket = [] := by decide
  have hopens : " \x7b\n".toList.filter isBracket = ['{'] := by decide
  have hconstructor : "    constructor(".toList.filter isBracket = ['('] := by decide
  have hbrace : ") \x7b".toList.filter isBracket = [')', '{'] := by decide
  have hopen : isBracket '{' = true := by decide
  have hround : isBracket '(' = true ∧ isBracket ')' = true := by decide
  rw [header_slice hx, header_painted h hd hx]
  refine alike_brackets ?_
  simp only [classHead, hx.indent, hx.target, List.filter_append, List.filter_cons, List.filter_nil,
    hindent, base_brackets, hparams, hassigned, hextends, hopens, hconstructor, hbrace, hopen, hround,
    unbracketed hname fun _ => name_not_bracket, unbracketed hx.gap fun _ => indent_not_bracket,
    brackets_none hx.link, brackets_none hx.keyword]
  simp

theorem footer_alike :
    Alike (classFoot d) (((t.slice d.footer).zipIdx d.footer.start).map
      (repaint t c.definitions)) := by
  have hindent := indent_brackets hx
  have hend : "\x7d\n".toList.filter isBracket = ['}'] := by decide
  have hclose : isBracket '}' = true := by decide
  rw [footer_slice hx, footer_painted h hd hx]
  refine alike_brackets ?_
  simp only [classFoot, List.filter_append, List.filter_cons, List.filter_nil, hindent,
    hend, hclose, unbracketed hx.space fun _ => blank_not_bracket, brackets_none hx.tail]
  simp

omit h hd in
theorem inserted_balanced : Balanced (insertedCall d) := by
  have hsuper : "        super();".toList.filter isBracket = ['(', ')'] := by decide
  have hline : isBracket '\n' = false := by decide
  refine balanced_of_brackets (v := ['(', ')']) ?_ (by decide)
  simp only [insertedCall, List.cons_append, List.filter_cons, List.filter_append, hline,
    indent_brackets hx, hsuper]
  decide

theorem call_alike {s : Span} (hs : d.superCall = some s) :
    Alike "super(".toList (((t.slice s).zipIdx s.start).map (repaint t c.definitions)) := by
  obtain ⟨_, u, arg, v, hcut, rfl, _, harg⟩ := (convert_stands h d hd).call s hs
  have hcall : ".call(".toList.filter isBracket = ['('] := by decide
  have hsuper : "super(".toList.filter isBracket = ['('] := by decide
  have hslice : t.slice ⟨u.length, u.length + (d.base.text ++ (".call(".toList ++ arg)).length⟩ =
      d.base.text ++ (".call(".toList ++ arg) := by
    rw [hcut]
    exact Text.slice_middle _ _ _
  rw [hslice, call_painted h hd hx hs rfl]
  refine alike_brackets ?_
  simp only [hsuper, List.filter_append, base_brackets, hcall, brackets_none harg]
  rfl

theorem edit_alike (hname : ∀ a ∈ d.name, Text.isNamePart a = true) {e : Edit} (he : e ∈ edits d) :
    Alike e.text (((t.slice e.span).zipIdx e.span.start).map (repaint t c.definitions)) := by
  rw [edits] at he
  cases hs : d.superCall with
  | none =>
    simp only [hs, List.mem_cons, List.not_mem_nil, or_false] at he
    rcases he with rfl | rfl
    · exact fun st => (alike_over (inserted_balanced hx) st).trans (header_alike h hd hx hname st)
    · exact footer_alike h hd hx
  | some s =>
    simp only [hs, List.mem_cons, List.not_mem_nil, or_false] at he
    rcases he with rfl | rfl | rfl
    · exact call_alike h hd hx hs
    · exact header_alike h hd hx hname
    · exact footer_alike h hd hx

end

end

/-! The function of a definition. -/

/-- The spans that a conversion replaces have no literals with brackets, and all other literals stay
what they are. -/
structure Undisturbed (t : Text) (c : Conversion) : Prop where
  source : ∀ d ∈ c.definitions, ∀ e ∈ edits d, (veil isBracket t).slice e.span = t.slice e.span
  result : Edit.applyAll (veil isBracket t) (c.definitions.flatMap edits) = .ok (veil isBracket c.text)

/-- The function of a definition, in a script that is cut at the ends of its header and its footer. -/
def wrapped (v : Text) (d : Definition) (x : Cut) : Wrapped where
  before := v.take d.header.start ++ (x.indent ++ (x.target ++ x.link))
  keyword := x.keyword
  raw := x.raw
  gap := x.gap
  inner := v.slice d.body
  space := x.space
  after := x.tail ++ v.drop d.footer.stop

namespace Cut

/-- The header without its brace. -/
def lead (x : Cut) : Text :=
  x.indent ++ (x.target ++ (x.link ++ '(' :: (x.keyword ++ '(' :: (x.raw ++ ')' :: x.gap))))

theorem head_lead (x : Cut) : x.head = x.lead ++ ['{'] := by simp [head, lead]

theorem text_lead (x : Cut) : x.text = (x.before ++ x.lead) ++ '{' :: (x.inner ++ '}' ::
    (x.space ++ ')' :: (x.tail ++ x.after))) := by
  simp [text, head_lead, foot]

end Cut

section

variable {t : Text} {d : Definition} {x : Cut} (hx : CutIn t d x)
include hx

theorem header_stop_lead : d.header.stop = (x.before ++ x.lead).length + 1 := by
  rw [hx.header, Cut.head_lead]
  simp only [List.length_append, List.length_cons, List.length_nil]
  omega

theorem wrapped_places {v : Text} (hv : v.length = t.length) :
    (wrapped v d x).before.length = openAt t d ∧ (wrapped v d x).front.length = closeAt t d ∧
      (wrapped v d x).paramsEnd < d.header.stop := by
  have hlength : t.length = x.before.length + x.head.length + x.inner.length + x.foot.length +
      x.after.length := by
    rw [hx.text, Cut.text]
    simp only [List.length_append]
    omega
  have hbefore : (v.take d.header.start).length = d.header.start := by
    rw [List.length_take, hx.header]
    simp only
    omega
  have hinner : (v.slice d.body).length = d.body.stop - d.body.start := by
    rw [Text.slice, List.length_drop, List.length_take, hx.body, hx.header]
    simp only
    omega
  have hopen : (wrapped v d x).before.length = openAt t d := by
    rw [open_at_cut hx, wrapped, List.length_append, hbefore, hx.header]
    simp only [List.length_append]
    omega
  have hhead : openAt t d + 1 + x.keyword.length + 1 + x.raw.length + 1 + x.gap.length + 1 =
      d.header.stop := by
    rw [open_at_cut hx, header_stop_lead hx]
    simp only [Cut.lead, List.length_append, List.length_cons]
    omega
  refine ⟨hopen, ?_, ?_⟩
  · rw [Wrapped.front, close_at_cut hx, List.length_append, hopen]
    simp only [wrapped, List.length_append, List.length_cons, hinner]
    rw [hx.footer, hx.body]
    simp only
    omega
  · rw [Wrapped.paramsEnd, hopen]
    simp only [wrapped]
    omega

section

variable {v : Text} (hheader : v.slice d.header = x.head) (hfooter : v.slice d.footer = x.foot)
include hheader hfooter

theorem wrapped_text : (wrapped v d x).text = v := by
  have hspread : (wrapped v d x).text = (((v.take d.header.start ++ x.head) ++ v.slice d.body) ++
      x.foot) ++ v.drop d.footer.stop := by
    simp [Wrapped.text, Wrapped.front, wrapped, Cut.head, Cut.foot]
  have hstep : ∀ s : Span, s.start ≤ s.stop → v.take s.start ++ v.slice s = v.take s.stop := by
    intro s hs
    rw [Text.slice]
    conv_rhs => rw [← List.take_append_drop s.start (v.take s.stop), List.take_take, Nat.min_eq_left hs]
  have hhead := hstep d.header (by rw [hx.header]; simp)
  have hbody := hstep d.body (by rw [hx.body]; simp)
  have hfoot := hstep d.footer (by rw [hx.footer]; simp)
  have hstart : d.body.start = d.header.stop := by rw [hx.body]
  have hend : d.footer.start = d.body.stop := by rw [hx.footer]
  rw [hspread, ← hheader, hhead, ← hstart, hbody, ← hend, ← hfooter, hfoot, List.take_append_drop]

/-- The braces of the body are mates in the script, and so in what shows of it. -/
theorem wrapped_body (hveil : v = veil isBracket t) :
    net (v.slice d.body) = 0 ∧ NeverBelow 0 (v.slice d.body) := by
  have hlead := header_stop_lead hx
  have htext := hx.text.trans x.text_lead
  obtain ⟨front, rest, hcut, hfront⟩ : ∃ front rest, v = front ++ '{' :: (v.slice d.body ++ '}' :: rest) ∧
      front.length = (x.before ++ x.lead).length := by
    refine ⟨v.take d.header.start ++ x.lead, x.space ++ ')' :: (x.tail ++ v.drop d.footer.stop), ?_, ?_⟩
    · conv_lhs => rw [← wrapped_text hx hheader hfooter]
      simp [Wrapped.text, Wrapped.front, wrapped, Cut.lead]
    · rw [List.length_append, List.length_append, List.length_take, hveil, length_veil, hx.header, htext]
      simp
  have hinner : (v.slice d.body).length = x.inner.length := by
    rw [Text.slice, List.length_drop, List.length_take, hveil, length_veil, hx.body, hx.header,
      hx.text]
    simp only [Cut.text, List.length_append]
    omega
  have hbody : d.body.stop = (x.before ++ x.lead).length + 1 + x.inner.length := by
    rw [hx.body, hlead]
  generalize v.slice d.body = shown at hcut hinner ⊢
  have hencloses : Encloses isBracket t (x.before ++ x.lead) x.inner
      (x.space ++ ')' :: (x.tail ++ x.after)) shown := by
    refine ⟨htext, veil_code (p := isBracket) (c := '{') (by decide) (by decide) ?_, ?_⟩
    · rw [← hveil, ← hfront, hcut]
      simp
    · have hregroup : v = (front ++ ['{']) ++ ((shown ++ ['}']) ++ rest) := by
        rw [hcut]
        simp
      have hstart : front.length + 1 = (front ++ ['{']).length := by simp
      have hstop : front.length + 1 + x.inner.length + 1 =
          (front ++ ['{']).length + (shown ++ ['}']).length := by
        simp only [List.length_append, List.length_cons, List.length_nil, hinner]
        omega
      rw [← hveil, ← hfront, hstop, hstart, hregroup]
      exact Text.slice_middle _ _ _
  refine (enclosed_iff (p := isBracket) ?_ hencloses).1 (closing_brace_iff.2 ⟨?_, ?_⟩)
  · intro a ha
    rcases (by simpa [isBrace] using ha : a = '{' ∨ a = '}') with rfl | rfl <;> decide
  · rw [htext]
    simp
  · have hcloses := hx.closes
    rwa [hlead, Nat.add_sub_cancel, hbody] at hcloses

theorem wrapped_formed (hveil : v = veil isBracket t) : (wrapped v d x).Formed := by
  obtain ⟨hnet, hbelow⟩ := wrapped_body hx hheader hfooter hveil
  exact ⟨hx.keyword, hx.raw, fun a ha => indent_not_bracket (hx.gap a ha),
    fun a ha => blank_not_bracket (hx.space a ha), hnet, hbelow⟩

end

end

/-! The mates of the painted brackets. -/

section

variable {library t : Text} {c : Conversion} (h : (convert library t).result = .ok c)
  (hu : Undisturbed t c)
include h hu

theorem wrapped_in {d : Definition} (hd : d ∈ c.definitions) : ∃ w : Wrapped, w.Formed ∧
    w.text = veil isBracket t ∧ w.before.length = openAt t d ∧ w.front.length = closeAt t d ∧
    w.paramsEnd < d.header.stop ∧ ('(' ∈ w.raw ↔ '(' ∈ d.params) := by
  obtain ⟨x, hx⟩ := (convert_stands h d hd).cut
  obtain ⟨e, he, hspan⟩ := header_edit d
  obtain ⟨e', he', hspan'⟩ := footer_edit d
  have hheader : (veil isBracket t).slice d.header = x.head := by
    rw [← header_slice hx, ← hspan]
    exact hu.source d hd e he
  have hfooter : (veil isBracket t).slice d.footer = x.foot := by
    rw [← footer_slice hx, ← hspan']
    exact hu.source d hd e' he'
  obtain ⟨hopen, hclose, hend⟩ := wrapped_places hx (v := veil isBracket t) (length_veil t)
  refine ⟨_, wrapped_formed hx hheader hfooter rfl, wrapped_text hx hheader hfooter, hopen, hclose, hend,
    ?_⟩
  have hfilter : d.params.filter (· == '(') = x.raw.filter (· == '(') := by
    rw [hx.params]
    refine Text.filter_trim (fun a ha => ?_) _
    rw [beq_eq_false_iff_ne]
    rintro rfl
    exact absurd ha (by decide)
  have hmem := congrArg ('(' ∈ ·) hfilter
  simpa [wrapped] using hmem.symm

theorem open_char {d : Definition} (hd : d ∈ c.definitions) {p : Placed}
    (hp : p ∈ (veil isBracket t).zipIdx) (hat : p.2 = openAt t d) : p.1 = '(' := by
  obtain ⟨w, _, htext, hopen, _⟩ := wrapped_in h hu hd
  have hget := List.mem_zipIdx_iff_getElem?.1 hp
  rw [hat, ← hopen, ← htext, Wrapped.text, Wrapped.front] at hget
  simpa using hget.symm

theorem close_char {d : Definition} (hd : d ∈ c.definitions) {p : Placed}
    (hp : p ∈ (veil isBracket t).zipIdx) (hat : p.2 = closeAt t d) : p.1 = ')' := by
  obtain ⟨w, _, htext, _, hclose, _⟩ := wrapped_in h hu hd
  have hget := List.mem_zipIdx_iff_getElem?.1 hp
  rw [hat, ← hclose, ← htext, Wrapped.text] at hget
  simpa using hget.symm

theorem function_mate (ht : Balanced (veil isBracket t)) {d : Definition} (hd : d ∈ c.definitions) :
    ∃ o, (o, (')', closeAt t d)) ∈ mates (veil isBracket t) ∧ o.1 = '(' ∧
      ('(' ∉ d.params → o = ('(', openAt t d)) ∧
      ('(' ∈ d.params → openAt t d < o.2 ∧ o.2 < d.header.stop) := by
  obtain ⟨w, hw, htext, hopen, hclose, hend, hparams⟩ := wrapped_in h hu hd
  rw [← htext] at ht ⊢
  obtain ⟨o, hmate, hround, hnone, hsome⟩ := Wrapped.wrapped_mate hw ht
  rw [hopen] at hnone hsome
  rw [← hclose, ← hparams]
  refine ⟨o, hmate, hround, hnone, fun hin => ?_⟩
  have := hsome hin
  omega

/-- Painting leaves openers openers and closers closers. -/
theorem repaint_kind {p : Placed} (hp : p ∈ (veil isBracket t).zipIdx) :
    SameKind (repaint t c.definitions) p := by
  by_cases hopen : p.2 ∈ c.definitions.map (openAt t)
  · obtain ⟨d, hd, hat⟩ := List.mem_map.1 hopen
    have hchar := open_char h hu hd hp hat.symm
    refine ⟨?_, ?_⟩ <;> rw [repaint, if_pos hopen, hchar] <;> rfl
  by_cases hclose : p.2 ∈ c.definitions.map (closeAt t)
  · obtain ⟨d, hd, hat⟩ := List.mem_map.1 hclose
    have hchar := close_char h hu hd hp hat.symm
    refine ⟨?_, ?_⟩ <;> rw [repaint, if_neg hopen, if_pos hclose, hchar] <;> rfl
  · exact same_kind_kept (by rw [repaint, if_neg hopen, if_neg hclose])

/-- What shows of a converted script pairs up as the painted source does. -/
theorem converted_alike : Alike (veil isBracket c.text)
    ((veil isBracket t).zipIdx.map (repaint t c.definitions)) := by
  obtain ⟨es, hperm, hascending, hwithin, _⟩ := convert_splice h
  obtain ⟨tree, htree, hdefs, _⟩ := convert_ok h
  have hresult := hu.result
  rw [Edit.apply_all_splice hperm.symm hascending (by rwa [length_veil]), Except.ok.injEq] at hresult
  rw [← hresult]
  refine Edit.splice_painted (fun e he => ⟨Nat.zero_le _, Nat.le_of_lt (hwithin e he).1⟩) hascending
    (fun e he => ?_) (fun p _ hp => ?_) fun e he => ?_
  · rw [length_veil, Nat.zero_add]
    exact (hwithin e he).2
  · exact repaint_kept h fun e he => hp e (hperm.mem_iff.2 he)
  · obtain ⟨d, hd, he⟩ := List.mem_flatMap.1 (hperm.mem_iff.1 he)
    obtain ⟨x, hx⟩ := (convert_stands h d hd).cut
    have hname := Definition.find_names htree d (List.mem_mergeSort.1 (hdefs ▸ hd))
    have hedit := edit_alike h hd hx hname he
    rw [← hu.source d hd e he] at hedit
    exact hedit

end

/-! Scripts without literals. -/

theorem foreign_opener {a : Char} (ha : opensLiteral a = true) : Foreign [a] := by
  have hopeners : a = '\x22' ∨ a = '\x27' ∨ a = '\x60' ∨ a = '/' := by
    simpa [opensLiteral, or_assoc] using ha
  have hhead : a ∉ written ∧ Piece.isIndent a = false := by
    rcases hopeners with rfl | rfl | rfl | rfl <;> decide +kernel
  refine ⟨by simp, by simpa using hhead, ⟨a, by simp, ?_⟩, ?_, ?_, ?_, ?_, Or.inr ?_⟩
  all_goals rcases hopeners with rfl | rfl | rfl | rfl <;> decide

theorem foreign_arrow : Foreign "-->".toList := by
  have hhead : '-' ∉ written ∧ Piece.isIndent '-' = false := by decide +kernel
  exact ⟨by decide, by simpa using hhead, ⟨'-', by decide, by decide⟩, by decide, by decide, by decide,
    by decide, Or.inr (by decide)⟩

section

variable {library t : Text} {c : Conversion} (h : (convert library t).result = .ok c) (ht : Bare t)
include h ht

/-- A conversion brings in no literals. -/
theorem convert_bare : Bare c.text := by
  refine ⟨fun a ha => ?_, fun hin => ht.2 (convert_word foreign_arrow h hin)⟩
  by_contra hopens
  have hopens : opensLiteral a = true := by simpa using hopens
  have hin := convert_word (foreign_opener hopens) h ((List.singleton_infix_iff _ _).2 ha)
  exact absurd (ht.1 a ((List.singleton_infix_iff _ _).1 hin)) (by simp [hopens])

/-- A conversion of a script without literals disturbs none. -/
theorem undisturbed_plain : Undisturbed t c := by
  obtain ⟨_, _, _, happly⟩ := convert_ok h
  refine ⟨fun d _ e _ => by rw [veil_plain ht], ?_⟩
  rw [veil_plain ht, veil_plain (convert_bare h ht)]
  exact happly

end

/-! The theorem. -/

def nestedSource : Text := ("lib.Scene = MovieClip.extend(function (mode) \x7b\n" ++
  "    MovieClip.call(this, mode);\n" ++ "    var Part = Container.extend(function () \x7b\n" ++
  "    \x7d);\n" ++ "\x7d);\n").toList

def commentSource : Text := ("lib.Scene = MovieClip.extend(function (mode // start mode\n) \x7b\n" ++
  "    MovieClip.call(this, mode);\n" ++ "\x7d);\n").toList

def commentClass : Text := ("lib.Scene = class Scene extends MovieClip \x7b\n" ++
  "    constructor(mode // start mode) \x7b\n" ++ "    super(mode);\n" ++ "\x7d\n\x7d\n").toList

end Legacy

end Restage
