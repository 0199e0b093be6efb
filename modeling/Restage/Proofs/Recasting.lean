import Restage.Legacy.Reference
import Restage.Proofs.BracketWords
import Restage.Proofs.Characters
import Restage.Proofs.Matching
import Restage.Proofs.Splicing

/-!
What a substitution makes of a stretch of code. `spread` runs a substitution from a position of a text
on; on a stretch that its fits do not leave, the result is a recasting of the stretch (`Recast`),
whatever follows. A recasting by words of plain marks keeps the brackets of a stretch and brings in
no arrow and no call.
-/

set_option autoImplicit false

namespace Restage.Legacy.Substitution

open Text (endOf)

variable (s : Substitution) (ms : List Bool)

/-- The edits of the fits at code, from a position on. -/
def editsFrom (b : Option Char) (i : Nat) (t : Text) : List Edit :=
  ((s.pattern.hitsFrom b i 0 t).filter fun h => ms.getD h.start true).map fun h =>
    ⟨h.span, s.replacement h⟩

/-- The substitution from a position on; the marks are those of the whole text. -/
def spread (b : Option Char) (i : Nat) (t : Text) : Text := Edit.splice i t (s.editsFrom ms b i t)

theorem run_spread (t : Text) : (s.run t).1 = s.spread (Script.codeMask t) none 0 t := by
  simp only [run, spread, editsFrom, Pattern.hits, Text.entire]
  simp

theorem hits_start {p : Pattern} {b : Option Char} {i skip : Nat} {t : Text} {h : Hit}
    (hh : h ∈ p.hitsFrom b i skip t) : i ≤ h.start := by
  fun_induction p.hitsFrom b i skip t with
  | case1 b i parts hf => simp_all
  | case2 b i hf => simp at hh
  | case3 => simp at hh
  | case4 b i c cs parts hf ih =>
    rcases List.mem_cons.1 hh with rfl | hh
    · exact Nat.le_refl _
    · have := ih hh; omega
  | case5 b i c cs hf ih => have := ih hh; omega
  | case6 b i skip c cs ih => have := ih hh; omega

theorem edits_behind (b : Option Char) (i : Nat) (t : Text) :
    Edit.Behind i (s.editsFrom ms b i t) := by
  intro e he
  obtain ⟨h, hh, rfl⟩ := List.mem_map.1 he
  exact ⟨hits_start (List.mem_filter.1 hh).1, Nat.le_add_right _ _⟩

variable {s ms}

/-- Where the pattern is silent the text stays. -/
theorem spread_silent (ms : List Bool) {b : Option Char} {u t : Text} (h : s.pattern.Silent b u t) (i : Nat) :
    s.spread ms b i (u ++ t) = u ++ s.spread ms (endOf b u) (i + u.length) t := by
  have hedits : s.editsFrom ms b i (u ++ t) = s.editsFrom ms (endOf b u) (i + u.length) t := by
    rw [editsFrom, Pattern.hits_silent h]
    rfl
  rw [spread, hedits, Edit.splice_keep i u t (edits_behind s ms _ _ _)]
  rfl

section

variable {b : Option Char} {u t : Text} {parts : List Text} {i : Nat}

/-- A fit at code is replaced. -/
theorem spread_fit (ms : List Bool) (hu : u ≠ []) (h : s.pattern.fits? b (u ++ t) = some parts)
    (hparts : parts.flatten = u) (hcode : ms.getD i true = true) :
    s.spread ms b i (u ++ t) =
      s.replacement ⟨i, parts⟩ ++ s.spread ms (endOf b u) (i + u.length) t := by
  have hedits : s.editsFrom ms b i (u ++ t) = ⟨⟨i, i + u.length⟩, s.replacement ⟨i, parts⟩⟩ ::
      s.editsFrom ms (endOf b u) (i + u.length) t := by
    rw [editsFrom, Pattern.hits_fit hu h hparts, List.filter_cons_of_pos (by simpa using hcode),
      List.map_cons]
    simp only [Hit.span, Hit.stop, Hit.text, hparts]
    rfl
  rw [spread, hedits, Edit.splice_replace]
  rfl

/-- A fit outside code stays. -/
theorem spread_masked (hu : u ≠ []) (h : s.pattern.fits? b (u ++ t) = some parts)
    (hparts : parts.flatten = u) (hcode : ms.getD i true = false) :
    s.spread ms b i (u ++ t) = u ++ s.spread ms (endOf b u) (i + u.length) t := by
  have hedits : s.editsFrom ms b i (u ++ t) =
      s.editsFrom ms (endOf b u) (i + u.length) t := by
    rw [editsFrom, Pattern.hits_fit hu h hparts, List.filter_cons_of_neg (by simpa using hcode)]
    rfl
  rw [spread, hedits, Edit.splice_keep i u t (edits_behind s ms _ _ _)]
  rfl

end

theorem spread_step {b : Option Char} {c : Char} {t : Text} (h : s.pattern.fits? b (c :: t) = none)
    (i : Nat) : s.spread ms b i (c :: t) = c :: s.spread ms (some c) (i + 1) t := by
  have hsilent : s.pattern.Silent b [c] t :=
    Pattern.silent_cons.2 ⟨h, Pattern.silent_nil _ _⟩
  exact spread_silent _ hsilent i

/-! Recastings. -/

/-- A stretch behind a character and in front of a text, with its fits replaced. -/
inductive Recast (s : Substitution) (t : Text) : Option Char → Text → Text → Prop
  | done (b : Option Char) : Recast s t b [] []
  | keep {b : Option Char} {c : Char} {u u' : Text} :
    s.pattern.fits? b (c :: (u ++ t)) = none → Recast s t (some c) u u' →
    Recast s t b (c :: u) (c :: u')
  | swap {b : Option Char} {parts : List Text} {u u' : Text} (i : Nat) :
    parts.flatten ≠ [] → s.pattern.fits? b (parts.flatten ++ (u ++ t)) = some parts →
    Recast s t (endOf b parts.flatten) u u' →
    Recast s t b (parts.flatten ++ u) (s.replacement ⟨i, parts⟩ ++ u')

/-- The fits in a stretch take something and stay in it. -/
def Stays (s : Substitution) (b : Option Char) (u t : Text) : Prop :=
  ∀ a v parts, u = a ++ v → v ≠ [] → s.pattern.fits? (endOf b a) (v ++ t) = some parts →
    parts.flatten ≠ [] ∧ parts.flatten <+: v

theorem stays_behind {b : Option Char} {a v t : Text} (h : s.Stays b (a ++ v) t) :
    s.Stays (endOf b a) v t := by
  intro x y parts hv hy hfit
  refine h (a ++ x) y parts (by rw [hv, List.append_assoc]) hy ?_
  rw [Text.endOf_append]
  exact hfit

/-- Over a stretch of code. -/
theorem spread_recast {b : Option Char} {i : Nat} {u t : Text}
    (hcode : ∀ k, k < u.length → ms.getD (i + k) true = true) (hin : s.Stays b u t) :
    ∃ u', s.spread ms b i (u ++ t) = u' ++ s.spread ms (endOf b u) (i + u.length) t ∧
      Recast s t b u u' := by
  induction hn : u.length using Nat.strongRecOn generalizing b i u with
  | ind n ih =>
    subst hn
    cases u with
    | nil => exact ⟨[], rfl, .done b⟩
    | cons c u =>
      cases hfit : s.pattern.fits? b (c :: (u ++ t)) with
      | none =>
        obtain ⟨u', hspread, hcast⟩ := ih u.length (by simp)
          (b := some c) (i := i + 1) (u := u)
          (fun k hk => by
            have := hcode (k + 1) (by simpa using hk)
            rwa [show i + 1 + k = i + (k + 1) by omega])
          (stays_behind (a := [c]) hin) rfl
        refine ⟨c :: u', ?_, .keep hfit hcast⟩
        have hlen : i + (c :: u).length = i + 1 + u.length := by simp; omega
        rw [List.cons_append, spread_step hfit, hspread, hlen]
        rfl
      | some parts =>
        obtain ⟨hne, v, hv⟩ := hin [] (c :: u) parts rfl (by simp) hfit
        have hlen : (c :: u).length = parts.flatten.length + v.length := by
          rw [← hv, List.length_append]
        have hpos := List.length_pos_iff.2 hne
        rw [← List.cons_append, ← hv, List.append_assoc] at hfit
        obtain ⟨u', hspread, hcast⟩ := ih v.length (by omega) (b := endOf b parts.flatten)
          (i := i + parts.flatten.length) (u := v)
          (fun k hk => by
            have := hcode (parts.flatten.length + k) (by omega)
            rwa [Nat.add_assoc])
          (stays_behind (by rw [hv]; exact hin)) rfl
        refine ⟨s.replacement ⟨i, parts⟩ ++ u', ?_, ?_⟩
        · have hhead := hcode 0 (by simp)
          rw [Nat.add_zero] at hhead
          rw [hlen, ← hv, List.append_assoc, spread_fit _ hne hfit rfl hhead, hspread,
            Text.endOf_append, List.append_assoc, Nat.add_assoc]
        · rw [← hv]
          exact .swap i hne hfit hcast

/-- Over a stretch whose fits all begin outside code. -/
theorem spread_kept {b : Option Char} {i : Nat} {u t : Text} (hin : s.Stays b u t)
    (hmasked : ∀ a v, u = a ++ v → v ≠ [] → s.pattern.fits? (endOf b a) (v ++ t) ≠ none →
      ms.getD (i + a.length) true = false) :
    s.spread ms b i (u ++ t) = u ++ s.spread ms (endOf b u) (i + u.length) t := by
  induction hn : u.length using Nat.strongRecOn generalizing b i u with
  | ind n ih =>
    subst hn
    cases u with
    | nil => rfl
    | cons c u =>
      cases hfit : s.pattern.fits? b (c :: (u ++ t)) with
      | none =>
        have hspread := ih u.length (by simp) (b := some c) (i := i + 1) (u := u)
          (stays_behind (a := [c]) hin)
          (fun a v hu hv hne => by
            have := hmasked (c :: a) v (by rw [hu]; rfl) hv hne
            rwa [List.length_cons, show i + (a.length + 1) = i + 1 + a.length by omega] at this) rfl
        have hlen : i + (c :: u).length = i + 1 + u.length := by simp; omega
        rw [List.cons_append, spread_step hfit, hspread, hlen]
        rfl
      | some parts =>
        obtain ⟨hne, v, hv⟩ := hin [] (c :: u) parts rfl (by simp) hfit
        have hlen : (c :: u).length = parts.flatten.length + v.length := by
          rw [← hv, List.length_append]
        have hpos := List.length_pos_iff.2 hne
        rw [← List.cons_append, ← hv, List.append_assoc] at hfit
        have hspread := ih v.length (by omega) (b := endOf b parts.flatten)
          (i := i + parts.flatten.length) (u := v) (stays_behind (by rw [hv]; exact hin))
          (fun a w hvw hw hnone => by
            have := hmasked (parts.flatten ++ a) w (by rw [← hv, hvw, List.append_assoc]) hw
              (by rw [Text.endOf_append]; exact hnone)
            rwa [List.length_append, ← Nat.add_assoc] at this) rfl
        have hhead := hmasked [] (c :: u) rfl (by simp) (by
          rw [← hv, List.append_assoc]
          simp [endOf, hfit])
        rw [List.length_nil, Nat.add_zero] at hhead
        rw [hlen, ← hv, List.append_assoc, spread_masked hne hfit rfl hhead, hspread,
          Text.endOf_append, List.append_assoc, Nat.add_assoc]

/-! Words of names and dots. -/

/-- The characters of qualified names. -/
def isChain (c : Char) : Bool := Text.isNamePart c || c == '.'

/-- The characters that substitutions take or bring in. -/
def isPlainMark (c : Char) : Bool := Text.isIdentifierPart c || isChain c

theorem chain_plain {c : Char} (h : isChain c = true) : isPlainMark c = true := by
  simp [isPlainMark, h]

/-- A substitution of qualified names. A dot that it brings in ends what it brings in, as it ended
what was taken, or stands in front of no letter of `extend`, `call` and `assets`. -/
structure Tame (s : Substitution) : Prop where
  fresh : ∀ {b t parts}, s.pattern.fits? b t = some parts → Pattern.freshName b = true
  taken : ∀ {b t parts}, s.pattern.fits? b t = some parts →
    parts.flatten ≠ [] ∧ ∀ c ∈ parts.flatten, isChain c = true
  given : ∀ {b t parts} (i : Nat), s.pattern.fits? b t = some parts →
    s.replacement ⟨i, parts⟩ ≠ [] ∧ ∀ c ∈ s.replacement ⟨i, parts⟩, isPlainMark c = true
  dots : ∀ {b t parts} (i : Nat) (a x : Text), s.pattern.fits? b t = some parts →
    s.replacement ⟨i, parts⟩ = a ++ '.' :: x →
      (x = [] ∧ ∃ y, parts.flatten = y ++ ['.']) ∨ ∃ c y, x = c :: y ∧ c ∉ ['e', 'c', 'a']

section

variable {t u u' : Text} {b : Option Char} (hs : s.Tame)
include hs

theorem tame_stays (b : Option Char) (u : Text) {c : Char} (hc : isChain c = false) (t : Text) :
    s.Stays b u (c :: t) := by
  intro a v parts _ _ hfit
  obtain ⟨hne, hall⟩ := hs.taken hfit
  refine ⟨hne, ?_⟩
  obtain ⟨_, r, hr⟩ := Pattern.fits_some.1 hfit
  exact Text.prefix_of_not_mem (Text.not_mem_of_all hall hc) ⟨r, (Piece.readAll_flatten hr).symm⟩

theorem recast_chars (h : Recast s t b u u') : ∀ c ∈ u', c ∈ u ∨ isPlainMark c = true := by
  induction h with
  | done b => simp
  | keep hfit _ ih =>
    intro c hc
    rcases List.mem_cons.1 hc with rfl | hc
    · exact Or.inl (by simp)
    · exact (ih c hc).imp_left fun h => by simp [h]
  | swap i hne hfit _ ih =>
    intro c hc
    rcases List.mem_append.1 hc with hc | hc
    · exact Or.inr ((hs.given i hfit).2 c hc)
    · exact (ih c hc).imp_left fun h => by simp only [List.mem_append, h, or_true]

/-- The characters of a class without plain marks stay. -/
theorem recast_filter {p : Char → Bool} (hp : ∀ c, isPlainMark c = true → p c = false)
    (h : Recast s t b u u') : u'.filter p = u.filter p := by
  have hnone : ∀ w : Text, (∀ c ∈ w, isPlainMark c = true) → w.filter p = [] := by
    intro w hw
    exact List.filter_eq_nil_iff.2 fun c hc => by simp [hp c (hw c hc)]
  induction h with
  | done b => rfl
  | keep _ _ ih => rw [List.filter_cons, List.filter_cons, ih]
  | swap i _ hfit _ ih =>
    rw [List.filter_append, List.filter_append, ih, hnone _ (hs.given i hfit).2,
      hnone _ fun c hc => chain_plain ((hs.taken hfit).2 c hc)]

theorem recast_prefix_absent {w : Text} (hw : ∀ c ∈ w, isPlainMark c = false)
    (h : Recast s t b u u') (hpre : w <+: u') : w <+: u := by
  induction h generalizing w with
  | done b => exact hpre
  | keep _ _ ih =>
    cases w with
    | nil => exact List.nil_prefix
    | cons d w =>
      obtain ⟨hd, hpre⟩ := List.cons_prefix_cons.1 hpre
      exact List.cons_prefix_cons.2 ⟨hd, ih (fun x hx => hw x (by simp [hx])) hpre⟩
  | swap i _ hfit _ _ =>
    cases w with
    | nil => exact List.nil_prefix
    | cons d w =>
      obtain ⟨hne, hall⟩ := hs.given i hfit
      obtain ⟨c, r, hr⟩ := List.exists_cons_of_ne_nil hne
      rw [hr] at hpre
      have hd := (List.cons_prefix_cons.1 hpre).1
      have h1 := hall c (by rw [hr]; simp)
      have h2 := hw d (by simp)
      rw [hd, h1] at h2
      simp at h2

/-- A word without plain marks is not brought in. -/
theorem recast_absent {w : Text} (hne : w ≠ []) (hw : ∀ c ∈ w, isPlainMark c = false)
    (h : Recast s t b u u') (hin : w <:+: u') : w <:+: u := by
  induction h with
  | done b => exact hin
  | keep hfit hcast ih =>
    rcases List.infix_cons_iff.1 hin with hpre | hin
    · exact (recast_prefix_absent hs hw (.keep hfit hcast) hpre).isInfix
    · exact (ih hin).trans (List.suffix_cons _ _).isInfix
  | swap i _ hfit _ ih =>
    obtain ⟨d, w, rfl⟩ := List.exists_cons_of_ne_nil hne
    have hd : d ∉ s.replacement ⟨i, _⟩ := fun hd => by
      have := (hs.given i hfit).2 d hd
      rw [hw d (by simp)] at this
      simp at this
    exact (ih (Text.infix_right_of_head hd hin)).trans (List.suffix_append _ _).isInfix

/-- Behind a character of a qualified name, a name comes from the stretch itself. -/
theorem recast_prefix_name {x : Text} {d : Char} (hb : Pattern.freshName b = false)
    (hx : ∀ c ∈ x, Text.isNamePart c = true) (h : Recast s t b u u') (hpre : x ++ [d] <+: u') :
    x ++ [d] <+: u := by
  induction h generalizing x with
  | done b => exact hpre
  | swap i _ hfit _ _ => simp [hs.fresh hfit] at hb
  | keep _ _ ih =>
    cases x with
    | nil =>
      obtain ⟨hd, _⟩ := List.cons_prefix_cons.1 hpre
      exact List.cons_prefix_cons.2 ⟨hd, List.nil_prefix⟩
    | cons e x =>
      obtain ⟨he, hpre⟩ := List.cons_prefix_cons.1 hpre
      have hpart := hx e (by simp)
      have hnext := ih (by simp [Pattern.freshName, ← he, hpart]) (fun c hc => hx c (by simp [hc]))
        hpre
      exact List.cons_prefix_cons.2 ⟨he, hnext⟩

/-- None of the words `.extend(`, `.call(` and `.assets` is brought in. -/
theorem recast_dotted {x : Text} {d : Char} (hx : ∀ c ∈ x, Text.isNamePart c = true)
    (hhead : ∃ c ∈ (x ++ [d]).head?, c ∈ ['e', 'c', 'a']) (h : Recast s t b u u')
    (hin : '.' :: (x ++ [d]) <:+: u') : '.' :: (x ++ [d]) <:+: u := by
  have hdot : Pattern.freshName (some '.') = false := by decide
  induction h with
  | done b => exact hin
  | keep _ hcast ih =>
    rcases List.infix_cons_iff.1 hin with hpre | hin
    · obtain ⟨hd, hpre⟩ := List.cons_prefix_cons.1 hpre
      have hpre := recast_prefix_name hs (by rw [← hd]; exact hdot) hx hcast hpre
      exact (List.cons_prefix_cons.2 ⟨hd, hpre⟩).isInfix
    · exact (ih hin).trans (List.suffix_cons _ _).isInfix
  | @swap b parts v v' i hne hfit hcast ih =>
    obtain ⟨p, q, hpq⟩ := hin
    rw [List.append_assoc] at hpq
    rcases List.append_eq_append_iff.1 hpq with ⟨y, hy, hrest⟩ | ⟨y, hp, hrest⟩
    · cases y with
      | nil =>
        have hin : '.' :: (x ++ [d]) <:+: v' := ⟨[], q, by simpa using hrest⟩
        exact (ih hin).trans (List.suffix_append _ _).isInfix
      | cons e y =>
        obtain ⟨he, hrest⟩ := List.cons.inj hrest
        rw [← he] at hy
        rcases hs.dots i p y hfit hy with ⟨rfl, z, hz⟩ | ⟨c, r, rfl, hc⟩
        · have hpre : x ++ [d] <+: v' := ⟨q, by simpa using hrest⟩
          have hend : endOf b parts.flatten = some '.' := by rw [hz, Text.endOf_concat]
          obtain ⟨r, hr⟩ := recast_prefix_name hs (by rw [hend]; exact hdot) hx hcast hpre
          exact ⟨z, r, by rw [hz, ← hr]; simp⟩
        · obtain ⟨c', hc', hmem⟩ := hhead
          have : (x ++ [d]).head? = some c := by
            have := congrArg List.head? hrest
            cases x <;> simpa using this
          rw [this, Option.mem_some_iff] at hc'
          exact absurd (hc' ▸ hmem) hc
    · have hin : '.' :: (x ++ [d]) <:+: v' := ⟨y, q, by rw [List.append_assoc]; exact hrest.symm⟩
      exact (ih hin).trans (List.suffix_append _ _).isInfix

end

end Restage.Legacy.Substitution
