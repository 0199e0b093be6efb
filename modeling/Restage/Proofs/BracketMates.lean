import Restage.Proofs.BraceCounts

/-!
Mates among brackets. Every closer of a text whose brackets pair up has one opener for its mate, and a
repainting that leaves openers openers and closers closers keeps the text balanced just if it keeps mates
of one kind (`repainted_iff`). The bracket behind a function in brackets is the mate of the one in front
of it, unless the parameters have an opener of their own (`wrapped_mate`).
-/

set_option autoImplicit false

namespace Restage.Script

/-- A character and its position. -/
abbrev Placed := Char × Nat

/-- Pairing up placed characters; the open brackets keep their places. -/
def pairPlaced : List Placed → List Placed → Option (List Placed)
  | st, [] => some st
  | st, p :: ps =>
    if (closerOf? p.1).isSome then pairPlaced (p :: st) ps
    else if isCloser p.1 then
      match st with
      | [] => none
      | o :: os => if closerOf? o.1 = some p.1 then pairPlaced os ps else none
    else pairPlaced st ps

/-- The closers of a text, each with the opener that it takes off the stack. -/
def matesFrom : List Placed → List Placed → List (Placed × Placed)
  | _, [] => []
  | st, p :: ps =>
    if (closerOf? p.1).isSome then matesFrom (p :: st) ps
    else if isCloser p.1 then
      match st with
      | [] => matesFrom [] ps
      | o :: os => (o, p) :: matesFrom os ps
    else matesFrom st ps

def mates (t : Text) : List (Placed × Placed) := matesFrom [] t.zipIdx

theorem closer_not_opener {c : Char} (h : isCloser c = true) : (closerOf? c).isSome = false := by
  have hclosers : c = '}' ∨ c = ')' ∨ c = ']' := by simpa [isCloser, or_assoc] using h
  rcases hclosers with rfl | rfl | rfl <;> rfl

theorem round_opener {c : Char} (h : closerOf? c = some ')') : c = '(' := by
  revert h
  unfold closerOf?
  split <;> simp

theorem brace_opener {c : Char} (h : closerOf? c = some '}') : c = '{' := by
  revert h
  unfold closerOf?
  split <;> simp

theorem closer_not_round {c : Char} : closerOf? c ≠ some '(' := by
  unfold closerOf?
  split <;> simp

theorem placed_char {t : Text} {k : Nat} {p : Placed} (h : p ∈ t.zipIdx k) : p.1 ∈ t := by
  have hchar := List.mem_map_of_mem (f := Prod.fst) h
  rwa [List.zipIdx_map_fst] at hchar

section

variable {st st' : List Placed} {ps qs : List Placed}

theorem pair_placed_opener {p : Placed} (hp : (closerOf? p.1).isSome = true) :
    pairPlaced st (p :: ps) = pairPlaced (p :: st) ps := by
  cases st <;> simp [pairPlaced, hp]

/-- A closer takes the opener on top of the stack, which it has to fit. -/
theorem pair_placed_closer {o p : Placed} (hp : isCloser p.1 = true) :
    pairPlaced (o :: st) (p :: ps) = some st' ↔
      closerOf? o.1 = some p.1 ∧ pairPlaced st ps = some st' := by
  simp [pairPlaced, closer_not_opener hp, hp]

theorem pair_placed_plain {p : Placed} (hp : isBracket p.1 = false) :
    pairPlaced st (p :: ps) = pairPlaced st ps := by
  rw [isBracket, Bool.or_eq_false_iff] at hp
  cases st <;> simp [pairPlaced, hp]

theorem pair_placed_chars (st ps : List Placed) :
    (pairPlaced st ps).map (·.map Prod.fst) = pairUp (st.map Prod.fst) (ps.map Prod.fst) := by
  fun_induction pairPlaced st ps with
  | case1 st => rfl
  | case2 st p ps hp ih => simpa [pairUp, hp] using ih
  | case3 p ps hp hcl => simp [pairUp, hp, hcl]
  | case4 p ps hp hcl o os ho ih => simpa [pairUp, hp, hcl, ho] using ih
  | case5 p ps hp hcl o os ho => simp [pairUp, hp, hcl, ho]
  | case6 st p ps hp hcl ih => simpa [pairUp, hp, hcl] using ih

theorem balanced_placed {t : Text} (k : Nat) : Balanced t ↔ pairPlaced [] (t.zipIdx k) = some [] := by
  have hchars := pair_placed_chars [] (t.zipIdx k)
  rw [List.zipIdx_map_fst, List.map_nil] at hchars
  rw [Balanced, ← hchars]
  cases pairPlaced [] (t.zipIdx k) <;> simp

theorem pair_placed_append (st ps qs : List Placed) :
    pairPlaced st (ps ++ qs) = (pairPlaced st ps).bind fun st' => pairPlaced st' qs := by
  fun_induction pairPlaced st ps with
  | case1 st => rfl
  | case2 st p ps hp ih => simp [pairPlaced, hp, ih]
  | case3 p ps hp hcl => simp [pairPlaced, hp, hcl]
  | case4 p ps hp hcl o os ho ih => simp [pairPlaced, hp, hcl, ho, ih]
  | case5 p ps hp hcl o os ho => simp [pairPlaced, hp, hcl, ho]
  | case6 st p ps hp hcl ih => simp [pairPlaced, hp, hcl, ih]

theorem mates_append (h : pairPlaced st ps = some st') :
    matesFrom st (ps ++ qs) = matesFrom st ps ++ matesFrom st' qs := by
  fun_induction pairPlaced st ps with
  | case1 st =>
    rw [Option.some.injEq] at h
    rw [h]
    rfl
  | case2 st p ps hp ih => simpa [matesFrom, hp] using ih h
  | case3 p ps hp hcl => simp at h
  | case4 p ps hp hcl o os ho ih => simpa [matesFrom, hp, hcl] using ih h
  | case5 p ps hp hcl o os ho => simp at h
  | case6 st p ps hp hcl ih => simpa [matesFrom, hp, hcl] using ih h

/-- The stack holds openers of the text, or what it held. -/
theorem pair_placed_mem (h : pairPlaced st ps = some st') {p : Placed} (hp : p ∈ st') :
    p ∈ st ∨ p ∈ ps ∧ (closerOf? p.1).isSome := by
  fun_induction pairPlaced st ps with
  | case1 st =>
    rw [Option.some.injEq] at h
    exact Or.inl (h ▸ hp)
  | case2 st q ps hq ih =>
    rcases ih h with hin | ⟨hin, hsome⟩
    · rcases List.mem_cons.1 hin with rfl | hin
      · exact Or.inr ⟨by simp, hq⟩
      · exact Or.inl hin
    · exact Or.inr ⟨List.mem_cons_of_mem _ hin, hsome⟩
  | case3 q ps hq hcl => simp at h
  | case4 q ps hq hcl o os ho ih =>
    rcases ih h with hin | ⟨hin, hsome⟩
    · exact Or.inl (List.mem_cons_of_mem _ hin)
    · exact Or.inr ⟨List.mem_cons_of_mem _ hin, hsome⟩
  | case5 q ps hq hcl o os ho => simp at h
  | case6 st q ps hq hcl ih =>
    rcases ih h with hin | ⟨hin, hsome⟩
    · exact Or.inl hin
    · exact Or.inr ⟨List.mem_cons_of_mem _ hin, hsome⟩

/-- An opener in the stack stays there, or some closer of the text takes it when all above it is gone. -/
theorem pair_placed_popped {above below : List Placed} {o : Placed}
    (h : pairPlaced (above ++ o :: below) ps = some st') :
    (∃ left, st' = left ++ o :: below ∧ pairPlaced above ps = some left) ∨
      ∃ us c vs, ps = us ++ c :: vs ∧ pairPlaced above us = some [] ∧ closerOf? o.1 = some c.1 := by
  induction ps generalizing above with
  | nil =>
    rw [pairPlaced, Option.some.injEq] at h
    exact Or.inl ⟨above, h.symm, rfl⟩
  | cons p ps ih =>
    cases hp : (closerOf? p.1).isSome with
    | true =>
      rw [pair_placed_opener hp, ← List.cons_append] at h
      rcases ih h with ⟨left, hst, hrun⟩ | ⟨us, c, vs, rfl, hrun, hmate⟩
      · exact Or.inl ⟨left, hst, (pair_placed_opener hp).trans hrun⟩
      · exact Or.inr ⟨p :: us, c, vs, rfl, (pair_placed_opener hp).trans hrun, hmate⟩
    | false =>
      cases hcl : isCloser p.1 with
      | true =>
        cases above with
        | nil =>
          rw [List.nil_append, pair_placed_closer hcl] at h
          exact Or.inr ⟨[], p, ps, rfl, rfl, h.1⟩
        | cons a above =>
          rw [List.cons_append, pair_placed_closer hcl] at h
          obtain ⟨hfit, h⟩ := h
          rcases ih h with ⟨left, hst, hrun⟩ | ⟨us, c, vs, rfl, hrun, hmate⟩
          · exact Or.inl ⟨left, hst, (pair_placed_closer hcl).2 ⟨hfit, hrun⟩⟩
          · exact Or.inr ⟨p :: us, c, vs, rfl, (pair_placed_closer hcl).2 ⟨hfit, hrun⟩, hmate⟩
      | false =>
        have hplain : isBracket p.1 = false := by rw [isBracket, hp, hcl]; rfl
        rw [pair_placed_plain hplain] at h
        rcases ih h with ⟨left, hst, hrun⟩ | ⟨us, c, vs, rfl, hrun, hmate⟩
        · exact Or.inl ⟨left, hst, (pair_placed_plain hplain).trans hrun⟩
        · exact Or.inr ⟨p :: us, c, vs, rfl, (pair_placed_plain hplain).trans hrun, hmate⟩

theorem pair_placed_sole {below : List Placed} {o : Placed}
    (h : pairPlaced (o :: below) ps = some st') :
    (∃ left, st' = left ++ o :: below ∧ pairPlaced [] ps = some left) ∨
      ∃ us c vs, ps = us ++ c :: vs ∧ pairPlaced [] us = some [] ∧ closerOf? o.1 = some c.1 :=
  @pair_placed_popped _ _ [] _ _ h

theorem pair_placed_below (h : pairPlaced st ps = some st') (below : List Placed) :
    pairPlaced (st ++ below) ps = some (st' ++ below) := by
  fun_induction pairPlaced st ps with
  | case1 st =>
    rw [Option.some.injEq] at h
    rw [h]
    rfl
  | case2 st p ps hp ih => simpa [pairPlaced, hp] using ih h
  | case3 p ps hp hcl => simp at h
  | case4 p ps hp hcl o os ho ih => simpa [pairPlaced, hp, hcl, ho] using ih h
  | case5 p ps hp hcl o os ho => simp at h
  | case6 st p ps hp hcl ih => simpa [pairPlaced, hp, hcl] using ih h

/-- A stretch that pairs up leaves the stack as it was. -/
theorem placed_over {t : Text} (h : Balanced t) (k : Nat) (st : List Placed) :
    pairPlaced st (t.zipIdx k) = some st :=
  pair_placed_below ((balanced_placed k).1 h) st

end

/-! One mate for each. -/

section

variable {st ps : List Placed}

theorem mates_closers (st ps : List Placed) : ((matesFrom st ps).map (·.2)).Sublist ps := by
  fun_induction matesFrom st ps with
  | case1 => simp
  | case2 st p ps hp ih => exact ih.cons _
  | case3 p ps hp hcl ih => exact ih.cons _
  | case4 p ps hp hcl o os ih => exact ih.cons_cons _
  | case5 st p ps hp hcl ih => exact ih.cons _

theorem mates_openers (h : (st ++ ps).Nodup) : ((matesFrom st ps).map (·.1)).Nodup ∧
    ∀ o ∈ (matesFrom st ps).map (·.1), o ∈ st ∨ o ∈ ps := by
  fun_induction matesFrom st ps with
  | case1 => simp
  | case2 st p ps hp ih =>
    have hperm : (st ++ p :: ps).Perm (p :: st ++ ps) := by
      rw [List.cons_append]
      exact List.perm_middle
    obtain ⟨hnodup, hmem⟩ := ih (hperm.nodup_iff.1 h)
    refine ⟨hnodup, fun o ho => ?_⟩
    rcases hmem o ho with hin | hin
    · rcases List.mem_cons.1 hin with rfl | hin
      · exact Or.inr (by simp)
      · exact Or.inl hin
    · exact Or.inr (List.mem_cons_of_mem _ hin)
  | case3 p ps hp hcl ih =>
    obtain ⟨hnodup, hmem⟩ := ih (by simpa using (List.nodup_cons.1 h).2)
    exact ⟨hnodup, fun o ho => Or.inr (List.mem_cons_of_mem _ ((hmem o ho).resolve_left (by simp)))⟩
  | case4 p ps hp hcl o os ih =>
    rw [List.cons_append, List.nodup_cons] at h
    have hrest : (os ++ ps).Nodup := h.2.sublist (List.sublist_cons_self p ps |>.append_left os)
    obtain ⟨hnodup, hmem⟩ := ih hrest
    refine ⟨?_, fun q hq => ?_⟩
    · rw [List.map_cons, List.nodup_cons]
      refine ⟨fun hin => h.1 ?_, hnodup⟩
      rw [List.mem_append, List.mem_cons]
      exact (hmem o hin).imp_right Or.inr
    · rcases List.mem_cons.1 hq with rfl | hq
      · exact Or.inl (by simp)
      · rcases hmem q hq with hin | hin
        · exact Or.inl (List.mem_cons_of_mem _ hin)
        · exact Or.inr (List.mem_cons_of_mem _ hin)
  | case5 st p ps hp hcl ih =>
    have hrest : (st ++ ps).Nodup := h.sublist (List.sublist_cons_self p ps |>.append_left st)
    obtain ⟨hnodup, hmem⟩ := ih hrest
    exact ⟨hnodup, fun o ho => (hmem o ho).imp_right (List.mem_cons_of_mem _)⟩

theorem placed_nodup (t : Text) (k : Nat) : (t.zipIdx k).Nodup :=
  List.Nodup.of_map Prod.snd (by rw [List.zipIdx_map_snd]; exact List.nodup_range')

theorem mate_of_closer {t : Text} {o o' c : Placed} (h : (o, c) ∈ mates t) (h' : (o', c) ∈ mates t) :
    o = o' := by
  have hnodup : ((mates t).map (·.2)).Nodup := (placed_nodup t 0).sublist (mates_closers [] _)
  exact congrArg (·.1) (List.inj_on_of_nodup_map hnodup h h' rfl)

theorem mate_of_opener {t : Text} {o c c' : Placed} (h : (o, c) ∈ mates t) (h' : (o, c') ∈ mates t) :
    c = c' := by
  have hnodup : ((mates t).map (·.1)).Nodup := (mates_openers (by simpa using placed_nodup t 0)).1
  exact congrArg (·.2) (List.inj_on_of_nodup_map hnodup h h' rfl)

theorem mate_in {t : Text} {o c : Placed} (h : (o, c) ∈ mates t) : o ∈ t.zipIdx ∧ c ∈ t.zipIdx := by
  refine ⟨?_, (mates_closers [] t.zipIdx).subset (List.mem_map_of_mem h)⟩
  exact ((mates_openers (by simpa using placed_nodup t 0)).2 o (List.mem_map_of_mem h)).resolve_left
    (by simp)

end

/-! Repainting. -/

/-- A painting leaves an opener an opener, and a closer a closer. -/
structure SameKind (f : Placed → Char) (p : Placed) : Prop where
  opens : (closerOf? (f p)).isSome = (closerOf? p.1).isSome
  closes : isCloser (f p) = isCloser p.1

theorem same_kind_kept {f : Placed → Char} {p : Placed} (h : f p = p.1) : SameKind f p :=
  ⟨by rw [h], by rw [h]⟩

theorem painted_run {f : Placed → Char} {st st' ps : List Placed} (hf : ∀ p ∈ ps, SameKind f p)
    (h : pairPlaced st ps = some st') : pairUp (st.map f) (ps.map f) = some (st'.map f) ↔
      ∀ m ∈ matesFrom st ps, closerOf? (f m.1) = some (f m.2) := by
  induction ps generalizing st with
  | nil =>
    rw [pairPlaced, Option.some.injEq] at h
    simp [pairUp, matesFrom, h]
  | cons p ps ih =>
    have hp := hf p (by simp)
    have ih := fun st => @ih st fun q hq => hf q (by simp [hq])
    rw [List.map_cons]
    cases hopen : (closerOf? p.1).isSome with
    | true =>
      rw [pair_placed_opener hopen] at h
      have hmates : matesFrom st (p :: ps) = matesFrom (p :: st) ps := by
        cases st <;> simp [matesFrom, hopen]
      have hstep : pairUp (st.map f) (f p :: ps.map f) = pairUp ((p :: st).map f) (ps.map f) := by
        cases st <;> simp [pairUp, hp.opens, hopen]
      rw [hstep, hmates]
      exact ih _ h
    | false =>
      cases hclose : isCloser p.1 with
      | true =>
        cases st with
        | nil => simp [pairPlaced, hopen, hclose] at h
        | cons o os =>
          have hmates : matesFrom (o :: os) (p :: ps) = (o, p) :: matesFrom os ps := by
            simp [matesFrom, hopen, hclose]
          have hstep : pairUp ((o :: os).map f) (f p :: ps.map f) =
              if closerOf? (f o) = some (f p) then pairUp (os.map f) (ps.map f) else none := by
            simp [pairUp, hp.opens, hp.closes, hopen, hclose]
          rw [pair_placed_closer hclose] at h
          rw [hstep, hmates, List.forall_mem_cons, ← ih _ h.2]
          by_cases hfit : closerOf? (f o) = some (f p) <;> simp [hfit]
      | false =>
        have hplain : isBracket p.1 = false := by rw [isBracket, hopen, hclose]; rfl
        rw [pair_placed_plain hplain] at h
        have hmates : matesFrom st (p :: ps) = matesFrom st ps := by
          cases st <;> simp [matesFrom, hopen, hclose]
        have hstep : pairUp (st.map f) (f p :: ps.map f) = pairUp (st.map f) (ps.map f) := by
          cases st <;> simp [pairUp, hp.opens, hp.closes, hopen, hclose]
        rw [hstep, hmates]
        exact ih _ h

/-- A repainted text pairs up just if all mates still fit. -/
theorem repainted_iff {f : Placed → Char} {t : Text} (ht : Balanced t)
    (hf : ∀ p ∈ t.zipIdx, SameKind f p) : Balanced (t.zipIdx.map f) ↔
      ∀ m ∈ mates t, closerOf? (f m.1) = some (f m.2) :=
  painted_run hf ((balanced_placed 0).1 ht)

theorem painted_kept {f : Placed → Char} {t : Text} {k : Nat} (h : ∀ p ∈ t.zipIdx k, f p = p.1) :
    (t.zipIdx k).map f = t := by
  rw [List.map_congr_left h, List.zipIdx_map_fst]

/-- A text in which one character is painted over. -/
theorem painted_at {f : Placed → Char} {u w : Text} {a b : Char} {k : Nat}
    (h : ∀ p ∈ (u ++ a :: w).zipIdx k, f p = if p.2 = k + u.length then b else p.1) :
    ((u ++ a :: w).zipIdx k).map f = u ++ b :: w := by
  rw [List.zipIdx_append, List.zipIdx_cons] at h ⊢
  have hfront : (u.zipIdx k).map f = u := painted_kept fun p hp => by
    have := List.snd_lt_add_of_mem_zipIdx hp
    rw [h p (List.mem_append_left _ hp), if_neg (by omega)]
  have hback : (w.zipIdx (k + u.length + 1)).map f = w := painted_kept fun p hp => by
    have := List.le_snd_of_mem_zipIdx hp
    rw [h p (List.mem_append_right _ (List.mem_cons_of_mem _ hp)), if_neg (by omega)]
  rw [List.map_append, List.map_cons, hfront, hback, h (a, k + u.length) (by simp), if_pos rfl]

/-- Texts that do the same to every stack of open brackets. -/
def Alike (u v : Text) : Prop := ∀ st, pairUp st u = pairUp st v

theorem alike_append {u u' v v' : Text} (hu : Alike u u') (hv : Alike v v') :
    Alike (u ++ v) (u' ++ v') := by
  intro st
  rw [pair_append, pair_append, hu st, funext hv]

theorem alike_brackets {u v : Text} (h : u.filter isBracket = v.filter isBracket) : Alike u v := by
  intro st
  rw [← pair_brackets, h, pair_brackets]

/-- A stretch that pairs up can be left out. -/
theorem alike_over {u v : Text} (hv : Balanced v) : Alike (u ++ v) u := by
  intro st
  rw [pair_append]
  cases hu : pairUp st u with
  | none => rfl
  | some st' => exact balanced_over hv st'

/-! A function in brackets. -/

section

variable {st : List Placed}

theorem unbracketed_over {t : Text} (h : ∀ c ∈ t, isBracket c = false) (k : Nat) (st : List Placed) :
    pairPlaced st (t.zipIdx k) = some st := placed_over (balanced_without h) k st

/-- What is left of a text without closing round brackets fits none if the text opens none, and has an
opening one else. -/
theorem round_left {raw : Text} {k : Nat} (hraw : ')' ∉ raw) {left : List Placed}
    (h : pairPlaced [] (raw.zipIdx k) = some left) : left = [] → '(' ∉ raw := by
  rintro rfl hin
  obtain ⟨u, w, rfl⟩ := List.append_of_mem hin
  rw [List.zipIdx_append, List.zipIdx_cons, pair_placed_append, Option.bind_eq_some_iff] at h
  obtain ⟨st, _, h⟩ := h
  rw [pair_placed_opener rfl] at h
  rcases pair_placed_sole h with ⟨left, hnil, _⟩ | ⟨us, c, vs, hcut, _, hmate⟩
  · simp at hnil
  · have hclose : c.1 = ')' := (Option.some.inj hmate).symm
    have hmem : c ∈ w.zipIdx (k + u.length + 1) := by simp [hcut]
    have hchar : ')' ∈ w := by
      have := List.mem_map_of_mem (f := Prod.fst) hmem
      rwa [List.zipIdx_map_fst, hclose] at this
    exact hraw (by simp [hchar])

/-- What stands between a brace and the one that closes it pairs up. -/
theorem inner_balanced {inner : Text} (hnet : net inner = 0) (hbelow : NeverBelow 0 inner) {k i j : Nat}
    {rest : List Placed} {st' : List Placed}
    (h : pairPlaced (('{', i) :: st) (inner.zipIdx k ++ ('}', j) :: rest) = some st') :
    Balanced inner := by
  rw [pair_placed_append, Option.bind_eq_some_iff] at h
  obtain ⟨mid, hinner, hrest⟩ := h
  have hchars : ∀ {us : List Placed} {left : List Placed}, pairPlaced [] us = some left →
      pairUp [] (us.map Prod.fst) = some (left.map Prod.fst) := by
    intro us left hus
    have := pair_placed_chars [] us
    rw [hus] at this
    exact this.symm
  rcases pair_placed_sole hinner with ⟨left, rfl, hleft⟩ | ⟨us, c, vs, hcut, hus, hmate⟩
  · have hcount := pair_count (hchars hleft)
    rw [List.zipIdx_map_fst, hnet] at hcount
    cases left with
    | nil => exact (balanced_placed k).2 hleft
    | cons o left =>
      rw [List.cons_append, pair_placed_closer rfl] at hrest
      simp only [List.map_cons, List.count_nil, brace_opener hrest.1, List.count_cons_self] at hcount
      omega
  · have hclose : c.1 = '}' := (Option.some.inj hmate).symm
    have hnone := pair_count (hchars hus)
    have hprefix : us.map Prod.fst ++ ['}'] <+: inner := by
      refine ⟨vs.map Prod.fst, ?_⟩
      have hmap := congrArg (List.map Prod.fst) hcut
      rw [List.zipIdx_map_fst, List.map_append, List.map_cons, hclose] at hmap
      rw [hmap]
      simp
    have hlow := hbelow _ hprefix
    rw [net_append] at hlow
    have hlast : net ['}'] = -1 := by decide
    simp only [List.map_nil, List.count_nil, Nat.cast_zero, Int.zero_add] at hnone
    rw [← hnone, hlast] at hlow
    omega

end

/-- A function in brackets, with its parameters in brackets of their own. -/
structure Wrapped where
  before : Text
  keyword : Text
  raw : Text
  gap : Text
  inner : Text
  space : Text
  after : Text

namespace Wrapped

/-- What stands in front of the last bracket. -/
def front (w : Wrapped) : Text :=
  w.before ++ '(' :: (w.keyword ++ '(' :: (w.raw ++ ')' :: (w.gap ++ '{' :: (w.inner ++ '}' ::
    w.space))))

def text (w : Wrapped) : Text := w.front ++ ')' :: w.after

/-- Where the parameters end. -/
def paramsEnd (w : Wrapped) : Nat := w.before.length + 1 + w.keyword.length + 1 + w.raw.length

structure Formed (w : Wrapped) : Prop where
  keyword : ∀ c ∈ w.keyword, isBracket c = false
  raw : ')' ∉ w.raw
  gap : ∀ c ∈ w.gap, isBracket c = false
  space : ∀ c ∈ w.space, isBracket c = false
  net : net w.inner = 0
  below : NeverBelow 0 w.inner

/-- What follows the parameters leaves the top of the stack as it is. -/
theorem rest_keeps {w : Wrapped} (hw : w.Formed) {i : Nat} {g o : Placed} {gs os : List Placed}
    (h : pairPlaced (g :: gs) ((w.gap ++ '{' :: (w.inner ++ '}' :: w.space)).zipIdx i) =
      some (o :: os)) : g = o := by
  rw [List.zipIdx_append, pair_placed_append, unbracketed_over hw.gap, Option.bind_some,
    List.zipIdx_cons, pair_placed_opener rfl, List.zipIdx_append, List.zipIdx_cons] at h
  have hinner := inner_balanced hw.net hw.below h
  rw [pair_placed_append, placed_over hinner, Option.bind_some, pair_placed_closer rfl,
    unbracketed_over hw.space, Option.some.injEq] at h
  exact (List.cons.inj h.2).1

/-- The parameters close no bracket in front of them: what they leave open is put on the stack. -/
theorem raw_left {w : Wrapped} (hw : w.Formed) {k i : Nat} {st mid : List Placed}
    (h : pairPlaced (('(', i) :: st) (w.raw.zipIdx k) = some mid) :
    ∃ left, mid = left ++ ('(', i) :: st ∧ pairPlaced [] (w.raw.zipIdx k) = some left := by
  refine (pair_placed_sole h).resolve_right ?_
  rintro ⟨us, c, vs, hcut, _, hfit⟩
  have hmem : c ∈ us ++ c :: vs := by simp
  have hchar := placed_char (hcut ▸ hmem)
  rw [← Option.some.inj hfit] at hchar
  exact hw.raw hchar

/-- A bracket that the parameters leave open stands in them. -/
theorem left_placed {raw : Text} {k : Nat} {left : List Placed}
    (h : pairPlaced [] (raw.zipIdx k) = some left) {p : Placed} (hp : p ∈ left) :
    p.1 ∈ raw ∧ k ≤ p.2 ∧ p.2 < raw.length + k := by
  have hplaced := ((pair_placed_mem h hp).resolve_left (by simp)).1
  exact ⟨placed_char hplaced, List.le_snd_of_mem_zipIdx hplaced,
    Nat.add_comm k _ ▸ List.snd_lt_add_of_mem_zipIdx hplaced⟩

/-- The bracket on top of the stack behind the front of the text. -/
theorem front_top {w : Wrapped} (hw : w.Formed) {o : Placed} {os : List Placed}
    (hfront : pairPlaced [] (w.front.zipIdx 0) = some (o :: os)) :
    ('(' ∉ w.raw → o = ('(', w.before.length)) ∧
      ('(' ∈ w.raw → w.before.length < o.2 ∧ o.2 < w.paramsEnd) := by
  rw [front, List.zipIdx_append, pair_placed_append, Option.bind_eq_some_iff] at hfront
  obtain ⟨st, _, hfront⟩ := hfront
  rw [List.zipIdx_cons, pair_placed_opener rfl, List.zipIdx_append, pair_placed_append,
    unbracketed_over hw.keyword, Option.bind_some, List.zipIdx_cons, pair_placed_opener rfl,
    List.zipIdx_append, pair_placed_append, Option.bind_eq_some_iff, List.zipIdx_cons] at hfront
  obtain ⟨mid, hraw, hclose⟩ := hfront
  obtain ⟨left, rfl, hleft⟩ := raw_left hw hraw
  cases left with
  | nil =>
    rw [List.nil_append, pair_placed_closer rfl] at hclose
    refine ⟨fun _ => ?_, fun hin => absurd hin (round_left hw.raw hleft rfl)⟩
    rw [← rest_keeps hw hclose.2, Nat.zero_add]
  | cons r left =>
    rw [List.cons_append, pair_placed_closer rfl] at hclose
    have hin : '(' ∈ w.raw := by
      have hchar := (left_placed hleft List.mem_cons_self).1
      rwa [round_opener hclose.1] at hchar
    refine ⟨fun hnone => absurd hin hnone, fun _ => ?_⟩
    -- the bracket around the parameters, or one that they leave open
    cases left with
    | nil =>
      rw [List.nil_append] at hclose
      rw [← rest_keeps hw hclose.2, paramsEnd]
      have := List.length_pos_of_mem hin
      simp only
      omega
    | cons r' left =>
      rw [List.cons_append] at hclose
      rw [← rest_keeps hw hclose.2, paramsEnd]
      obtain ⟨_, h1, h2⟩ := left_placed hleft (p := r') (by simp)
      omega

/-- The last bracket is the mate of the first one, unless the parameters open brackets; then it is that
of a bracket between the first one and the end of the parameters. -/
theorem wrapped_mate {w : Wrapped} (hw : w.Formed) (hb : Balanced w.text) : ∃ o,
    (o, (')', w.front.length)) ∈ mates w.text ∧ o.1 = '(' ∧
      ('(' ∉ w.raw → o = ('(', w.before.length)) ∧
      ('(' ∈ w.raw → w.before.length < o.2 ∧ o.2 < w.paramsEnd) := by
  have hrun := (balanced_placed 0).1 hb
  rw [text, List.zipIdx_append, List.zipIdx_cons, pair_placed_append, Option.bind_eq_some_iff,
    Nat.zero_add] at hrun
  obtain ⟨st, hfront, hlast⟩ := hrun
  obtain ⟨o, os, rfl⟩ : ∃ o os, st = o :: os := by
    cases st with
    | nil => simp [pairPlaced, closerOf?, isCloser] at hlast
    | cons o os => exact ⟨o, os, rfl⟩
  have hmate : (o, (')', w.front.length)) ∈ mates w.text := by
    rw [mates, text, List.zipIdx_append, List.zipIdx_cons, mates_append hfront, Nat.zero_add]
    refine List.mem_append_right _ ?_
    simp [matesFrom, closerOf?, isCloser]
  exact ⟨o, hmate, round_opener ((pair_placed_closer rfl).1 hlast).1, front_top hw hfront⟩

end Wrapped

end Restage.Script
