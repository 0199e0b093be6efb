import Restage.Proofs.BraceLevels
import Restage.Proofs.BracketMates

/-!
Two readings of braces. A brace is closed by depth, and a stack takes brackets of all kinds off in
pairs. What the stack holds at a position are openers, each at the level of the braces below it
(`Held`), so its pairs of braces are those by depth (`read_paired`); in a script without a mismatch it
takes all brackets off, and the readings agree (`brace_readings`).
-/

set_option autoImplicit false

namespace Restage.Script

/-! The run of the stack. -/

/-- The pairs that the stack takes off among code characters, and where these first go wrong. -/
def readFrom : List Marked → List Marked → List (Marked × Marked) × Option (Marked × Option Marked)
  | [], [] => ([], none)
  | o :: _, [] => ([], some (o, none))
  | stack, m :: ms =>
    if (closerOf? m.char).isSome then readFrom (m :: stack) ms
    else if isCloser m.char then
      match stack with
      | [] => ([], some (m, none))
      | o :: os =>
        if closerOf? o.char = some m.char then
          ((o, m) :: (readFrom os ms).1, (readFrom os ms).2)
        else ([], some (m, some o))
    else readFrom stack ms

/-- The code characters of a script, in order. -/
def codeOf (t : Text) : List Marked := (marked t).filter (·.code)

/-- The positions of the braces that the stack takes off in pairs. -/
def bracePairs (t : Text) : List (Nat × Nat) :=
  ((readFrom [] (codeOf t)).1.filter (·.1.char = '{')).map fun p => (p.1.index, p.2.index)

section

variable {stack os ms : List Marked} {o m c : Marked}

theorem read_opener (hm : (closerOf? m.char).isSome = true) :
    readFrom stack (m :: ms) = readFrom (m :: stack) ms := by
  cases stack <;> simp [readFrom, hm]

theorem read_plain (hm : isBracket m.char = false) :
    readFrom stack (m :: ms) = readFrom stack ms := by
  rw [isBracket, Bool.or_eq_false_iff] at hm
  cases stack <;> simp [readFrom, hm]

theorem closer_fits {d e : Char} (h : closerOf? d = some e) : isCloser e = true := by
  revert h
  unfold closerOf?
  split <;> simp <;> (rintro rfl; rfl)

theorem read_closer (hfit : closerOf? o.char = some m.char) :
    readFrom (o :: os) (m :: ms) = ((o, m) :: (readFrom os ms).1, (readFrom os ms).2) := by
  have hm := closer_fits hfit
  simp [readFrom, closer_not_opener hm, hm, hfit]

/-- The run goes wrong where the brackets first do. -/
theorem read_verdict (stack ms : List Marked) : (readFrom stack ms).2 = mismatchFrom stack ms := by
  fun_induction mismatchFrom stack ms with
  | case1 => rfl
  | case2 o os => rfl
  | case3 st m ms hc ih => rw [read_opener hc, ih]
  | case4 m ms hc hcl => simp [readFrom, hc, hcl]
  | case5 m ms hc hcl o os ho ih => rw [read_closer ho, ih]
  | case6 m ms hc hcl o os ho => simp [readFrom, hc, hcl, ho]
  | case7 st m ms hc hcl ih => rw [read_plain (by simp [isBracket, hc, hcl]), ih]

/-- A run without a mismatch takes every opener off with some closer. -/
theorem read_openers (h : mismatchFrom stack ms = none)
    (ho : o ∈ stack ∨ o ∈ ms ∧ (closerOf? o.char).isSome = true) :
    ∃ c, (o, c) ∈ (readFrom stack ms).1 := by
  fun_induction mismatchFrom stack ms with
  | case1 => simp at ho
  | case2 p os => simp at h
  | case3 st m ms hm ih =>
    rw [read_opener hm]
    refine ih h ?_
    simp only [List.mem_cons] at ho ⊢
    tauto
  | case4 m ms hm hcl => simp at h
  | case5 m ms hm hcl p os hp ih =>
    rw [read_closer hp]
    by_cases hop : o = p
    · exact ⟨m, by simp [hop]⟩
    · have hrest : o ∈ os ∨ o ∈ ms ∧ (closerOf? o.char).isSome = true := by
        simp only [List.mem_cons] at ho
        rcases ho with (h | h) | ⟨rfl | h, hsome⟩
        · exact absurd h hop
        · exact Or.inl h
        · exact absurd hsome hm
        · exact Or.inr ⟨h, hsome⟩
      obtain ⟨c, hmem⟩ := ih h hrest
      exact ⟨c, List.mem_cons_of_mem _ hmem⟩
  | case6 m ms hm hcl p os hp => simp at h
  | case7 st m ms hm hcl ih =>
    rw [read_plain (by simp [isBracket, hm, hcl])]
    refine ih h ?_
    simp only [List.mem_cons] at ho
    rcases ho with h | ⟨rfl | h, hsome⟩
    · exact Or.inl h
    · exact absurd hsome hm
    · exact Or.inr ⟨h, hsome⟩

/-- It takes every closer with an opener that fits. -/
theorem read_closers (h : mismatchFrom stack ms = none) (hmem : c ∈ ms)
    (hc : isCloser c.char = true) :
    ∃ o, (o, c) ∈ (readFrom stack ms).1 ∧ closerOf? o.char = some c.char := by
  fun_induction mismatchFrom stack ms with
  | case1 => simp at hmem
  | case2 p os => simp at h
  | case3 st m ms hm ih =>
    have hne : c ≠ m := by
      rintro rfl
      rw [closer_not_opener hc] at hm
      exact Bool.noConfusion hm
    rw [read_opener hm]
    exact ih h ((List.mem_cons.1 hmem).resolve_left hne)
  | case4 m ms hm hcl => simp at h
  | case5 m ms hm hcl p os hp ih =>
    rw [read_closer hp]
    rcases List.mem_cons.1 hmem with rfl | hmem
    · exact ⟨p, by simp, hp⟩
    · obtain ⟨o, hin, hfit⟩ := ih h hmem
      exact ⟨o, List.mem_cons_of_mem _ hin, hfit⟩
  | case6 m ms hm hcl p os hp => simp at h
  | case7 st m ms hm hcl ih =>
    have hne : c ≠ m := by
      rintro rfl
      exact hcl hc
    rw [read_plain (by simp [isBracket, hm, hcl])]
    exact ih h ((List.mem_cons.1 hmem).resolve_left hne)

end

/-! What the stack holds. -/

def braces (stack : List Marked) : Nat := stack.countP (·.char = '{')

/-- An opener in the stack in front of a position, with what lies below it. -/
structure HeldOpener (t : Text) (k : Nat) (o : Marked) (below : List Marked) : Prop where
  before : o.index < k
  code : CodeChar t o.char o.index
  level : level t o.index = braces below
  above : o.char = '{' → ∀ m, o.index < m → m ≤ k → Script.level t o.index < Script.level t m

structure Held (t : Text) (k : Nat) (stack : List Marked) : Prop where
  level : level t k = braces stack
  opened : ∀ o below, (o :: below) <:+ stack → HeldOpener t k o below

section

variable {t : Text} {k : Nat} {stack : List Marked}

theorem braces_suffix {u v : List Marked} (h : u <:+ v) : braces u ≤ braces v :=
  h.sublist.countP_le

theorem braces_brace {o : Marked} (h : o.char = '{') (v : List Marked) :
    braces (o :: v) = braces v + 1 := List.countP_cons_of_pos (by simpa using h)

theorem braces_other {o : Marked} (h : o.char ≠ '{') (v : List Marked) :
    braces (o :: v) = braces v := List.countP_cons_of_neg (by simpa using h)

/-- One step takes openers off the stack or leaves it, and may put one on it. -/
theorem held_step (h : Held t k stack) {stack' : List Marked}
    (hlevel : level t (k + 1) = braces stack')
    (hstack : ∀ o below, (o :: below) <:+ stack' → (o :: below) <:+ stack ∨
      o.index = k ∧ CodeChar t o.char k ∧ below = stack) : Held t (k + 1) stack' := by
  refine ⟨hlevel, fun o below hin => ?_⟩
  -- a brace that is still in the stack is counted in the level behind the step
  have hnext : o.char = '{' → (braces below : Int) < level t (k + 1) := fun ho => by
    have := braces_suffix hin
    rw [braces_brace ho] at this
    omega
  rcases hstack o below hin with hold | ⟨rfl, hcode, rfl⟩
  · obtain ⟨hbefore, hcode, hbelow, habove⟩ := h.opened o below hold
    refine ⟨by omega, hcode, hbelow, fun ho m hom hmk => ?_⟩
    rcases Nat.lt_or_ge k m with hkm | hmk
    · rw [show m = k + 1 by omega, hbelow]
      exact hnext ho
    · exact habove ho m hom hmk
  · refine ⟨by omega, hcode, h.level, fun ho m hom hmk => ?_⟩
    rw [show m = o.index + 1 by omega, h.level]
    exact hnext ho

/-- The closer of a brace makes a pair with the brace on top of the stack. -/
theorem held_pair {o : Marked} {os : List Marked} (h : Held t k (o :: os)) (ho : o.char = '{')
    (hc : CodeChar t '}' k) : Paired t o.index k := by
  obtain ⟨hbefore, hcode, hbelow, habove⟩ := h.opened o os (List.suffix_refl _)
  have hfall := level_close hc
  have hlevel := h.level
  rw [braces_brace ho] at hlevel
  exact ⟨ho ▸ hcode, hc, hbefore, by omega, habove ho⟩

/-- A closer that fits takes its opener off the stack. -/
theorem held_pop {o : Marked} {os : List Marked} {c : Char} (h : Held t k (o :: os))
    (hc : CodeChar t c k) (hfit : closerOf? o.char = some c) : Held t (k + 1) os := by
  refine held_step h ?_ fun p below hin => Or.inl (hin.trans (List.suffix_cons o os))
  have hlevel := h.level
  by_cases hclose : c = '}'
  · subst hclose
    have hfall := level_close hc
    rw [braces_brace (brace_opener hfit)] at hlevel
    omega
  · have hother : o.char ≠ '{' := fun ho => by
      rw [ho] at hfit
      exact hclose (Option.some.inj hfit).symm
    rw [braces_other hother] at hlevel
    rw [level_other (fun ho => ?_) (fun hcl => hclose (code_char_unique hc hcl)), hlevel]
    exact absurd (closer_fits (code_char_unique hc ho ▸ hfit)) (by decide)

theorem held_push {m : Marked} (h : Held t k stack) (hm : m.index = k) (hc : CodeChar t m.char k)
    (hopen : (closerOf? m.char).isSome = true) : Held t (k + 1) (m :: stack) := by
  refine held_step h ?_ fun o below hin => ?_
  · have hlevel := h.level
    by_cases hbrace : m.char = '{'
    · have hrise := level_open (hbrace ▸ hc)
      rw [braces_brace hbrace]
      omega
    · rw [braces_other hbrace, level_other (fun ho => hbrace (code_char_unique hc ho)) fun hcl => ?_,
        hlevel]
      rw [code_char_unique hc hcl] at hopen
      exact absurd hopen (by decide)
  · rcases List.suffix_cons_iff.1 hin with heq | hin
    · obtain ⟨rfl, rfl⟩ := List.cons.inj heq
      exact Or.inr ⟨hm, hc, rfl⟩
    · exact Or.inl hin

theorem held_plain (h : Held t k stack) (hplain : ∀ c, CodeChar t c k → isBracket c = false) :
    Held t (k + 1) stack := by
  refine held_step h ?_ fun o below hin => Or.inl hin
  rw [level_other (fun ho => absurd (hplain _ ho) (by decide))
    (fun hc => absurd (hplain _ hc) (by decide)), h.level]

end

/-- The braces that the stack takes off from a position on are pairs by depth. -/
theorem read_paired {t : Text} {k : Nat} {stack : List Marked} (h : Held t k stack) :
    ∀ p ∈ (readFrom stack (((marked t).drop k).filter (·.code))).1, p.1.char = '{' →
      Paired t p.1.index p.2.index := by
  -- over the positions still to come; each step hands on what the stack holds
  rcases Nat.lt_or_ge k t.length with hk | hk
  · have hget : t[k]? = some t[k] := List.getElem?_eq_getElem hk
    have hchar : ∀ {c}, CodeChar t c k → c = t[k] := fun h => Option.some.inj (h.here.symm.trans hget)
    rw [drop_marked_cons hk, List.filter_cons]
    split
    · next hcode =>
      have hc : CodeChar t t[k] k := ⟨hget, hcode⟩
      cases hopen : (closerOf? t[k]).isSome with
      | true =>
        rw [read_opener hopen]
        exact read_paired (held_push h rfl hc hopen)
      | false =>
        cases hclose : isCloser t[k] with
        | false =>
          have hplain : isBracket t[k] = false := by rw [isBracket, hopen, hclose]; rfl
          rw [read_plain hplain]
          exact read_paired (held_plain h fun c hc => hchar hc ▸ hplain)
        | true =>
          cases stack with
          | nil => simp [readFrom, hopen, hclose]
          | cons o os =>
            by_cases hfit : closerOf? o.char = some t[k]
            · rw [read_closer hfit]
              intro p hp ho
              rcases List.mem_cons.1 hp with rfl | hp
              · have hbrace : t[k] = '}' := by
                  rw [ho] at hfit
                  exact (Option.some.inj hfit).symm
                exact held_pair h ho (hbrace ▸ hc)
              · exact read_paired (held_pop h hc hfit) p hp ho
            · simp [readFrom, hopen, hclose, hfit]
    · next hcode =>
      exact read_paired (held_plain h fun c hc => absurd hc.code hcode)
  · have hnil : (marked t).drop k = [] := List.drop_of_length_le (by rw [length_marked]; exact hk)
    cases stack <;> simp [hnil, readFrom]
termination_by t.length - k

/-! Both readings. -/

section

variable {t : Text} {i j i' j' : Nat}

theorem closing_brace_stop_iff {stop : Option Nat} : closingBrace t i stop = .ok j ↔
    Paired t i j ∧ ∀ s ∈ stop, j < s := by
  rw [← closing_brace_paired, closingBrace, closingBrace, closingBraceIn, closingBraceIn]
  cases t[i]? with
  | none => simp
  | some c =>
    by_cases hc : c = '{'
    · cases closeOf? ((marked t).drop i) with
      | none => simp [hc]
      | some k =>
        cases stop with
        | none => simp [hc]
        | some s =>
          by_cases hs : s ≤ k
          · simp only [hc, ne_eq, not_true_eq_false, if_false, Option.any_some, hs, decide_true,
              if_true, Option.mem_some_iff]
            refine iff_of_false (by simp) ?_
            rintro ⟨hk, hj⟩
            obtain rfl : k = j := by simpa using hk
            have := hj s rfl
            omega
          · simp [hc, hs]
            omega
    · simp [hc]

theorem paired_closer (h : Paired t i j) (h' : Paired t i j') : j = j' :=
  Except.ok.inj ((closing_brace_paired.2 h).symm.trans (closing_brace_paired.2 h'))

theorem paired_opener (h : Paired t i j) (h' : Paired t i' j) : i = i' := by
  rcases Nat.lt_trichotomy i i' with hlt | heq | hgt
  · exact absurd (pairs_nest h h' hlt h'.order) (Nat.lt_irrefl j)
  · exact heq
  · exact absurd (pairs_nest h' h hgt h.order) (Nat.lt_irrefl j)

/-- Of two pairs, one ends in front of the other or lies inside it. -/
theorem pairs_apart (h : Paired t i j) (h' : Paired t i' j') :
    j < i' ∨ j' < i ∨ i ≤ i' ∧ j' ≤ j ∨ i' ≤ i ∧ j ≤ j' := by
  have hcross : ∀ {a b a' b'}, Paired t a b → Paired t a' b' → a < a' → b < a' ∨ b' ≤ b := by
    intro a b a' b' h h' hlt
    rcases Nat.lt_trichotomy b a' with hb | rfl | hb
    · exact Or.inl hb
    · exact absurd (code_char_unique h.closes h'.opens) (by decide)
    · exact Or.inr (Nat.le_of_lt (pairs_nest h h' hlt hb))
  rcases Nat.lt_trichotomy i i' with hlt | rfl | hgt
  · rcases hcross h h' hlt with hj | hj
    · exact Or.inl hj
    · exact Or.inr (Or.inr (Or.inl ⟨Nat.le_of_lt hlt, hj⟩))
  · obtain rfl := paired_closer h h'
    exact Or.inr (Or.inr (Or.inl ⟨Nat.le_refl i, Nat.le_refl j⟩))
  · rcases hcross h' h hgt with hj | hj
    · exact Or.inr (Or.inl hj)
    · exact Or.inr (Or.inr (Or.inr ⟨Nat.le_of_lt hgt, hj⟩))

theorem code_char_marked {c : Char} (h : CodeChar t c i) : ⟨i, c, true⟩ ∈ codeOf t := by
  obtain ⟨hi, hget⟩ := List.getElem?_eq_some_iff.1 h.here
  have hmarked := marked_get hi
  rw [hget, h.code] at hmarked
  exact List.mem_filter.2 ⟨List.mem_of_getElem? hmarked, rfl⟩

/-- The pairs of braces that the stack takes off are pairs by depth, in any script. -/
theorem brace_pair_paired (h : (i, j) ∈ bracePairs t) : Paired t i j := by
  obtain ⟨p, hp, hindex⟩ := List.mem_map.1 h
  obtain ⟨hread, hbrace⟩ := List.mem_filter.1 hp
  have hheld : Held t 0 [] := ⟨rfl, fun o below hin => absurd (List.suffix_nil.1 hin) (by simp)⟩
  have hpaired := read_paired hheld p (by simpa [codeOf] using hread) (by simpa using hbrace)
  rw [Prod.mk.injEq] at hindex
  exact hindex.1 ▸ hindex.2 ▸ hpaired

theorem mem_brace_pairs {o c : Marked} (h : (o, c) ∈ (readFrom [] (codeOf t)).1)
    (ho : o.char = '{') : (o.index, c.index) ∈ bracePairs t :=
  List.mem_map.2 ⟨(o, c), List.mem_filter.2 ⟨h, by simpa using ho⟩, rfl⟩

/-- The run of the stack is the one that finds the first mismatch. -/
theorem read_mismatch (t : Text) : firstMismatch t =
    (readFrom [] (codeOf t)).2.map fun x => (x.1.index, mismatchOf t x.1 x.2) := by
  rw [read_verdict]
  rfl

theorem mismatch_code (h : firstMismatch t = none) : mismatchFrom [] (codeOf t) = none := by
  rw [read_mismatch, Option.map_eq_none_iff, read_verdict] at h
  exact h

/-- Without a mismatch, the stack takes each opening brace of the code off. -/
theorem opener_taken (h : firstMismatch t = none) (hi : CodeChar t '{' i) :
    ∃ j, (i, j) ∈ bracePairs t := by
  obtain ⟨c, hc⟩ := read_openers (mismatch_code h) (Or.inr ⟨code_char_marked hi, rfl⟩)
  exact ⟨c.index, mem_brace_pairs hc rfl⟩

theorem closer_taken (h : firstMismatch t = none) (hj : CodeChar t '}' j) :
    ∃ i, (i, j) ∈ bracePairs t := by
  obtain ⟨o, ho, hfit⟩ := read_closers (mismatch_code h) (code_char_marked hj) rfl
  exact ⟨o.index, mem_brace_pairs ho (brace_opener hfit)⟩

end

/-! A script with brackets of all kinds, one pair of braces inside another, and a brace in a string. -/

def mixedSource : Text := "f(\x7b a: [\x7b b: \"\x7d\" \x7d] \x7d);".toList

end Restage.Script
