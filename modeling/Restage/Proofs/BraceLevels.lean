import Restage.Proofs.BraceCounts

/-!
Levels of braces. The level of a position is how many more braces the code in front of it opens than
it closes. Two braces are a pair just if the level behind them is that in front of them and it is
higher in between (`closing_brace_paired`), so pairs do not cross (`pairs_nest`), and inside a pair a
position has the level of the inside just if no pair encloses it there (`level_inside_iff`).
-/

set_option autoImplicit false

namespace Restage

namespace Script

/-- What a character of a script adds to the level. -/
def Marked.weight (m : Marked) : Int := if m.code then net [m.char] else 0

def level (t : Text) (k : Nat) : Int := (((marked t).take k).map Marked.weight).sum

/-- A character that is code. -/
structure CodeChar (t : Text) (c : Char) (i : Nat) : Prop where
  here : t[i]? = some c
  code : isCode t i = true

/-- Two braces of the code with a higher level in between. -/
structure Paired (t : Text) (i j : Nat) : Prop where
  opens : CodeChar t '{' i
  closes : CodeChar t '}' j
  order : i < j
  returns : level t (j + 1) = level t i
  above : ∀ k, i < k → k ≤ j → level t i < level t k

section

variable {t : Text} {i j k p : Nat}

theorem code_char_bound {c : Char} (h : CodeChar t c k) : k < t.length :=
  (List.getElem?_eq_some_iff.1 h.here).1

theorem code_char_unique {c d : Char} (hc : CodeChar t c k) (hd : CodeChar t d k) : c = d :=
  Option.some.inj (hc.here.symm.trans hd.here)

theorem length_marked (t : Text) : (marked t).length = t.length :=
  length_marked_from (length_codeMask t)

theorem marked_from_get (i k : Nat) (t : Text) (bs : List Bool) :
    (markedFrom i t bs)[k]? = t[k]?.bind fun c => bs[k]?.map (⟨i + k, c, ·⟩) := by
  induction t generalizing i k bs with
  | nil => simp [markedFrom]
  | cons c t ih =>
    cases bs with
    | nil => cases (c :: t)[k]? <;> simp [markedFrom]
    | cons b bs =>
      cases k with
      | zero => simp [markedFrom]
      | succ k =>
        have hpos : i + 1 + k = i + (k + 1) := by omega
        simp [markedFrom, ih, hpos]

theorem marked_get (h : k < t.length) : (marked t)[k]? = some ⟨k, t[k], isCode t k⟩ := by
  have hmask : k < (codeMask t).length := by
    rw [length_codeMask]
    exact h
  rw [marked, marked_from_get, List.getElem?_eq_getElem h, List.getElem?_eq_getElem hmask, isCode,
    List.getD_eq_getElem?_getD, List.getElem?_eq_getElem hmask]
  simp

theorem drop_marked_cons (h : k < t.length) :
    (marked t).drop k = ⟨k, t[k], isCode t k⟩ :: (marked t).drop (k + 1) := by
  have hk : k < (marked t).length := by
    rw [length_marked]
    exact h
  rw [List.drop_eq_getElem_cons hk]
  have hget := marked_get h
  rw [List.getElem?_eq_getElem hk, Option.some.injEq] at hget
  rw [hget]

theorem marked_index {n : Nat} (h : n < (marked t).length) : (marked t)[n].index = n := by
  have hn : n < t.length := by rwa [length_marked] at h
  have hget := marked_get hn
  rw [List.getElem?_eq_getElem h, Option.some.injEq] at hget
  rw [hget]

/-- The code of a stretch is that of the text from its beginning on. -/
theorem code_in_drop (start stop : Nat) :
    codeIn t start stop = codeWithin ((marked t).drop start) start stop := by
  have hfront : codeWithin ((marked t).take start) start stop = [] := by
    rw [codeWithin, List.filter_eq_nil_iff]
    intro m hm
    obtain ⟨n, hn, rfl⟩ := List.getElem_of_mem hm
    rw [List.length_take] at hn
    rw [List.getElem_take]
    have := marked_index (t := t) (n := n) (by omega)
    simp only [Bool.and_eq_true, decide_eq_true_eq]
    omega
  rw [codeIn]
  conv_lhs => rw [← List.take_append_drop start (marked t), codeWithin, List.filter_append]
  rw [← codeWithin, hfront]
  rfl

/-! One step of the level. -/

theorem level_succ (h : k < t.length) :
    level t (k + 1) = level t k + Marked.weight ⟨k, t[k], isCode t k⟩ := by
  rw [level, List.take_add_one, marked_get h, level, List.map_append, List.sum_append]
  simp

theorem level_past (h : t.length ≤ k) : level t (k + 1) = level t k := by
  have hlong : (marked t).length ≤ k := by
    rw [length_marked]
    exact h
  rw [level, level, List.take_of_length_le (by omega), List.take_of_length_le hlong]

theorem level_open (h : CodeChar t '{' k) : level t (k + 1) = level t k + 1 := by
  obtain ⟨hk, hget⟩ := List.getElem?_eq_some_iff.1 h.here
  rw [level_succ hk, hget, h.code]
  rfl

theorem level_close (h : CodeChar t '}' k) : level t (k + 1) = level t k - 1 := by
  obtain ⟨hk, hget⟩ := List.getElem?_eq_some_iff.1 h.here
  rw [level_succ hk, hget, h.code]
  rfl

theorem level_other (ho : ¬ CodeChar t '{' k) (hc : ¬ CodeChar t '}' k) :
    level t (k + 1) = level t k := by
  rcases Nat.lt_or_ge k t.length with hk | hk
  · rw [level_succ hk, Marked.weight]
    split
    · next hcode =>
      have hopen : t[k] ≠ '{' := fun h => ho ⟨by rw [List.getElem?_eq_getElem hk, h], hcode⟩
      have hclose : t[k] ≠ '}' := fun h => hc ⟨by rw [List.getElem?_eq_getElem hk, h], hcode⟩
      simp [net, hopen, hclose]
    · exact Int.add_zero _
  · exact level_past hk

/-- Where the level rises, it rises by one at an opening brace. -/
theorem level_rise (h : level t k < level t (k + 1)) :
    CodeChar t '{' k ∧ level t (k + 1) = level t k + 1 := by
  by_cases ho : CodeChar t '{' k
  · exact ⟨ho, level_open ho⟩
  · by_cases hc : CodeChar t '}' k
    · have := level_close hc
      omega
    · have := level_other ho hc
      omega

/-- Where the level falls, it falls by one at a closing brace. -/
theorem level_fall (h : level t (k + 1) < level t k) :
    CodeChar t '}' k ∧ level t (k + 1) = level t k - 1 := by
  by_cases hc : CodeChar t '}' k
  · exact ⟨hc, level_close hc⟩
  · by_cases ho : CodeChar t '{' k
    · have := level_open ho
      omega
    · have := level_other ho hc
      omega

/-! Crossings of a level. -/

/-- In front of a position above a level there is a last brace that leads above it. -/
theorem last_rise {x : Int} (hkp : k ≤ p) (hk : level t k ≤ x) (hp : x < level t p) :
    ∃ i, k ≤ i ∧ i < p ∧ CodeChar t '{' i ∧ level t i = x ∧ ∀ m, i < m → m ≤ p → x < level t m := by
  induction p, hkp using Nat.le_induction with
  | base => omega
  | succ p hkp ih =>
    by_cases hlast : x < level t p
    · obtain ⟨i, hki, hip, hopen, hlevel, habove⟩ := ih hlast
      refine ⟨i, hki, by omega, hopen, hlevel, fun m him hmp => ?_⟩
      rcases Nat.lt_or_ge p m with hm | hm
      · rw [show m = p + 1 by omega]
        exact hp
      · exact habove m him hm
    · obtain ⟨hopen, hrise⟩ := level_rise (show level t p < level t (p + 1) by omega)
      refine ⟨p, hkp, by omega, hopen, by omega, fun m hpm hmp => ?_⟩
      rw [show m = p + 1 by omega]
      exact hp

/-- Behind a position above a level there is a first brace that leads down to it, if the level is
reached at all. -/
theorem first_fall {x : Int} (hpk : p ≤ k) (hp : x < level t p) (hk : level t k ≤ x) :
    ∃ j, p ≤ j ∧ j < k ∧ CodeChar t '}' j ∧ level t (j + 1) = x ∧
      ∀ m, p ≤ m → m ≤ j → x < level t m := by
  have hsearch : ∀ k, p ≤ k → (∀ m, p ≤ m → m ≤ k → x < level t m) ∨
      ∃ j, p ≤ j ∧ j < k ∧ CodeChar t '}' j ∧ level t (j + 1) = x ∧
        ∀ m, p ≤ m → m ≤ j → x < level t m := by
    intro k hpk
    induction k, hpk using Nat.le_induction with
    | base =>
      left
      intro m hpm hmp
      rw [show m = p by omega]
      exact hp
    | succ k hpk ih =>
      rcases ih with habove | ⟨j, hpj, hjk, hj⟩
      · by_cases hnext : x < level t (k + 1)
        · left
          intro m hpm hmk
          rcases Nat.lt_or_ge k m with hm | hm
          · rw [show m = k + 1 by omega]
            exact hnext
          · exact habove m hpm hm
        · have hhere := habove k hpk (Nat.le_refl k)
          obtain ⟨hclose, hfall⟩ := level_fall (show level t (k + 1) < level t k by omega)
          exact Or.inr ⟨k, hpk, by omega, hclose, by omega, habove⟩
      · exact Or.inr ⟨j, hpj, by omega, hj⟩
  rcases hsearch k hpk with habove | hfound
  · have := habove k hpk (Nat.le_refl k)
    omega
  · exact hfound

/-! Pairs of braces. -/

/-- The first place, from a position on, behind which the level is lower by a number. -/
structure FallsAt (t : Text) (k : Nat) (d : Int) (j : Nat) : Prop where
  order : k ≤ j
  closes : CodeChar t '}' j
  reaches : level t (j + 1) = level t k - d
  above : ∀ m, k ≤ m → m ≤ j → level t k - d < level t m

/-- The same place is searched for from the next position on, with the step of the level added. -/
theorem falls_at_succ {d e : Int} (he : level t (k + 1) - e = level t k - d) (hd : 0 < d)
    (hlast : ¬ (CodeChar t '}' k ∧ d = 1)) : FallsAt t (k + 1) e j ↔ FallsAt t k d j := by
  constructor
  · rintro ⟨hkj, hcloses, hreaches, habove⟩
    rw [he] at hreaches habove
    refine ⟨by omega, hcloses, hreaches, fun m hkm hmj => ?_⟩
    rcases Nat.eq_or_lt_of_le hkm with rfl | hkm
    · omega
    · exact habove m hkm hmj
  · rintro ⟨hkj, hcloses, hreaches, habove⟩
    rw [← he] at hreaches habove
    have hne : k ≠ j := by
      rintro rfl
      have := level_close hcloses
      exact hlast ⟨hcloses, by omega⟩
    exact ⟨by omega, hcloses, hreaches, fun m hkm hmj => habove m (by omega) hmj⟩

theorem falls_at_once (h : CodeChar t '}' k) : FallsAt t k 1 j ↔ k = j := by
  have hlevel := level_close h
  constructor
  · rintro ⟨hkj, _, _, habove⟩
    by_contra hne
    have := habove (k + 1) (by omega) (by omega)
    omega
  · rintro rfl
    refine ⟨Nat.le_refl k, h, hlevel, fun m hkm hmk => ?_⟩
    rw [show m = k by omega]
    omega

/-- A number of open braces is closed by the first brace that leads below them. -/
theorem close_from_iff {d k : Nat} (hd : 0 < d) :
    closeFrom d ((marked t).drop k) = some j ↔ FallsAt t k d j := by
  rcases Nat.lt_or_ge k t.length with hk | hk
  · have hget : t[k]? = some t[k] := List.getElem?_eq_getElem hk
    have hchar : ∀ {c}, CodeChar t c k → t[k] = c := fun h => Option.some.inj (hget.symm.trans h.here)
    rw [drop_marked_cons hk, closeFrom]
    simp only [Bool.not_eq_eq_eq_not, Bool.not_true]
    split
    · next hcode =>
      have hnone : ∀ c, ¬ CodeChar t c k := fun c hc => by simp [hc.code] at hcode
      have hlevel := level_other (hnone _) (hnone _)
      rw [close_from_iff hd]
      exact falls_at_succ (by omega) (by omega) fun h => hnone _ h.1
    · next hcode =>
      have hcode : isCode t k = true := by simpa using hcode
      split
      · next hopen =>
        have hopen : CodeChar t '{' k := ⟨hget.trans (congrArg some hopen), hcode⟩
        have hlevel := level_open hopen
        rw [close_from_iff (Nat.succ_pos d)]
        refine falls_at_succ (by omega) (by omega) fun h => ?_
        exact absurd (code_char_unique hopen h.1) (by decide)
      · next hopen =>
        split
        · next hclose =>
          have hclose : CodeChar t '}' k := ⟨hget.trans (congrArg some hclose), hcode⟩
          have hlevel := level_close hclose
          split
          · next hlast =>
            obtain rfl : d = 1 := by omega
            rw [Nat.cast_one, falls_at_once hclose, Option.some.injEq]
          · next hlast =>
            rw [close_from_iff (by omega)]
            exact falls_at_succ (by omega) (by omega) fun h => by omega
        · next hclose =>
          have hlevel := level_other (fun h => hopen (hchar h)) fun h => hclose (hchar h)
          rw [close_from_iff hd]
          exact falls_at_succ (by omega) (by omega) fun h => hclose (hchar h.1)
  · have hnil : (marked t).drop k = [] := List.drop_of_length_le (by rw [length_marked]; exact hk)
    rw [hnil]
    refine iff_of_false (by simp [closeFrom]) fun h => ?_
    have := code_char_bound h.closes
    have := h.order
    omega
termination_by t.length - k

theorem close_of_iff : closeOf? ((marked t).drop i) = some j ↔ Paired t i j := by
  rcases Nat.lt_or_ge i t.length with hi | hi
  · have hget : t[i]? = some t[i] := List.getElem?_eq_getElem hi
    rw [drop_marked_cons hi, closeOf?]
    split
    · next hopen =>
      rw [Bool.and_eq_true, decide_eq_true_eq] at hopen
      have hopen : CodeChar t '{' i := ⟨hget.trans (congrArg some hopen.2), hopen.1⟩
      have hlevel := level_open hopen
      rw [close_from_iff Nat.one_pos]
      have hinside : level t (i + 1) - (1 : Nat) = level t i := by omega
      constructor
      · rintro ⟨hij, hcloses, hreaches, habove⟩
        rw [hinside] at hreaches habove
        exact ⟨hopen, hcloses, hij, hreaches, habove⟩
      · rintro ⟨_, hcloses, hij, hreturns, habove⟩
        rw [← hinside] at hreturns habove
        exact ⟨hij, hcloses, hreturns, habove⟩
    · next hopen =>
      refine iff_of_false (by simp) fun h => hopen ?_
      rw [Bool.and_eq_true, decide_eq_true_eq]
      exact ⟨h.opens.code, Option.some.inj (hget.symm.trans h.opens.here)⟩
  · have hnil : (marked t).drop i = [] := List.drop_of_length_le (by rw [length_marked]; exact hi)
    rw [hnil]
    refine iff_of_false (by simp [closeOf?]) fun h => ?_
    have := code_char_bound h.opens
    omega

/-- One brace is found to close another just if the two are a pair. -/
theorem closing_brace_paired : closingBrace t i none = .ok j ↔ Paired t i j := by
  rw [closing_brace_iff, close_of_iff]
  exact ⟨And.right, fun h => ⟨h.opens.here, h⟩⟩

/-- A pair that opens inside another closes inside it. -/
theorem pairs_nest {i' j' : Nat} (h : Paired t i j) (h' : Paired t i' j') (hi : i < i') (hj : i' < j) :
    j' < j := by
  have hinner := h.above i' hi (by omega)
  have hreturn := h.returns
  rcases Nat.lt_trichotomy j' j with hlt | rfl | hgt
  · exact hlt
  · have := h'.returns
    omega
  · have := h'.above (j + 1) (by omega) (by omega)
    omega

theorem level_inside (h : Paired t i j) : level t j = level t (i + 1) := by
  have hopen := level_open h.opens
  have hclose := level_close h.closes
  have hreturn := h.returns
  omega

/-- Inside a pair, a position has the level of the inside just if no pair encloses it there. -/
theorem level_inside_iff (h : Paired t i j) (hp : i + 1 ≤ p) (hpj : p ≤ j)
    (hclosed : ¬ CodeChar t '}' p) : level t p = level t (i + 1) ↔
      ∀ i' j', i + 1 ≤ i' → i' < p → p < j' → j' < j → ¬ Paired t i' j' := by
  have hopen := level_open h.opens
  constructor
  · intro hlevel i' j' hi hip hpj' _ h'
    have hin := h'.above p hip (by omega)
    have hfloor := h.above i' hi (by omega)
    omega
  · intro hnone
    by_contra hlevel
    have habove : level t (i + 1) < level t p := by
      have := h.above p hp hpj
      omega
    have hend := level_inside h
    obtain ⟨i', hi, hip, hopens, hfrom, hrise⟩ := last_rise hp (Int.le_refl _) habove
    obtain ⟨j', hpj', hj, hcloses, hto, hfall⟩ := first_fall hpj habove (Int.le_of_eq hend)
    have hne : p ≠ j' := by
      rintro rfl
      exact hclosed hcloses
    refine hnone i' j' hi hip (by omega) hj ⟨hopens, hcloses, by omega, by omega, fun k hk hkj => ?_⟩
    rw [hfrom]
    rcases Nat.lt_or_ge p k with hpk | hkp
    · exact hfall k (by omega) hkj
    · exact hrise k hk hkp

/-! Positions at the top level. -/

/-- A position of the code at a level, without a brace. -/
structure PlainAt (t : Text) (stop : Nat) (x : Int) (p : Nat) : Prop where
  before : p < stop
  char : ∃ c, CodeChar t c p ∧ isBrace c = false
  level : level t p = x

theorem succ_le_and_iff {k p : Nat} {q : Prop} (h : q → k ≠ p) : k + 1 ≤ p ∧ q ↔ k ≤ p ∧ q := by
  constructor
  · rintro ⟨hkp, hq⟩
    exact ⟨by omega, hq⟩
  · rintro ⟨hkp, hq⟩
    have := h hq
    exact ⟨by omega, hq⟩

/-- A brace is no such position, and neither is a character outside the code. -/
theorem plain_apart {stop k : Nat} {x : Int} (h : PlainAt t stop x p)
    (hk : ∀ c, CodeChar t c k → isBrace c = true) : k ≠ p := by
  rintro rfl
  obtain ⟨c, hc, hplain⟩ := h.char
  rw [hk c hc] at hplain
  exact Bool.noConfusion hplain

theorem code_within_cons {m : Marked} {ms : List Marked} {start stop : Nat} :
    codeWithin (m :: ms) start stop =
      if m.code && start ≤ m.index && m.index < stop then m :: codeWithin ms start stop
      else codeWithin ms start stop := List.filter_cons

theorem top_level_from_iff {d : Int} {start stop k : Nat} (hk : start ≤ k) :
    p ∈ topLevelFrom d (codeWithin ((marked t).drop k) start stop) ↔
      k ≤ p ∧ PlainAt t stop (level t k - d) p := by
  rcases Nat.lt_or_ge k t.length with hlong | hshort
  · have hget : t[k]? = some t[k] := List.getElem?_eq_getElem hlong
    have hchar : ∀ {c}, CodeChar t c k → t[k] = c := fun h => Option.some.inj (hget.symm.trans h.here)
    rw [drop_marked_cons hlong, code_within_cons]
    simp only [hk, decide_true, Bool.and_true]
    split
    · next hin =>
      rw [Bool.and_eq_true, decide_eq_true_eq] at hin
      obtain ⟨hcode, hstop⟩ := hin
      have hhere : ∀ {c}, t[k] = c → CodeChar t c k := fun h => ⟨hget.trans (congrArg some h), hcode⟩
      rw [topLevelFrom]
      simp only
      split
      · next hopen =>
        have hlevel := level_open (hhere hopen)
        rw [top_level_from_iff (by omega), show level t (k + 1) - (d + 1) = level t k - d by omega]
        exact succ_le_and_iff fun h => plain_apart h fun c hc => by
          rw [← hchar hc, hopen]
          decide
      · next hopen =>
        split
        · next hclose =>
          have hlevel := level_close (hhere hclose)
          rw [top_level_from_iff (by omega), show level t (k + 1) - (d - 1) = level t k - d by omega]
          exact succ_le_and_iff fun h => plain_apart h fun c hc => by
            rw [← hchar hc, hclose]
            decide
        · next hclose =>
          have hlevel := level_other (fun h => hopen (hchar h)) fun h => hclose (hchar h)
          split
          · next hzero =>
            rw [List.mem_cons, top_level_from_iff (by omega), hlevel]
            constructor
            · rintro (rfl | ⟨hkp, h⟩)
              · exact ⟨Nat.le_refl p, hstop, ⟨_, hhere rfl, by simp [isBrace, hopen, hclose]⟩, by omega⟩
              · exact ⟨by omega, h⟩
            · rintro ⟨hkp, h⟩
              rcases Nat.eq_or_lt_of_le hkp with rfl | hkp
              · exact Or.inl rfl
              · exact Or.inr ⟨hkp, h⟩
          · next hzero =>
            rw [top_level_from_iff (by omega), hlevel]
            refine succ_le_and_iff fun h => ?_
            rintro rfl
            have := h.level
            omega
    · next hout =>
      have hout : ¬ (isCode t k = true ∧ k < stop) := by simpa using hout
      rw [top_level_from_iff (by omega)]
      by_cases hcode : isCode t k = true
      · have hstop : stop ≤ k := by
          by_contra hlt
          exact hout ⟨hcode, by omega⟩
        refine iff_of_false ?_ ?_ <;> rintro ⟨hkp, h⟩ <;> have := h.before <;> omega
      · have hlevel : level t (k + 1) = level t k :=
          level_other (fun h => hcode h.code) fun h => hcode h.code
        rw [hlevel]
        exact succ_le_and_iff fun h => plain_apart h fun c hc => absurd hc.code hcode
  · have hnil : (marked t).drop k = [] := List.drop_of_length_le (by rw [length_marked]; exact hshort)
    rw [hnil]
    refine iff_of_false (by simp [codeWithin, topLevelFrom]) ?_
    rintro ⟨hkp, h⟩
    obtain ⟨c, hc, _⟩ := h.char
    have := code_char_bound hc
    omega
termination_by t.length - k

/-- A position is at the top level of a stretch if it has the level of the stretch's beginning. -/
theorem top_level_iff {start stop : Nat} :
    p ∈ topLevel t start stop ↔ start ≤ p ∧ PlainAt t stop (level t start) p := by
  rw [topLevel, code_in_drop, top_level_from_iff (Nat.le_refl start), Int.sub_zero]

end

end Script

end Restage
