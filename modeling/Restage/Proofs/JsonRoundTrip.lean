import Restage.Proofs.JsonCharacters

/-!
JSON written and read. What the reader gives is a proper value (`parse_proper`), and the text of a
proper value reads back as that value (`parse_dump`).
-/

set_option autoImplicit false

namespace Restage.Json

/-! Strings. -/

theorem hex_digit_reads : ∀ d < 16, hexDigit? (Text.hexDigit d) = some d := by decide

theorem hex_unit_reads (u : UInt16) : ∃ a b c d, Text.hexDigits 4 u.toNat = [a, b, c, d] ∧
    hexUnit? a b c d = some u := by
  refine ⟨_, _, _, _, rfl, ?_⟩
  rw [hexUnit?, hex_digit_reads _ (Nat.mod_lt _ (by norm_num)),
    hex_digit_reads _ (Nat.mod_lt _ (by norm_num)), hex_digit_reads _ (Nat.mod_lt _ (by norm_num)),
    hex_digit_reads _ (Nat.mod_lt _ (by norm_num))]
  have hbound : u.toNat < 65536 := u.toNat_lt
  have hvalue : ((u.toNat / 16 / 16 / 16 % 16 * 16 + u.toNat / 16 / 16 % 16) * 16 +
      u.toNat / 16 % 16) * 16 + u.toNat % 16 = u.toNat := by omega
  simp only [hvalue]
  simp

/-- What a printable unit is written as. -/
theorem plain_unit : ∀ n < 127, 32 ≤ n ∧ n ≠ 0x22 ∧ n ≠ 0x5C →
    Char.ofNat n ≠ '\x22' ∧ Char.ofNat n ≠ '\\' ∧ 32 ≤ (Char.ofNat n).toNat ∧
      unitsOf (Char.ofNat n) = [n.toUInt16] := by decide

theorem string_from_plain {opening rest : Text} {c : Char} (hquote : c ≠ '\x22') (hslash : c ≠ '\\')
    (hcontrol : 32 ≤ c.toNat) : stringFrom opening (c :: rest) =
      (stringFrom opening rest).map fun x => (unitsOf c ++ x.1, x.2) := by
  rw [stringFrom.eq_def]
  split
  · next h => simp at h
  · next h =>
    rw [List.cons.injEq] at h
    exact absurd h.1 hquote
  · next h =>
    rw [List.cons.injEq] at h
    exact absurd h.1 hslash
  · next h =>
    rw [List.cons.injEq] at h
    exact absurd h.1 hslash
  · next h =>
    rw [List.cons.injEq] at h
    rw [← h.1, ← h.2, if_neg hslash, if_neg (by omega)]

/-- A unit reads back, wherever in a string it is written. -/
theorem unit_reads (opening : Text) (u : UInt16) {rest : Text} (hrest : rest ≠ []) :
    stringFrom opening (unitText u ++ rest) =
      (stringFrom opening rest).map fun x => (u :: x.1, x.2) := by
  rw [unitText]
  split
  · next h => rw [h]; rfl
  split
  · next h => rw [h]; rfl
  split
  · next h => rw [h]; rfl
  split
  · next h => rw [h]; rfl
  split
  · next h => rw [h]; rfl
  split
  · next h => rw [h]; rfl
  split
  · next h => rw [h]; rfl
  split
  · next hquote hslash _ _ _ _ _ h =>
    have hnat : ∀ n : Nat, n < 65536 → u ≠ n.toUInt16 → u.toNat ≠ n := fun n hn hu heq => by
      refine hu (UInt16.toNat_inj.1 ?_)
      simp [heq, Nat.mod_eq_of_lt hn]
    obtain ⟨h1, h2, h3, h4⟩ := plain_unit u.toNat h.2
      ⟨h.1, hnat 0x22 (by norm_num) hquote, hnat 0x5C (by norm_num) hslash⟩
    rw [List.singleton_append, string_from_plain h1 h2 h3, h4]
    simp
  · obtain ⟨a, b, c, d, hdigits, hunit⟩ := hex_unit_reads u
    obtain ⟨e, es, rfl⟩ := List.exists_cons_of_ne_nil hrest
    rw [unicodeEscape, hdigits]
    simp only [List.cons_append, List.nil_append]
    rw [stringFrom, hunit]
    rfl

/-- The text of a string reads back. -/
theorem string_text_reads (opening : Text) (us : Units) (rest : Text) :
    stringFrom opening (us.flatMap unitText ++ '\x22' :: rest) = .ok (us, rest) := by
  induction us with
  | nil => rfl
  | cons u us ih =>
    rw [List.flatMap_cons, List.append_assoc, unit_reads opening u (by simp), ih]
    rfl

/-! Scalars. -/

/-- The numbers that are written so that they read back. -/
def Readable : Binary64 → Prop
  | .finite _ m q => Binary64.Canonical m q
  | _ => True

theorem integer_part_head {t : Text} {x : Text × Text} (h : integerPart? t = some x) :
    ∃ c cs, t = c :: cs ∧ Text.isDigit c = true := by
  rw [integerPart?.eq_def] at h
  split at h
  · exact ⟨'0', _, rfl, rfl⟩
  · split at h
    · next hc => exact ⟨_, _, rfl, hc⟩
    · simp at h
  · simp at h

/-- A number begins with a digit, or with a sign and a digit. -/
theorem number_head {t : Text} {x : Value × Text} (h : number? t = some x) :
    ∃ c cs, (t = c :: cs ∨ t = '-' :: c :: cs) ∧ Text.isDigit c = true := by
  unfold number? at h
  split at h
  next negative body heq =>
    split at h
    · simp at h
    · next whole r hint =>
      obtain ⟨c, cs, hbody, hc⟩ := integer_part_head hint
      split at heq
      · next h =>
        injection heq with _ hcs
        exact ⟨c, cs, Or.inr (by rw [hcs, hbody]), hc⟩
      · injection heq with _ ht
        exact ⟨c, cs, Or.inl (by rw [ht, hbody]), hc⟩

/-- No word is the beginning of a number. -/
theorem word_not_number {t : Text} {x : Value × Text} (h : number? t = some x) :
    (words.findSome? fun w => (Text.after? w.1 t).map (w.2, ·)) = none := by
  have hheads : ∀ w ∈ words, w.1.head?.any (fun c => !Text.isDigit c) = true ∧
      (w.1.head? = some '-' → w.1.tail.head?.any (fun c => !Text.isDigit c) = true) := by
    decide
  rw [List.findSome?_eq_none_iff]
  intro w hw
  rw [Option.map_eq_none_iff]
  obtain ⟨hfirst, hsecond⟩ := hheads w hw
  obtain ⟨c, cs, ht, hc⟩ := number_head h
  cases hafter : Text.after? w.1 t with
  | none => rfl
  | some r =>
    rw [Text.after?_eq_some] at hafter
    exfalso
    cases hword : w.1 with
    | nil => simp [hword] at hfirst
    | cons a as =>
      rw [hword] at hfirst hsecond hafter
      rcases ht with rfl | rfl
      · rw [List.cons_append, List.cons.injEq] at hafter
        simp [← hafter.1, hc] at hfirst
      · rw [List.cons_append, List.cons.injEq] at hafter
        have hsecond := hsecond (by rw [← hafter.1]; rfl)
        cases as with
        | nil => simp at hsecond
        | cons b bs =>
          have hb := hafter.2
          rw [List.cons_append, List.cons.injEq] at hb
          simp [← hb.1, hc] at hsecond

theorem scalar_number {t : Text} {x : Value × Text} (h : number? t = some x) :
    scalar t = .ok x := by
  rw [scalar, word_not_number h]
  simp only [h]

theorem value_scalar {c : Char} {cs : Text} (hquote : c ≠ '\x22') (hbracket : c ≠ '[')
    (hbrace : c ≠ '{') (fuel : Nat) : value (fuel + 1) (c :: cs) = scalar (c :: cs) := by
  rw [value.eq_def]
  simp only
  split
  · next h => exact absurd (List.cons.inj h).1 hquote
  · next h => exact absurd (List.cons.inj h).1 hbracket
  · next h => exact absurd (List.cons.inj h).1 hbrace
  · rfl

theorem word_reads {w : Text × Value} (hw : w ∈ words) (fuel : Nat) (tail : Text) :
    value (fuel + 1) (w.1 ++ tail) = .ok (w.2, tail) := by
  simp only [words, List.mem_cons, List.not_mem_nil, or_false] at hw
  rcases hw with rfl | rfl | rfl | rfl | rfl | rfl <;> rfl

theorem number_value {t : Text} {x : Value × Text} (h : number? t = some x) (fuel : Nat) :
    value (fuel + 1) t = .ok x := by
  obtain ⟨c, cs, ht, hc⟩ := number_head h
  rw [← scalar_number h]
  rcases ht with rfl | rfl
  · refine value_scalar ?_ ?_ ?_ fuel <;> (rintro rfl; simp [Text.isDigit] at hc)
  · exact value_scalar (by decide) (by decide) (by decide) fuel

theorem real_reads {x : Binary64} (h : Readable x) (fuel : Nat) {tail : Text}
    (htail : Stops continues tail) :
    value (fuel + 1) (realText x ++ tail) = .ok (.real x, tail) := by
  cases x with
  | finite negative m q => exact number_value (finite_text_reads h htail) fuel
  | infinite negative =>
    cases negative with
    | false =>
      exact word_reads (w := ("Infinity".toList, .real (.infinite false))) (by simp [words]) _ _
    | true =>
      exact word_reads (w := ("-Infinity".toList, .real (.infinite true))) (by simp [words]) _ _
  | nan => exact word_reads (w := ("NaN".toList, .real .nan)) (by simp [words]) _ _

/-! Arrays and objects. -/

/-- The values that the reader gives: numbers of the format, and members with different keys. -/
inductive Proper : Value → Prop
  | null : Proper .null
  | bool (b : Bool) : Proper (.bool b)
  | int (i : Int) : Proper (.int i)
  | real {x : Binary64} (h : Readable x) : Proper (.real x)
  | str (units : Units) : Proper (.str units)
  | arr {items : List Value} (h : ∀ v ∈ items, Proper v) : Proper (.arr items)
  | obj {members : List (Units × Value)} (hkeys : (members.map Prod.fst).Nodup)
      (h : ∀ m ∈ members, Proper m.2) : Proper (.obj members)

/-- A value whose text, at any level and with fuel for each character, reads back. -/
def Reads (v : Value) : Prop :=
  ∀ level fuel tail, 2 * (render level v).length ≤ fuel → Stops continues tail →
    value fuel (render level v ++ tail) = .ok (v, tail)

theorem skip_newline (level : Nat) {c : Char} (hc : isSpace c = false) (cs : Text) :
    skip (newline level ++ c :: cs) = c :: cs := by
  rw [skip, List.dropWhile_append_of_pos, List.dropWhile_cons_of_neg (by simp [hc])]
  intro d hd
  rcases List.mem_cons.1 hd with rfl | hd
  · rfl
  · rw [List.eq_of_mem_replicate hd]
    rfl

theorem skip_plain {c : Char} (hc : isSpace c = false) (cs : Text) : skip (c :: cs) = c :: cs := by
  rw [skip, List.dropWhile_cons_of_neg (by simp [hc])]

/-- The text of a value begins with neither a space nor a closing bracket. -/
theorem render_head (level : Nat) {v : Value} (h : Proper v) : ∃ c cs, render level v = c :: cs ∧
    isSpace c = false ∧ c ≠ ']' ∧ c ≠ '}' := by
  have hnumber : ∀ {t : Text} {x}, number? (t ++ []) = some x → ∃ c cs, t = c :: cs ∧
      isSpace c = false ∧ c ≠ ']' ∧ c ≠ '}' := fun {t x} ht => by
    rw [List.append_nil] at ht
    obtain ⟨c, cs, rfl | rfl, hc⟩ := number_head ht
    · refine ⟨c, cs, rfl, ?_, ?_, ?_⟩
      · cases hs : isSpace c with
        | false => rfl
        | true =>
          simp only [isSpace, Bool.or_eq_true, beq_iff_eq] at hs
          rcases hs with ((rfl | rfl) | rfl) | rfl <;> simp [Text.isDigit] at hc
      · rintro rfl
        simp [Text.isDigit] at hc
      · rintro rfl
        simp [Text.isDigit] at hc
    · exact ⟨'-', c :: cs, rfl, by decide, by decide, by decide⟩
  have hnil : Stops continues [] := by simp [Stops]
  cases h with
  | null => exact ⟨_, _, rfl, by decide, by decide, by decide⟩
  | bool b => cases b <;> exact ⟨_, _, rfl, by decide, by decide, by decide⟩
  | int i => exact hnumber (int_text_reads hnil i)
  | @real x hx =>
    cases x with
    | finite negative m q => exact hnumber (finite_text_reads hx hnil)
    | infinite negative => cases negative <;> exact ⟨_, _, rfl, by decide, by decide, by decide⟩
    | nan => exact ⟨_, _, rfl, by decide, by decide, by decide⟩
  | str us => exact ⟨_, _, rfl, by decide, by decide, by decide⟩
  | @arr items _ => cases items <;> exact ⟨_, _, rfl, by decide, by decide, by decide⟩
  | @obj members _ _ => cases members <;> exact ⟨_, _, rfl, by decide, by decide, by decide⟩

theorem stops_newline (level : Nat) (rest : Text) : Stops continues (newline level ++ rest) := by
  intro c hc
  simp only [newline, List.cons_append, List.head?_cons, Option.mem_def, Option.some.injEq] at hc
  rw [← hc]
  decide

theorem stops_comma (rest : Text) : Stops continues (',' :: rest) := by
  intro c hc
  simp only [List.head?_cons, Option.mem_def, Option.some.injEq] at hc
  rw [← hc]
  decide

/-- What may follow the items that are left. -/
theorem stops_items (level : Nat) (vs : List Value) (rest : Text) :
    Stops continues (renderItems (level + 1) vs ++ (newline level ++ rest)) := by
  cases vs with
  | nil =>
    rw [renderItems]
    exact stops_newline level rest
  | cons v vs =>
    rw [renderItems, List.cons_append, List.cons_append]
    exact stops_comma _

theorem stops_members (level : Nat) (ms : List (Units × Value)) (rest : Text) :
    Stops continues (renderMembers (level + 1) ms ++ (newline level ++ rest)) := by
  cases ms with
  | nil =>
    rw [renderMembers]
    exact stops_newline level rest
  | cons m ms =>
    obtain ⟨k, v⟩ := m
    rw [renderMembers, List.cons_append, List.cons_append, List.cons_append, List.cons_append,
      List.cons_append]
    exact stops_comma _

/-- The items of an array read back, from any of them on. -/
theorem items_read (level : Nat) (tail : Text) {v : Value} {vs : List Value}
    (hproper : ∀ w ∈ v :: vs, Proper w) (hreads : ∀ w ∈ v :: vs, Reads w) (fuel : Nat)
    (hfuel : 2 * (render (level + 1) v ++ renderItems (level + 1) vs).length + 1 ≤ fuel) :
    items fuel (render (level + 1) v ++
      (renderItems (level + 1) vs ++ (newline level ++ ']' :: tail))) = .ok (v :: vs, tail) := by
  induction vs generalizing v fuel with
  | nil =>
    obtain ⟨fuel, rfl⟩ : ∃ n, fuel = n + 1 := ⟨fuel - 1, by omega⟩
    have hvalue := hreads v (by simp) (level + 1) fuel _ (by
      rw [List.length_append] at hfuel
      omega) (stops_items level [] (']' :: tail))
    rw [items, hvalue, renderItems, List.nil_append]
    simp only [bind, Except.bind, skip_newline level (c := ']') (by decide)]
  | cons w ws ih =>
    obtain ⟨fuel, rfl⟩ : ∃ n, fuel = n + 1 := ⟨fuel - 1, by omega⟩
    simp only [renderItems, List.length_append, List.length_cons] at hfuel
    have hvalue := hreads v (by simp) (level + 1) fuel _ (by omega)
      (stops_items level (w :: ws) (']' :: tail))
    have hrest := ih (v := w) (fun x hx => hproper x (by simp_all))
      (fun x hx => hreads x (by simp_all)) fuel (by
        rw [List.length_append]
        omega)
    obtain ⟨c, cs, hhead, hspace, _⟩ := render_head (level + 1) (hproper w (by simp))
    rw [items, hvalue]
    simp only [bind, Except.bind, renderItems, List.cons_append, List.append_assoc,
      skip_plain (c := ',') (by decide)]
    rw [hhead, List.cons_append, skip_newline (level + 1) hspace, ← List.cons_append, ← hhead,
      hrest]
    rfl

theorem set_member_new {k : Units} {v : Value} {done : List (Units × Value)}
    (h : k ∉ done.map Prod.fst) : setMember k v done = done ++ [(k, v)] := by
  induction done with
  | nil => rfl
  | cons m ms ih =>
    rw [List.map_cons, List.mem_cons, not_or] at h
    rw [setMember, if_neg (Ne.symm h.1), ih h.2, List.cons_append]

/-- A member reads back; what follows its value says whether it is the last one. -/
theorem member_reads (level fuel : Nat) (k : Units) {v : Value} (hproper : Proper v)
    (hreads : Reads v) (hfuel : 2 * (render level v).length ≤ fuel) {rest : Text}
    (hrest : Stops continues rest) (done : List (Units × Value)) :
    (∀ r, skip rest = '}' :: r →
      members (fuel + 1) (stringText k ++ ':' :: ' ' :: (render level v ++ rest)) done =
        .ok (setMember k v done, r)) ∧
    ∀ r, skip rest = ',' :: r →
      members (fuel + 1) (stringText k ++ ':' :: ' ' :: (render level v ++ rest)) done =
        members fuel (skip r) (setMember k v done) := by
  obtain ⟨c, cs, hhead, hspace, _⟩ := render_head level hproper
  have hvalue := hreads level fuel rest hfuel hrest
  have hskip : skip (' ' :: (render level v ++ rest)) = render level v ++ rest := by
    rw [hhead, List.cons_append, skip, List.dropWhile_cons_of_pos (by decide), ← skip,
      skip_plain hspace]
  have hname : ∀ opening, stringFrom opening (k.flatMap unitText ++ ['\x22'] ++
      ':' :: ' ' :: (render level v ++ rest)) = .ok (k, ':' :: ' ' :: (render level v ++ rest)) :=
    fun opening => by
      rw [List.append_assoc, List.singleton_append]
      exact string_text_reads opening k _
  constructor
  · intro r hr
    rw [stringText, List.cons_append, List.cons_append, members]
    simp only [hname, bind, Except.bind, skip_plain (c := ':') (by decide), hskip, hvalue, hr]
  · intro r hr
    rw [stringText, List.cons_append, List.cons_append, members]
    simp only [hname, bind, Except.bind, skip_plain (c := ':') (by decide), hskip, hvalue, hr]

/-- The members of an object read back, from any of them on, behind those that are done. -/
theorem members_read (level : Nat) (tail : Text) {k : Units} {v : Value}
    {ms : List (Units × Value)} (done : List (Units × Value))
    (hproper : ∀ m ∈ (k, v) :: ms, Proper m.2)
    (hreads : ∀ m ∈ (k, v) :: ms, Reads m.2)
    (hkeys : ((done ++ (k, v) :: ms).map Prod.fst).Nodup) (fuel : Nat)
    (hfuel : 2 * (stringText k ++
      (render (level + 1) v ++ renderMembers (level + 1) ms)).length + 1 ≤ fuel) :
    members fuel (stringText k ++ ':' :: ' ' :: (render (level + 1) v ++
      (renderMembers (level + 1) ms ++ (newline level ++ '}' :: tail)))) done =
      .ok (done ++ (k, v) :: ms, tail) := by
  have hnew : k ∉ done.map Prod.fst := by
    rw [List.map_append, List.nodup_append] at hkeys
    exact fun hk => hkeys.2.2 k hk k (by simp) rfl
  obtain ⟨fuel, rfl⟩ : ∃ n, fuel = n + 1 := ⟨fuel - 1, by omega⟩
  have hfirst := member_reads (level + 1) fuel k (hproper (k, v) (by simp))
    (hreads (k, v) (by simp)) (by
      simp only [List.length_append] at hfuel ⊢
      omega) (stops_members level ms ('}' :: tail)) done
  rw [set_member_new hnew] at hfirst
  cases ms with
  | nil =>
    refine hfirst.1 tail ?_
    rw [renderMembers, List.nil_append, skip_newline level (by decide)]
  | cons m ms =>
    obtain ⟨j, w⟩ := m
    have hrest := members_read level tail (k := j) (v := w) (done ++ [(k, v)])
      (fun x hx => hproper x (List.mem_cons_of_mem _ hx))
      (fun x hx => hreads x (List.mem_cons_of_mem _ hx)) (by simpa using hkeys) fuel (by
        simp only [renderMembers, List.length_append, List.length_cons] at hfuel ⊢
        omega)
    have hcomma : skip (renderMembers (level + 1) ((j, w) :: ms) ++
        (newline level ++ '}' :: tail)) =
        ',' :: (newline (level + 1) ++ (stringText j ++ ':' :: ' ' :: (render (level + 1) w ++
          (renderMembers (level + 1) ms ++ (newline level ++ '}' :: tail))))) := by
      rw [renderMembers]
      simp only [List.cons_append, List.append_assoc, List.nil_append]
      exact skip_plain (by decide) _
    rw [hfirst.2 _ hcomma, stringText, List.cons_append, List.cons_append,
      skip_newline (level + 1) (by decide), ← List.cons_append, ← List.cons_append, ← stringText,
      hrest, List.append_assoc, List.singleton_append]
termination_by ms.length

/-- A text is not empty, so that one unit of fuel can be taken off. -/
theorem reads_of_step {v : Value} (hproper : Proper v) (h : ∀ level fuel tail,
    2 * (render level v).length ≤ fuel + 1 → Stops continues tail →
      value (fuel + 1) (render level v ++ tail) = .ok (v, tail)) : Reads v := by
  intro level fuel tail hfuel htail
  obtain ⟨c, cs, hhead, _⟩ := render_head level hproper
  have hsome : 0 < (render level v).length := by
    rw [hhead]
    exact Nat.succ_pos _
  obtain ⟨fuel, rfl⟩ : ∃ n, fuel = n + 1 := ⟨fuel - 1, by omega⟩
  exact h level fuel tail hfuel htail

/-- A bracket with something behind it that does not close it. -/
theorem value_array {fuel : Nat} {cs rest : Text} {c : Char} (hskip : skip cs = c :: rest)
    (hc : c ≠ ']') :
    value (fuel + 1) ('[' :: cs) = (items fuel (c :: rest)).map fun x => (.arr x.1, x.2) := by
  rw [value, hskip]
  split
  · next h => exact absurd (List.cons.inj h).1 hc
  · rfl

theorem value_object {fuel : Nat} {cs rest : Text} {c : Char} (hskip : skip cs = c :: rest)
    (hc : c ≠ '}') :
    value (fuel + 1) ('{' :: cs) = (members fuel (c :: rest) []).map fun x => (.obj x.1, x.2) := by
  rw [value, hskip]
  split
  · next h => exact absurd (List.cons.inj h).1 hc
  · rfl

/-- The text of a proper value reads back. -/
theorem proper_reads {v : Value} (h : Proper v) : Reads v := by
  induction h with
  | null => exact reads_of_step .null fun _ fuel tail _ _ =>
      word_reads (w := ("null".toList, .null)) (by simp [words]) fuel tail
  | bool b =>
    refine reads_of_step (.bool b) fun _ fuel tail _ _ => ?_
    cases b with
    | false => exact word_reads (w := ("false".toList, .bool false)) (by simp [words]) fuel tail
    | true => exact word_reads (w := ("true".toList, .bool true)) (by simp [words]) fuel tail
  | int i => exact reads_of_step (.int i) fun _ fuel tail _ htail =>
      number_value (int_text_reads htail i) fuel
  | real hx => exact reads_of_step (.real hx) fun _ fuel tail _ htail => real_reads hx fuel htail
  | str us =>
    refine reads_of_step (.str us) fun _ fuel tail _ _ => ?_
    rw [render, stringText, List.cons_append, List.cons_append, List.append_assoc,
      List.singleton_append, value, string_text_reads]
    rfl
  | @arr vs hproper hreads =>
    refine reads_of_step (.arr hproper) fun level fuel tail hfuel _ => ?_
    cases vs with
    | nil => rfl
    | cons v vs =>
      obtain ⟨c, cs, hhead, hspace, hclose, _⟩ := render_head (level + 1) (hproper v (by simp))
      have hitems := items_read level tail hproper hreads fuel (by
        simp only [render, List.length_append, List.length_cons] at hfuel ⊢
        omega)
      rw [render]
      simp only [List.cons_append, List.append_assoc, List.nil_append]
      rw [hhead, List.cons_append] at hitems ⊢
      rw [value_array (skip_newline (level + 1) hspace _) hclose, hitems]
      rfl
  | @obj ms hkeys hproper hreads =>
    refine reads_of_step (.obj hkeys hproper) fun level fuel tail hfuel _ => ?_
    cases ms with
    | nil => rfl
    | cons m ms =>
      obtain ⟨k, v⟩ := m
      have hmembers := members_read level tail [] hproper hreads (by simpa using hkeys) fuel (by
          simp only [render, List.length_append, List.length_cons] at hfuel ⊢
          omega)
      rw [render]
      simp only [List.cons_append, List.append_assoc, List.nil_append]
      rw [stringText, List.cons_append, List.cons_append] at hmembers ⊢
      rw [value_object (skip_newline (level + 1) (by decide) _) (by decide), hmembers]
      rfl

/-- Writing a proper value and reading it again gives the value. -/
theorem parse_dump {v : Value} (h : Proper v) : parse (dump v) = .ok v := by
  obtain ⟨c, cs, hhead, hspace, _⟩ := render_head 0 h
  have hreads := proper_reads h 0 (2 * (dump v).length + 2) [] (by rw [dump]; omega)
    (by simp [Stops])
  have hskip : skip (dump v) = dump v := by rw [dump, hhead, skip_plain hspace]
  have hmark : ((dump v).head?.any fun c => c.toNat = 0xFEFF) = false := by
    have hplain := render_plain 0 v c (by rw [hhead]; simp)
    rw [dump, hhead]
    simpa using plain_not_mark hplain
  rw [parse, hmark, hskip]
  rw [List.append_nil, ← dump] at hreads
  simp only [Bool.false_eq_true, if_false, hreads, bind, Except.bind]
  rfl

/-! What the reader gives. -/

theorem number_proper {t : Text} {v : Value} {r : Text} (h : number? t = some (v, r)) :
    Proper v := by
  unfold number? at h
  split at h
  next negative body heq =>
    split at h
    · simp at h
    · simp only at h
      split at h
      · simp only [Option.some.injEq, Prod.mk.injEq] at h
        rw [← h.1]
        exact .int _
      · simp only [Option.some.injEq, Prod.mk.injEq] at h
        rw [← h.1]
        refine .real ?_
        generalize hx : Binary64.ofDecimal negative _ _ = x
        cases x with
        | finite s m q => exact Binary64.of_decimal_canonical hx
        | infinite s => trivial
        | nan => trivial

theorem scalar_proper {t : Text} {v : Value} {r : Text} (h : scalar t = .ok (v, r)) : Proper v := by
  rw [scalar] at h
  split at h
  · next x hword =>
    obtain ⟨w, hw, hx⟩ := List.exists_of_findSome?_eq_some hword
    obtain ⟨_, _, rfl⟩ := Option.map_eq_some_iff.1 hx
    rw [Except.ok.injEq, Prod.mk.injEq] at h
    rw [← h.1]
    simp only [words, List.mem_cons, List.not_mem_nil, or_false] at hw
    rcases hw with rfl | rfl | rfl | rfl | rfl | rfl
    · exact .null
    · exact .bool true
    · exact .bool false
    · exact .real trivial
    · exact .real trivial
    · exact .real trivial
  · split at h
    · next x hnumber =>
      rw [Except.ok.injEq] at h
      exact number_proper (h ▸ hnumber)
    · simp at h

theorem set_member_keys (k : Units) (v : Value) (ms : List (Units × Value)) :
    (setMember k v ms).map Prod.fst =
      if k ∈ ms.map Prod.fst then ms.map Prod.fst else ms.map Prod.fst ++ [k] := by
  induction ms with
  | nil => rfl
  | cons m ms ih =>
    rw [setMember]
    by_cases hk : m.1 = k
    · rw [if_pos hk, if_pos (by simp [hk])]
      simp [hk]
    · rw [if_neg hk, List.map_cons, ih]
      by_cases hms : k ∈ ms.map Prod.fst
      · rw [if_pos hms, if_pos (by simp [hms])]
        rfl
      · rw [if_neg hms, if_neg (by simp [hms, Ne.symm hk])]
        rfl

theorem set_member_mem {k : Units} {v : Value} {ms : List (Units × Value)} {x : Units × Value}
    (h : x ∈ setMember k v ms) : x = (k, v) ∨ x ∈ ms := by
  induction ms with
  | nil => exact Or.inl (List.mem_singleton.1 h)
  | cons m ms ih =>
    rw [setMember] at h
    split at h
    · rcases List.mem_cons.1 h with rfl | h
      · exact Or.inl rfl
      · exact Or.inr (List.mem_cons_of_mem _ h)
    · rcases List.mem_cons.1 h with rfl | h
      · exact Or.inr (by simp)
      · exact (ih h).imp_right (List.mem_cons_of_mem _)

/-- Members that an object may have. -/
def ProperMembers (ms : List (Units × Value)) : Prop :=
  (ms.map Prod.fst).Nodup ∧ ∀ m ∈ ms, Proper m.2

theorem set_member_proper {k : Units} {v : Value} {ms : List (Units × Value)}
    (hms : ProperMembers ms) (hv : Proper v) : ProperMembers (setMember k v ms) := by
  constructor
  · rw [set_member_keys]
    split
    · exact hms.1
    · next hk =>
      rw [List.nodup_append]
      refine ⟨hms.1, by simp, fun a ha b hb => ?_⟩
      rw [List.mem_singleton.1 hb]
      rintro rfl
      exact hk ha
  · intro m hm
    rcases set_member_mem hm with rfl | hm
    · exact hv
    · exact hms.2 m hm

theorem of_map_ok {α β ε : Type} {f : α → β} {x : Except ε α} {y : β} (h : x.map f = .ok y) :
    ∃ a, x = .ok a ∧ f a = y := by
  cases x with
  | error e => simp [Except.map] at h
  | ok a => exact ⟨a, rfl, by simpa [Except.map] using h⟩

section

variable {fuel : Nat}

theorem value_proper (hitems : ∀ t vs r, items fuel t = .ok (vs, r) → ∀ v ∈ vs, Proper v)
    (hmembers : ∀ t done ms r, members fuel t done = .ok (ms, r) → ProperMembers done →
      ProperMembers ms) {t r : Text} {v : Value} (h : value (fuel + 1) t = .ok (v, r)) :
    Proper v := by
  rw [value.eq_def] at h
  simp only at h
  split at h
  · obtain ⟨x, _, hx⟩ := of_map_ok h
    rw [Prod.mk.injEq] at hx
    exact hx.1 ▸ .str _
  · split at h
    · rw [Except.ok.injEq, Prod.mk.injEq] at h
      exact h.1 ▸ .arr (by simp)
    · obtain ⟨x, hread, hx⟩ := of_map_ok h
      rw [Prod.mk.injEq] at hx
      exact hx.1 ▸ .arr (hitems _ _ _ hread)
  · split at h
    · rw [Except.ok.injEq, Prod.mk.injEq] at h
      exact h.1 ▸ .obj (by simp) (by simp)
    · obtain ⟨x, hread, hx⟩ := of_map_ok h
      rw [Prod.mk.injEq] at hx
      obtain ⟨hkeys, hproper⟩ := hmembers _ _ _ _ hread ⟨by simp, by simp⟩
      exact hx.1 ▸ .obj hkeys hproper
  · exact scalar_proper h

variable (hvalue : ∀ t v r, value fuel t = .ok (v, r) → Proper v)
include hvalue

theorem items_proper (hitems : ∀ t vs r, items fuel t = .ok (vs, r) → ∀ v ∈ vs, Proper v)
    {t r : Text} {vs : List Value} (h : items (fuel + 1) t = .ok (vs, r)) : ∀ v ∈ vs, Proper v := by
  rw [items] at h
  cases hv : value fuel t with
  | error x => simp [hv, bind, Except.bind] at h
  | ok x =>
    have hfirst := hvalue t x.1 x.2 hv
    simp only [hv, bind, Except.bind] at h
    split at h
    · rw [Except.ok.injEq, Prod.mk.injEq] at h
      rw [← h.1]
      simpa using hfirst
    · obtain ⟨y, hread, hy⟩ := of_map_ok h
      rw [Prod.mk.injEq] at hy
      rw [← hy.1]
      intro w hw
      rcases List.mem_cons.1 hw with rfl | hw
      · exact hfirst
      · exact hitems _ _ _ hread w hw
    · simp at h

theorem members_proper (hmembers : ∀ t done ms r, members fuel t done = .ok (ms, r) →
      ProperMembers done → ProperMembers ms) {t r : Text} {done ms : List (Units × Value)}
    (h : members (fuel + 1) t done = .ok (ms, r)) (hdone : ProperMembers done) :
    ProperMembers ms := by
  rw [members.eq_def] at h
  simp only at h
  split at h
  · next cs =>
    cases hk : stringFrom ('\x22' :: cs) cs with
    | error x => simp [hk, bind, Except.bind] at h
    | ok k =>
      simp only [hk, bind, Except.bind] at h
      split at h
      · next r' _ =>
        cases hv : value fuel (skip r') with
        | error x => simp [hv] at h
        | ok x =>
          have hset := set_member_proper (k := k.1) hdone (hvalue _ x.1 x.2 hv)
          simp only [hv] at h
          split at h
          · rw [Except.ok.injEq, Prod.mk.injEq] at h
            exact h.1 ▸ hset
          · exact hmembers _ _ _ _ h hset
          · simp at h
      · simp at h
  · simp at h

end

/-- With any fuel, what is read is proper. -/
theorem reader_proper (fuel : Nat) :
    (∀ t v r, value fuel t = .ok (v, r) → Proper v) ∧
    (∀ t vs r, items fuel t = .ok (vs, r) → ∀ v ∈ vs, Proper v) ∧
    ∀ t done ms r, members fuel t done = .ok (ms, r) → ProperMembers done → ProperMembers ms := by
  induction fuel with
  | zero =>
    refine ⟨fun t v r h => ?_, fun t vs r h => ?_, fun t done ms r h => ?_⟩
    · simp [value] at h
    · simp [items] at h
    · simp [members] at h
  | succ fuel ih =>
    obtain ⟨hvalue, hitems, hmembers⟩ := ih
    exact ⟨fun _ _ _ => value_proper hitems hmembers, fun _ _ _ => items_proper hvalue hitems,
      fun _ _ _ _ => members_proper hvalue hmembers⟩

/-- What is read from a text is proper. -/
theorem parse_proper {t : Text} {v : Value} (h : parse t = .ok v) : Proper v := by
  rw [parse] at h
  split at h
  · simp at h
  · cases hvalue : value (2 * t.length + 2) (skip t) with
    | error x => simp [hvalue, bind, Except.bind] at h
    | ok x =>
      obtain ⟨w, r⟩ := x
      simp only [hvalue, bind, Except.bind] at h
      split at h
      · rw [Except.ok.injEq] at h
        exact h ▸ (reader_proper _).1 _ _ _ hvalue
      · simp at h

end Restage.Json
