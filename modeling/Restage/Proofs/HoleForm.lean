import Restage.Proofs.ShapeRoundTrip

/-!
The bracketed form of a record. A hole belongs to the last move in front of it, or to the start of
the record; in the bracketed form a begin-hole code stands in front of that place for each of its
holes. A migration gives this form (`migrate_bracketed`), and so does a sweep over the record in
place that counts the codes it converts (`sweep_from_eq`).
-/

set_option autoImplicit false

namespace Restage.Shape.Record

section

variable {α : Type} (is : Code → α → Bool) (of : Code → α)

/-! The form, by index. -/

/-- Whether a code stands at an index. -/
def codeAt (c : Code) (r : List α) (i : Nat) : Bool := r[i]?.any (is c)

/-- The last move in front of an index. -/
def moveBefore (r : List α) : Nat → Option Nat
  | 0 => none
  | i + 1 => if codeAt is .moveTo r i then some i else moveBefore r i

/-- The number of holes that belong to a move, or to the start of the record. -/
def holesOf (r : List α) (place : Option Nat) : Nat :=
  (List.range r.length).countP fun i => codeAt is .legacyHole r i && moveBefore is r i == place

/-- An entry with a legacy code replaced. -/
def current (a : α) : α :=
  if is .legacyClose a then of .closePath else if is .legacyHole a then of .endHole else a

def bracketed (r : List α) : List α :=
  List.replicate (holesOf is r none) (of .beginHole) ++
    r.zipIdx.flatMap fun x =>
      List.replicate (holesOf is r (some x.2)) (of .beginHole) ++ [current is of x.1]

/-- The place that `moveBefore` gives is the largest index of a move in front of an index. -/
theorem move_before_iff {r : List α} {i j : Nat} : moveBefore is r i = some j ↔
    j < i ∧ codeAt is .moveTo r j = true ∧ ∀ k, j < k → k < i → codeAt is .moveTo r k = false := by
  induction i with
  | zero => simp [moveBefore]
  | succ i ih =>
    rw [moveBefore]
    split
    · next hmove =>
      rw [Option.some.injEq]
      constructor
      · rintro rfl
        exact ⟨Nat.lt_succ_self _, hmove, fun k _ _ => by omega⟩
      · rintro ⟨hlt, _, hlast⟩
        by_contra hne
        rw [hlast i (by omega) (Nat.lt_succ_self i)] at hmove
        exact Bool.noConfusion hmove
    · next hmove =>
      rw [Bool.not_eq_true] at hmove
      rw [ih]
      constructor
      · rintro ⟨hlt, hj, hlast⟩
        refine ⟨by omega, hj, fun k hjk hk => ?_⟩
        rcases Nat.lt_succ_iff_lt_or_eq.1 hk with hk | rfl
        · exact hlast k hjk hk
        · exact hmove
      · rintro ⟨hlt, hj, hlast⟩
        have hne : j ≠ i := by
          rintro rfl
          rw [hmove] at hj
          exact Bool.noConfusion hj
        exact ⟨by omega, hj, fun k hjk hk => hlast k hjk (by omega)⟩

/-! The form, from the left. -/

/-- The holes in front of the first move. -/
def lead : List α → Nat
  | [] => 0
  | a :: r => (if is .legacyHole a then 1 else 0) + if is .moveTo a then 0 else lead r

/-- A record with begin-hole codes in front of its moves, and its legacy codes replaced. -/
def opened : List α → List α
  | [] => []
  | a :: r => List.replicate (if is .moveTo a then lead is r else 0) (of .beginHole) ++
      current is of a :: opened r

theorem code_at_append (c : Code) (u v : List α) (k : Nat) :
    codeAt is c (u ++ v) (u.length + k) = codeAt is c v k := by
  rw [codeAt, codeAt, List.getElem?_append_right (Nat.le_add_right _ _), Nat.add_sub_cancel_left]

/-- A move in the second part of a record, or else the last one of the first part. -/
theorem move_before_append (u v : List α) (k : Nat) : moveBefore is (u ++ v) (u.length + k) =
    ((moveBefore is v k).map (u.length + ·)).or (moveBefore is (u ++ v) u.length) := by
  induction k with
  | zero => rfl
  | succ k ih =>
    rw [← Nat.add_assoc, moveBefore, code_at_append, ih, moveBefore.eq_2 is v k]
    split <;> rfl

theorem move_before_none (a : α) (v : List α) (k : Nat) :
    (moveBefore is (a :: v) (k + 1) == none) = (!is .moveTo a && moveBefore is v k == none) := by
  have hsplit := move_before_append is [a] v k
  rw [List.singleton_append, List.length_singleton, Nat.add_comm] at hsplit
  have hfirst : moveBefore is (a :: v) 1 = if is .moveTo a then some 0 else none := by
    simp [moveBefore, codeAt]
  rw [hsplit, hfirst]
  cases is .moveTo a <;> cases moveBefore is v k <;> rfl

theorem holes_of_start (r : List α) : holesOf is r none = lead is r := by
  induction r with
  | nil => rfl
  | cons a r ih =>
    rw [holesOf, List.length_cons, List.range_succ_eq_map, List.countP_cons, List.countP_map, lead,
      Nat.add_comm]
    congr 1
    · simp [codeAt, moveBefore]
    · rw [← ih, holesOf]
      have hstep :
          ((fun i => codeAt is .legacyHole (a :: r) i && moveBefore is (a :: r) i == none) ∘
            Nat.succ) =
          fun k => !is .moveTo a && (codeAt is .legacyHole r k && moveBefore is r k == none) := by
        funext k
        rw [Function.comp_apply, move_before_none]
        have hcode : codeAt is .legacyHole (a :: r) k.succ = codeAt is .legacyHole r k := by
          simp [codeAt]
        rw [hcode, Bool.and_left_comm]
      rw [hstep]
      cases is .moveTo a <;> simp

/-- Only a move has holes, namely those in front of the next move. -/
theorem holes_of_place (u v : List α) (a : α) :
    holesOf is (u ++ a :: v) (some u.length) = if is .moveTo a then lead is v else 0 := by
  have hlen : (u ++ a :: v).length = (u ++ [a]).length + v.length := by simp; omega
  have hcut : u ++ a :: v = (u ++ [a]) ++ v := by simp
  have hplace : moveBefore is ((u ++ [a]) ++ v) (u ++ [a]).length =
      if is .moveTo a then some u.length else moveBefore is ((u ++ [a]) ++ v) u.length := by
    rw [List.length_append, List.length_singleton, moveBefore, List.append_assoc]
    have hcode := code_at_append is .moveTo u ([a] ++ v) 0
    rw [Nat.add_zero] at hcode
    rw [hcode]
    simp [codeAt]
  have hfront : (List.range (u ++ [a]).length).countP (fun i =>
      codeAt is .legacyHole (u ++ a :: v) i &&
        moveBefore is (u ++ a :: v) i == some u.length) = 0 := by
    rw [List.countP_eq_zero]
    intro i hi hmem
    rw [Bool.and_eq_true, beq_iff_eq] at hmem
    have hlt := ((move_before_iff is).1 hmem.2).1
    rw [List.mem_range, List.length_append, List.length_singleton] at hi
    omega
  rw [holesOf, hlen, List.range_add, List.countP_append, hfront, List.countP_map, Nat.zero_add,
    ← holes_of_start, holesOf]
  have hbehind : ∀ k, (moveBefore is (u ++ a :: v) ((u ++ [a]).length + k) == some u.length) =
      (is .moveTo a && moveBefore is v k == none) := by
    intro k
    rw [hcut, move_before_append, hplace]
    cases hk : moveBefore is v k with
    | some j =>
      have hne : (u ++ [a]).length + j ≠ u.length := by
        rw [List.length_append, List.length_singleton]
        omega
      simpa using hne
    | none =>
      cases ha : is .moveTo a with
      | true => simp
      | false =>
        have hne : moveBefore is ((u ++ [a]) ++ v) u.length ≠ some u.length := fun h =>
          Nat.lt_irrefl _ ((move_before_iff is).1 h).1
        simpa using hne
  have hstep : ((fun i => codeAt is .legacyHole (u ++ a :: v) i &&
      moveBefore is (u ++ a :: v) i == some u.length) ∘ ((u ++ [a]).length + ·)) =
      fun k => is .moveTo a && (codeAt is .legacyHole v k && moveBefore is v k == none) := by
    funext k
    rw [Function.comp_apply, hbehind, hcut, code_at_append, Bool.and_left_comm]
  rw [hstep]
  cases is .moveTo a <;> simp

theorem bracketed_opened (r : List α) :
    bracketed is of r = List.replicate (lead is r) (of .beginHole) ++ opened is of r := by
  have hrest : ∀ u v : List α, r = u ++ v → (v.zipIdx u.length).flatMap (fun x =>
      List.replicate (holesOf is r (some x.2)) (of .beginHole) ++ [current is of x.1]) =
        opened is of v := by
    intro u v
    induction v generalizing u with
    | nil => simp [opened]
    | cons a v ih =>
      intro hr
      have hnext := ih (u ++ [a]) (by simp [hr])
      rw [List.length_append, List.length_singleton] at hnext
      rw [List.zipIdx_cons, List.flatMap_cons, hnext, opened]
      simp only [hr, holes_of_place, List.append_assoc, List.singleton_append]
  have hall := hrest [] r rfl
  rw [List.length_nil] at hall
  rw [bracketed, holes_of_start, hall]

/-- The form of a record of entries that are read as others. -/
theorem bracketed_map {β : Type} {is' : Code → β → Bool} {of' : Code → β} {read : α → β}
    {write : β → α} (his : ∀ c a, is' c (read a) = is c a) (hof : ∀ c, write (of' c) = of c)
    (hread : ∀ a, write (read a) = a) (r : List α) :
    (bracketed is' of' (r.map read)).map write = bracketed is of r := by
  have hlead : ∀ v : List α, lead is' (v.map read) = lead is v := by
    intro v
    induction v with
    | nil => rfl
    | cons a v ih => rw [List.map_cons, lead, lead, his, his, ih]
  have hopened : ∀ v : List α, (opened is' of' (v.map read)).map write = opened is of v := by
    intro v
    induction v with
    | nil => rfl
    | cons a v ih =>
      have hcurrent : write (current is' of' (read a)) = current is of a := by
        rw [current, current, his, his, apply_ite write, apply_ite write, hof, hof, hread]
      rw [List.map_cons, opened, opened, List.map_append, List.map_cons, List.map_replicate, ih,
        his, hlead, hof, hcurrent]
  rw [bracketed_opened, bracketed_opened, List.map_append, List.map_replicate, hlead, hof, hopened]

end

/-! Records of tokens. -/

section

variable {α : Type}

/-- Begin-hole codes are put in front of the last move one by one. -/
theorem open_hole_move (n : Nat) (done : Record α) : openHole^[n] (.code .moveTo :: done) =
    .code .moveTo :: (List.replicate n (.code .beginHole) ++ done) := by
  induction n with
  | zero => rfl
  | succ n ih => rw [Function.iterate_succ_apply', ih]; rfl

theorem open_hole_behind {t : Token α} (ht : t ≠ .code .moveTo) (n : Nat) (done : Record α) :
    openHole^[n] (t :: done) = t :: openHole^[n] done := by
  induction n with
  | zero => rfl
  | succ n ih =>
    rw [Function.iterate_succ_apply', ih, Function.iterate_succ_apply', openHole.eq_3]
    exact fun h => absurd h ht

theorem open_hole_start (n : Nat) :
    openHole^[n] ([] : Record α) = List.replicate n (.code .beginHole) := by
  induction n with
  | zero => rfl
  | succ n ih =>
    rw [Function.iterate_succ_apply', ih, List.replicate_succ']
    clear ih
    induction n with
    | zero => rfl
    | succ n ih => rw [List.replicate_succ, openHole.eq_3 _ _ (by simp), ih]; rfl

/-- The holes in front of the next move open in the part that is done; what follows is migrated
alike behind any part. -/
theorem migrate_from_opened (done ts : Record α) : migrateFrom done ts =
    (openHole^[lead isCode ts] done).reverse ++ opened isCode .code ts := by
  fun_induction migrateFrom done ts with
  | case1 done => simp [lead, opened]
  | case2 done ts ih =>
    rw [ih, open_hole_behind (by simp)]
    simp [lead, opened, current, isCode]
  | case3 done ts ih =>
    rw [ih, open_hole_behind (by simp), ← Function.iterate_succ_apply]
    simp [lead, opened, current, isCode, Nat.add_comm]
  | case4 done t ts hclose hhole ih =>
    have hcode : ∀ c : Code, t ≠ .code c → isCode c t = false := by
      intro c hc
      cases t with
      | code d =>
        have hne : c ≠ d := fun h => hc (by rw [h])
        simpa [isCode] using hne
      | value a => rfl
    have hcurrent : current isCode Token.code t = t := by
      simp [current, hcode _ hclose, hcode _ hhole]
    by_cases hmove : t = .code .moveTo
    · subst hmove
      rw [ih, open_hole_move]
      simp [lead, opened, current, isCode]
    · rw [ih, open_hole_behind hmove]
      simp [lead, opened, hcurrent, hcode _ hmove, hcode _ hhole]

theorem migrate_opened (r : Record α) : r.migrate = bracketed isCode .code r := by
  rw [migrate, migrate_from_opened, open_hole_start, bracketed_opened, List.reverse_replicate]

/-! The sweep in place. -/

/-- Where a begin-hole code is put for the hole at an index. -/
def holePlace (r : Record α) (i : Nat) : Nat := (moveBefore isCode r i).getD 0

/-- A sweep over a record from an index on, and the counts of the codes converted so far. Behind a
hole the record is longer by the code put in front, so the index moves by two. -/
def sweepFrom (r : Record α) (i closes holes : Nat) : Record α × Nat × Nat :=
  if _ : i < r.length then
    if codeAt isCode .legacyClose r i then
      sweepFrom (r.set i (.code .closePath)) (i + 1) (closes + 1) holes
    else if codeAt isCode .legacyHole r i then
      sweepFrom ((r.set i (.code .endHole)).insertIdx (holePlace (r.set i (.code .endHole)) i)
        (.code .beginHole)) (i + 2) closes (holes + 1)
    else sweepFrom r (i + 1) closes holes
  else (r, closes, holes)
termination_by r.length - i
decreasing_by
  · rw [List.length_set]
    omega
  · have hlonger : ((r.set i (.code .endHole)).insertIdx (holePlace (r.set i (.code .endHole)) i)
        (.code .beginHole)).length ≤ (r.set i (.code .endHole)).length + 1 :=
      List.length_insertIdx_le_succ
    rw [List.length_set] at hlonger
    omega
  · omega

def sweep (r : Record α) : Record α × Nat × Nat := sweepFrom r 0 0 0

theorem insert_between (u v : Record α) (t : Token α) :
    (u ++ v).insertIdx u.length t = u ++ t :: v := by
  induction u with
  | nil => rfl
  | cons a u ih => rw [List.cons_append, List.length_cons, List.insertIdx_succ_cons, ih]; rfl

theorem code_at_part (c : Code) (done ts : Record α) (t : Token α) :
    codeAt isCode c (done.reverse ++ t :: ts) done.length = isCode c t := by
  simp [codeAt]

theorem is_code_iff {c : Code} {t : Token α} : isCode c t = true ↔ t = .code c := by
  cases t with
  | code d => simp [isCode, eq_comm]
  | value a => simp [isCode]

/-- The backward search finds the place where the part that is done opens its hole. -/
theorem insert_open_hole (done ts : Record α) :
    (done.reverse ++ ts).insertIdx (holePlace (done.reverse ++ ts) done.length) (.code .beginHole) =
      (openHole done).reverse ++ ts := by
  induction done generalizing ts with
  | nil => rfl
  | cons t done ih =>
    have hcut : (t :: done).reverse ++ ts = done.reverse ++ (t :: ts) := by simp
    rw [hcut, holePlace, List.length_cons, moveBefore, code_at_part]
    by_cases hmove : t = .code .moveTo
    · subst hmove
      have hinsert := insert_between done.reverse (.code .moveTo :: ts) (.code .beginHole)
      rw [List.length_reverse] at hinsert
      rw [if_pos (is_code_iff.2 rfl), Option.getD_some, hinsert]
      simp [openHole]
    · rw [if_neg fun h => hmove (is_code_iff.1 h), openHole.eq_3 _ _ fun h => absurd h hmove]
      have hrest := ih (t :: ts)
      rw [holePlace] at hrest
      rw [hrest]
      simp

/-- The sweep does what the migration does behind the part that is done, and counts the codes that
it converts. -/
theorem sweep_from_eq (done ts : Record α) (closed opened : Nat) :
    sweepFrom (done.reverse ++ ts) done.length closed opened =
      (migrateFrom done ts, closed + closes ts, opened + holes ts) := by
  induction ts generalizing done closed opened with
  | nil =>
    rw [sweepFrom, dif_neg (by simp), migrateFrom]
    simp [closes, holes]
  | cons t ts ih =>
    have hset : ∀ x : Token α, (done.reverse ++ t :: ts).set done.length x =
        (x :: done).reverse ++ ts := by
      intro x
      rw [List.set_append_right _ _ (by simp)]
      simp
    have hkeep : done.reverse ++ t :: ts = (t :: done).reverse ++ ts := by simp
    rw [sweepFrom, dif_pos (by simp), code_at_part, code_at_part]
    by_cases hclose : t = .code .legacyClose
    · subst hclose
      have hnext := ih (.code .closePath :: done) (closed + 1) opened
      rw [List.length_cons] at hnext
      rw [if_pos (is_code_iff.2 rfl), hset, hnext, migrateFrom]
      simp [closes, holes, isCode, Nat.add_assoc, Nat.add_comm 1]
    · rw [if_neg fun h => hclose (is_code_iff.1 h)]
      by_cases hhole : t = .code .legacyHole
      · subst hhole
        have hopen := insert_open_hole done (.code .endHole :: ts)
        have hend : (openHole done).reverse ++ Token.code .endHole :: ts =
            (.code .endHole :: openHole done).reverse ++ ts := by simp
        have hset' :
            (done.reverse ++ Token.code .legacyHole :: ts).set done.length (.code .endHole) =
              done.reverse ++ .code .endHole :: ts := by rw [hset]; simp
        have hlen : done.length + 2 = (Token.code .endHole :: openHole done).length := by
          rw [List.length_cons, length_open_hole]
        rw [if_pos (is_code_iff.2 rfl), hset', hopen, hend, hlen, ih, migrateFrom]
        simp [closes, holes, isCode, Nat.add_assoc, Nat.add_comm 1]
      · have hnext := ih (t :: done) closed opened
        rw [List.length_cons] at hnext
        rw [if_neg fun h => hhole (is_code_iff.1 h), hkeep, hnext, migrateFrom]
        · have hc : isCode .legacyClose t = false :=
            Bool.not_eq_true _ ▸ fun h => hclose (is_code_iff.1 h)
          have hh : isCode .legacyHole t = false :=
            Bool.not_eq_true _ ▸ fun h => hhole (is_code_iff.1 h)
          simp [closes, holes, hc, hh]
        · exact hclose
        · exact hhole

theorem sweep_eq (r : Record α) : sweep r = (r.migrate, r.closes, r.holes) := by
  have h := sweep_from_eq [] r 0 0
  rw [Nat.zero_add, Nat.zero_add] at h
  exact h

end

/-! Records of JSON values and of texts. -/

/-- Whether a JSON value is the string of a code. -/
def isString (c : Code) : Json.Value → Bool
  | .str us => us = Json.unitsOfText c.text
  | _ => false

def isText (c : Code) (t : Text) : Bool := t = c.text

/-- An ASCII character stands for one unit, and no other unit is read as that character. -/
theorem ascii_unit_iff {u : UInt16} {c : Char} (hc : c.toNat < 128) (hzero : c.toNat ≠ 0) :
    Char.ofNat u.toNat = c ↔ u = c.toNat.toUInt16 := by
  have hback : c.toNat.toUInt16.toNat = c.toNat := by
    rw [Nat.toUInt16, UInt16.toNat_ofNat']
    omega
  constructor
  · intro h
    have hval := congrArg Char.toNat h
    rw [Char.toNat_ofNat] at hval
    split at hval
    · rw [← UInt16.toNat_inj, hval, hback]
    · exact absurd hval.symm hzero
  · rintro rfl
    rw [hback, Char.ofNat_toNat]

theorem ascii_text_iff {us : Json.Units} {t : Text} (ht : ∀ c ∈ t, c.toNat < 128 ∧ c.toNat ≠ 0) :
    asciiText us = t ↔ us = Json.unitsOfText t := by
  induction t generalizing us with
  | nil => simp [asciiText, Json.unitsOfText]
  | cons c t ih =>
    have hc := ht c List.mem_cons_self
    have hunits : Json.unitsOf c = [c.toNat.toUInt16] := by
      rw [Json.unitsOf, if_pos (by omega)]
    have ih' := fun us' => @ih us' fun d hd => ht d (List.mem_cons_of_mem c hd)
    rw [Json.unitsOfText, List.flatMap_cons, hunits, List.singleton_append]
    cases us with
    | nil => simp [asciiText]
    | cons u us =>
      rw [asciiText, List.map_cons, List.cons.injEq, ascii_unit_iff hc.1 hc.2, List.cons.injEq]
      exact and_congr_right fun _ => ih' us

theorem code_text_ascii (c : Code) : ∀ d ∈ c.text, d.toNat < 128 ∧ d.toNat ≠ 0 := by
  cases c <;> decide

theorem code_of_text_iff {t : Text} {c : Code} : Code.ofText? t = some c ↔ t = c.text := by
  constructor
  · intro h
    fun_cases Code.ofText? t with
    | case7 => simp_all [Code.ofText?]
    | _ => obtain rfl := Option.some.inj h; rfl
  · rintro rfl
    exact code_of_text c

theorem is_code_text (c : Code) (t : Text) : isCode c (tokenOfText t) = isText c t := by
  rw [Bool.eq_iff_iff, is_code_iff, isText, decide_eq_true_iff, ← code_of_text_iff, tokenOfText]
  cases Code.ofText? t <;> simp

theorem is_code_value (c : Code) (v : Json.Value) : isCode c (tokenOfValue v) = isString c v := by
  cases v with
  | str us =>
    rw [Bool.eq_iff_iff, is_code_iff, isString, decide_eq_true_iff,
      ← ascii_text_iff (code_text_ascii c), ← code_of_text_iff, tokenOfValue]
    cases Code.ofText? (asciiText us) <;> simp
  | _ => rfl

theorem text_read (t : Text) : textOfToken (tokenOfText t) = t := by
  rw [tokenOfText]
  split
  · next c hc => exact (code_of_text_iff.1 hc).symm
  · rfl

theorem value_read (v : Json.Value) : valueOfToken (tokenOfValue v) = v := by
  cases v with
  | str us =>
    rw [tokenOfValue]
    split
    · next c hc =>
      rw [valueOfToken, ← (ascii_text_iff (code_text_ascii c)).1 (code_of_text_iff.1 hc)]
    · rfl
  | _ => rfl

/-- A migration of a list of entries, with the numbers of its legacy close and hole codes. -/
def migrated {α : Type} (read : α → Token α) (write : Token α → α) (r : List α) :
    List α × Nat × Nat :=
  let ts : Record α := r.map read
  (ts.migrate.map write, ts.closes, ts.holes)

theorem migrated_eq {α : Type} {read : α → Token α} {write : Token α → α} {is : Code → α → Bool}
    (his : ∀ c a, isCode c (read a) = is c a) (hread : ∀ a, write (read a) = a) (r : List α) :
    migrated read write r = (bracketed is (fun c => write (.code c)) r,
      r.countP (is .legacyClose), r.countP (is .legacyHole)) := by
  have hcount : ∀ c, List.countP (isCode c) (r.map read) = r.countP (is c) := by
    intro c
    rw [List.countP_map]
    exact List.countP_congr fun a _ => by rw [Function.comp_apply, his]
  rw [migrated, migrate_opened, closes, holes, hcount, hcount]
  rw [bracketed_map is (fun c => write (.code c)) his (fun _ => rfl) hread]

/-- A migrated record is the bracketed form of the record that was read, and the counts are those
of its legacy codes; the sweep in place gives the same record and counts. -/
theorem migrate_bracketed :
    (∀ vs : List Json.Value, migrated tokenOfValue valueOfToken vs =
      (bracketed isString (fun c => .str (Json.unitsOfText c.text)) vs,
        vs.countP (isString .legacyClose), vs.countP (isString .legacyHole))) ∧
    (∀ ts : List Text, migrated tokenOfText textOfToken ts =
      (bracketed isText Code.text ts, ts.countP (isText .legacyClose),
        ts.countP (isText .legacyHole))) ∧
    ∀ {α : Type} (r : Record α), sweep r = (r.migrate, r.closes, r.holes) :=
  ⟨migrated_eq is_code_value value_read, migrated_eq is_code_text text_read, sweep_eq⟩

end Restage.Shape.Record
