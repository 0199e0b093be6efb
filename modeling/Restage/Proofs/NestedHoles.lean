import Mathlib.Combinatorics.Enumerative.DyckWord
import Restage.Proofs.ShapeRoundTrip

/-!
Nesting of holes. The hole codes of a record are nested when they make a Dyck word, a begin-hole code
for a step up and an end-hole code for a step down. A migration puts a begin-hole code somewhere in
front of each end-hole code that it makes, so that nested codes stay nested (`migrate_nested`).
-/

set_option autoImplicit false

namespace Restage.Shape.Record

/-! Open holes. -/

/-- How many holes are open behind some steps; none when one is closed that is not open. -/
def openAfter : Nat → List DyckStep → Option Nat
  | n, [] => some n
  | n, .U :: w => openAfter (n + 1) w
  | 0, .D :: _ => none
  | n + 1, .D :: w => openAfter n w

theorem forall_take_cons {P : List DyckStep → Prop} {x : DyckStep} {w : List DyckStep} :
    (∀ i, P ((x :: w).take i)) ↔ P [] ∧ ∀ i, P (x :: w.take i) :=
  ⟨fun h => ⟨h 0, fun i => h (i + 1)⟩, fun h i => by
    cases i with
    | zero => exact h.1
    | succ i => exact h.2 i⟩

theorem open_after_iff {n m : Nat} {w : List DyckStep} : openAfter n w = some m ↔
    n + w.count .U = m + w.count .D ∧
      ∀ i, (w.take i).count .D ≤ n + (w.take i).count .U := by
  fun_induction openAfter n w with
  | case1 n => simp
  | case2 n w ih =>
    rw [ih, forall_take_cons (P := fun u => u.count .D ≤ n + u.count .U)]
    simp [Nat.add_assoc, Nat.add_comm 1]
  | case3 w =>
    rw [forall_take_cons (P := fun u => u.count .D ≤ 0 + u.count .U)]
    refine iff_of_false (by simp) fun h => ?_
    simpa using h.2.2 0
  | case4 n w ih =>
    rw [ih, forall_take_cons (P := fun u => u.count .D ≤ n + 1 + u.count .U)]
    simp [Nat.add_right_comm _ 1, ← Nat.add_assoc]

theorem open_after_append (n : Nat) (u v : List DyckStep) :
    openAfter n (u ++ v) = (openAfter n u).bind fun m => openAfter m v := by
  fun_induction openAfter n u with
  | case1 n => rfl
  | case2 n u ih => exact ih
  | case3 u => rfl
  | case4 n u ih => exact ih

/-- One more open hole stays open. -/
theorem open_after_succ {n m : Nat} {w : List DyckStep} (h : openAfter n w = some m) :
    openAfter (n + 1) w = some (m + 1) := by
  fun_induction openAfter n w with
  | case1 n => rw [← Option.some.inj h]; rfl
  | case2 n w ih => exact ih h
  | case3 w => exact absurd h (by simp)
  | case4 n w ih => exact ih h

/-- A pair of codes around any stretch changes nothing behind it. -/
theorem open_after_around {n m : Nat} {u v w : List DyckStep}
    (h : openAfter n (u ++ v ++ w) = some m) :
    openAfter n (u ++ .U :: v ++ .D :: w) = some m := by
  rw [open_after_append, Option.bind_eq_some_iff] at h ⊢
  obtain ⟨b, huv, hw⟩ := h
  refine ⟨b + 1, ?_, hw⟩
  rw [open_after_append, Option.bind_eq_some_iff] at huv ⊢
  obtain ⟨a, hu, hv⟩ := huv
  exact ⟨a, hu, open_after_succ hv⟩

/-! Hole codes of a record. -/

section

variable {α : Type}

def holeStep : Token α → Option DyckStep
  | .code .beginHole => some .U
  | .code .endHole => some .D
  | _ => none

def holeSteps (r : Record α) : List DyckStep := r.filterMap holeStep

/-- The hole codes of a record are brackets that fit. -/
def Nested (r : Record α) : Prop := ∃ w : DyckWord, w.toList = holeSteps r

theorem nested_iff {r : Record α} : Nested r ↔ openAfter 0 (holeSteps r) = some 0 := by
  rw [open_after_iff]
  constructor
  · rintro ⟨w, hw⟩
    rw [← hw]
    exact ⟨by simpa using w.count_U_eq_count_D, by simpa using w.count_D_le_count_U⟩
  · rintro ⟨htotal, hprefix⟩
    exact ⟨⟨holeSteps r, by simpa using htotal, by simpa using hprefix⟩, rfl⟩

instance (r : Record α) : Decidable (Nested r) := decidable_of_iff _ nested_iff.symm

theorem nested_without {r : Record α} (h : ∀ x ∈ r, holeStep x = none) : Nested r :=
  ⟨0, (List.filterMap_eq_nil_iff.2 h).symm⟩

/-- In the order of the record, one begin-hole code is put somewhere into the part that is done. -/
theorem open_hole_between (done : Record α) : ∃ u v, done.reverse = u ++ v ∧
    (openHole done).reverse = u ++ .code .beginHole :: v := by
  fun_induction openHole done with
  | case1 => exact ⟨[], [], rfl, rfl⟩
  | case2 ts => exact ⟨ts.reverse, [.code .moveTo], by simp, by simp⟩
  | case3 t ts _ ih =>
    obtain ⟨u, v, hdone, hopen⟩ := ih
    exact ⟨u, v ++ [t], by simp [hdone], by simp [hopen]⟩

/-- The migration of one hole. -/
theorem open_hole_nested {done ts : Record α}
    (h : Nested (done.reverse ++ .code .legacyHole :: ts)) :
    Nested ((.code .endHole :: openHole done).reverse ++ ts) := by
  obtain ⟨u, v, hdone, hopen⟩ := open_hole_between done
  have hend : (.code .endHole :: openHole done).reverse ++ ts =
      u ++ .code .beginHole :: v ++ .code .endHole :: ts := by simp [hopen]
  rw [nested_iff, hdone] at h
  rw [hend, nested_iff]
  simp only [holeSteps, List.filterMap_append, List.filterMap_cons, holeStep] at h ⊢
  exact open_after_around h

theorem migrate_from_nested {done ts : Record α} (h : Nested (done.reverse ++ ts)) :
    Nested (migrateFrom done ts) := by
  fun_induction migrateFrom done ts with
  | case1 done => simpa using h
  | case2 done ts ih =>
    refine ih ?_
    rw [nested_iff] at h ⊢
    simpa [holeSteps, holeStep, List.filterMap_append, List.filterMap_cons] using h
  | case3 done ts ih => exact ih (open_hole_nested h)
  | case4 done t ts _ _ ih => exact ih (by simpa using h)

/-- Nested hole codes are nested after a migration, those of a record that has none included; and no
legacy code is left in any record. -/
theorem migrate_nested (r : Record α) : (Nested r → Nested r.migrate) ∧
    ((∀ x ∈ r, holeStep x = none) → Nested r.migrate) ∧ ∀ x ∈ r.migrate, ¬ Legacy x := by
  have hnested : Nested r → Nested r.migrate := fun h => migrate_from_nested (by simpa using h)
  exact ⟨hnested, fun h => hnested (nested_without h), fun x hx => (mem_migrate hx).1⟩

end

/-! A record that is partly migrated, with a hole that opens inside a pair of hole codes and closes
behind it, and one with legacy codes only. -/

def partlyMigrated : Record Text :=
  [.code .beginHole, .code .moveTo, .code .endHole, .code .legacyClose, .code .legacyHole,
    .value "0".toList, .code .moveTo, .code .legacyHole, .code .legacyHole]

def onlyLegacy : Record Text :=
  [.code .legacyHole, .code .moveTo, .value "0".toList, .code .legacyClose, .code .legacyHole]

theorem partly_migrated_nested : (Nested partlyMigrated ∧ Nested partlyMigrated.migrate) ∧
    (∀ x ∈ onlyLegacy, holeStep x = none) ∧ Nested onlyLegacy.migrate := by
  have hpartly : Nested partlyMigrated := by decide
  have honly : ∀ x ∈ onlyLegacy, holeStep x = none := by decide
  exact ⟨⟨hpartly, (migrate_nested partlyMigrated).1 hpartly⟩, honly,
    (migrate_nested onlyLegacy).2.1 honly⟩

end Restage.Shape.Record
