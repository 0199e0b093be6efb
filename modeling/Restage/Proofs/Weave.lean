import Restage.Proofs.SealedText

/-!
A text that a pass goes over, cut into cells: characters that it keeps, and stretches that it
replaces. Runs of one class are the same cells before and after the pass (`run_cells`), and no
stretch is replaced where the marks of a script show no code (`masked_keeps`).
-/

set_option autoImplicit false

namespace Restage

/-- A character that a pass keeps, or a stretch that it replaces. -/
inductive Cell where
  | keep (c : Char)
  | swap (old new : Text)
deriving DecidableEq, Repr

namespace Cell

def old : Cell → Text
  | keep c => [c]
  | swap old _ => old

def new : Cell → Text
  | keep c => [c]
  | swap _ new => new

end Cell

/-- The text before a pass. -/
def oldText (cells : List Cell) : Text := cells.flatMap Cell.old

/-- The text behind a pass. -/
def newText (cells : List Cell) : Text := cells.flatMap Cell.new

section

variable (c : Char) (old new : Text) (ks cells : List Cell)

@[simp] theorem old_text_nil : oldText [] = [] := rfl

@[simp] theorem new_text_nil : newText [] = [] := rfl

@[simp] theorem old_text_keep : oldText (.keep c :: cells) = c :: oldText cells := rfl

@[simp] theorem new_text_keep : newText (.keep c :: cells) = c :: newText cells := rfl

@[simp] theorem old_text_swap : oldText (.swap old new :: cells) = old ++ oldText cells := rfl

@[simp] theorem new_text_swap : newText (.swap old new :: cells) = new ++ newText cells := rfl

@[simp] theorem old_text_append : oldText (ks ++ cells) = oldText ks ++ oldText cells :=
  List.flatMap_append

@[simp] theorem new_text_append : newText (ks ++ cells) = newText ks ++ newText cells :=
  List.flatMap_append

end

/-- What a pass may do: the text in front, the stretch, what takes its place, the text behind. -/
abbrev Change := Text → Text → Text → Text → Prop

/-- Cells behind a text whose stretches are replaced as a change allows. -/
inductive Woven (r : Change) : Text → List Cell → Prop
  | done (u : Text) : Woven r u []
  | keep {u : Text} {c : Char} {cells : List Cell} :
    Woven r (u ++ [c]) cells → Woven r u (.keep c :: cells)
  | swap {u old new : Text} {cells : List Cell} :
    r u old new (oldText cells) → Woven r (u ++ old) cells → Woven r u (.swap old new :: cells)

section

variable {r : Change} {u : Text}

theorem woven_keep {c : Char} {cells : List Cell} (h : Woven r u (.keep c :: cells)) :
    Woven r (u ++ [c]) cells := by
  cases h with
  | keep h => exact h

theorem woven_swap {old new : Text} {cells : List Cell} (h : Woven r u (.swap old new :: cells)) :
    r u old new (oldText cells) ∧ Woven r (u ++ old) cells := by
  cases h with
  | swap hr h => exact ⟨hr, h⟩

theorem woven_behind {ks cells : List Cell} (h : Woven r u (ks ++ cells)) :
    Woven r (u ++ oldText ks) cells := by
  induction ks generalizing u with
  | nil => simpa using h
  | cons k ks ih =>
    cases k with
    | keep c => simpa using ih (woven_keep h)
    | swap old new => simpa using ih (woven_swap h).2

theorem woven_imp {r' : Change} (hr : ∀ {u old new v}, r u old new v → r' u old new v)
    {cells : List Cell} (h : Woven r u cells) : Woven r' u cells := by
  induction h with
  | done u => exact .done u
  | keep _ ih => exact .keep ih
  | swap hrel _ ih => exact .swap (hr hrel) ih

theorem woven_swaps {cells : List Cell} (h : Woven r u cells) {old new : Text}
    (hmem : .swap old new ∈ cells) : ∃ a v, r a old new v := by
  induction h with
  | done => simp at hmem
  | keep _ ih => exact ih (by simpa using hmem)
  | @swap u old' new' cells hrel _ ih =>
    rcases List.mem_cons.1 hmem with heq | hmem
    · obtain ⟨rfl, rfl⟩ := Cell.swap.inj heq
      exact ⟨_, _, hrel⟩
    · exact ih hmem

end

/-! Runs of one class. -/

/-- Whether a text ends with a character of a class. -/
def EndsIn (p : Char → Bool) (u : Text) : Prop := u.getLast?.any p = true

theorem ends_in_concat {p : Char → Bool} {u : Text} {c : Char} :
    EndsIn p (u ++ [c]) ↔ p c = true := by
  simp [EndsIn]

theorem ends_in_all {p : Char → Bool} {u v : Text} (hv : v ≠ []) (h : ∀ c ∈ v, p c = true) :
    EndsIn p (u ++ v) := by
  rcases List.eq_nil_or_concat v with rfl | ⟨w, c, rfl⟩
  · exact absurd rfl hv
  · rw [List.concat_eq_append, ← List.append_assoc, ends_in_concat]
    exact h c (by simp)

/-- A text outside a class from its first character on. -/
def Heads (p : Char → Bool) (u : Text) : Prop := ∃ c v, u = c :: v ∧ p c = false

theorem heads_stop {p : Char → Bool} {u v : Text} (h : Heads p u) : (u ++ v).takeWhile p = [] := by
  obtain ⟨c, w, rfl, hc⟩ := h
  simp [hc]

/-- Behind a character of the class a change replaces a part of a run, or a stretch that ends it. -/
def Runs (p : Char → Bool) (r : Change) : Prop :=
  ∀ {u old new v}, r u old new v → EndsIn p u →
    (old ≠ [] ∧ (∀ c ∈ old, p c = true) ∧ ∀ c ∈ new, p c = true) ∨ Heads p old ∧ Heads p new

theorem run_cells {p : Char → Bool} {r : Change} (hr : Runs p r) {u : Text} {cells : List Cell}
    (hu : EndsIn p u) (h : Woven r u cells) : ∃ ks rest, cells = ks ++ rest ∧
      (oldText cells).takeWhile p = oldText ks ∧ (newText cells).takeWhile p = newText ks := by
  induction h with
  | done u => exact ⟨[], [], rfl, rfl, rfl⟩
  | @keep u c cells h ih =>
    cases hc : p c with
    | true =>
      obtain ⟨ks, rest, rfl, hold, hnew⟩ := ih (ends_in_concat.2 hc)
      exact ⟨.keep c :: ks, rest, rfl, by simpa [hc] using hold, by simpa [hc] using hnew⟩
    | false => exact ⟨[], .keep c :: cells, rfl, by simp [hc], by simp [hc]⟩
  | @swap u old new cells hrel h ih =>
    rcases hr hrel hu with ⟨hne, hold, hnew⟩ | ⟨hold, hnew⟩
    · obtain ⟨ks, rest, rfl, hks, hks'⟩ := ih (ends_in_all hne hold)
      refine ⟨.swap old new :: ks, rest, rfl, ?_, ?_⟩
      · rw [old_text_swap, List.takeWhile_append_of_pos hold, hks, old_text_swap]
      · rw [new_text_swap, List.takeWhile_append_of_pos hnew, hks', new_text_swap]
    · exact ⟨[], .swap old new :: cells, rfl, heads_stop hold, heads_stop hnew⟩

/-! Marks. -/

/-- Every stretch that is replaced begins where the marks show code. -/
def Unmasked : List Bool → List Cell → Prop
  | _, [] => True
  | ms, .keep _ :: cells => Unmasked ms.tail cells
  | ms, .swap old _ :: cells => ms.headD true = true ∧ Unmasked (ms.drop old.length) cells

theorem unmasked_behind {ms ns : List Bool} {ks cells : List Cell}
    (hlen : ms.length = (oldText ks).length) (h : Unmasked (ms ++ ns) (ks ++ cells)) :
    Unmasked ns cells := by
  induction ks generalizing ms with
  | nil =>
    obtain rfl := List.length_eq_zero_iff.1 hlen
    exact h
  | cons k ks ih =>
    cases k with
    | keep c =>
      cases ms with
      | nil => simp at hlen
      | cons m ms => exact ih (by simpa using hlen) h
    | swap old new =>
      rw [old_text_swap, List.length_append] at hlen
      have hrest : (ms.drop old.length).length = (oldText ks).length := by simp [hlen]
      refine ih hrest ?_
      rw [← List.drop_append_of_le_length (by omega)]
      exact h.2

theorem old_text_kept (p : Text) : oldText (p.map .keep) = p := by
  induction p with
  | nil => rfl
  | cons c p ih => rw [List.map_cons, old_text_keep, ih]

theorem new_text_kept (p : Text) : newText (p.map .keep) = p := by
  induction p with
  | nil => rfl
  | cons c p ih => rw [List.map_cons, new_text_keep, ih]

/-- A stretch without code is kept. -/
theorem masked_keeps {r : Change} (hr : ∀ {u old new v}, r u old new v → old ≠ []) {u : Text}
    {n : Nat} {ms : List Bool} {ks cells : List Cell} (hw : Woven r u (ks ++ cells))
    (hn : (oldText ks).length = n) (h : Unmasked (List.replicate n false ++ ms) (ks ++ cells)) :
    ∃ p : Text, ks = p.map .keep := by
  induction ks generalizing u n with
  | nil => exact ⟨[], rfl⟩
  | cons k ks ih =>
    cases k with
    | keep c =>
      rw [old_text_keep, List.length_cons] at hn
      subst hn
      obtain ⟨p, rfl⟩ := ih (woven_keep hw) rfl h
      exact ⟨c :: p, rfl⟩
    | swap old new =>
      have hpos := List.length_pos_iff.2 (hr (woven_swap hw).1)
      rw [old_text_swap, List.length_append] at hn
      obtain ⟨k, rfl⟩ := Nat.exists_eq_add_of_le' (Nat.lt_of_lt_of_le hpos (by omega : _ ≤ n))
      exact absurd h.1 (by simp [List.replicate_succ])

end Restage
