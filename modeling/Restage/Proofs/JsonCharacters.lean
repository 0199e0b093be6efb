import Restage.Proofs.NumberText

/-!
The characters of a JSON text: printable ASCII and line feeds (`render_plain`), so that its line
ends are already unified and it begins with no mark.
-/

set_option autoImplicit false

namespace Restage.Json

/-- Printable ASCII and the line feed. -/
def isPlain (c : Char) : Bool := c == '\n' || 32 ≤ c.toNat && c.toNat < 127

def Plain (t : Text) : Prop := ∀ c ∈ t, isPlain c = true

instance (t : Text) : Decidable (Plain t) :=
  inferInstanceAs (Decidable (∀ c ∈ t, isPlain c = true))

theorem plain_not_mark {c : Char} (h : isPlain c = true) : c.toNat ≠ 0xFEFF := by
  intro hc
  simp only [isPlain, Bool.or_eq_true, Bool.and_eq_true, decide_eq_true_eq, beq_iff_eq] at h
  rcases h with rfl | h
  · simp at hc
  · omega

theorem plain_nil : Plain [] := fun _ hc => absurd hc List.not_mem_nil

theorem plain_append {s t : Text} : Plain (s ++ t) ↔ Plain s ∧ Plain t := List.forall_mem_append

theorem plain_cons {c : Char} {t : Text} : Plain (c :: t) ↔ isPlain c = true ∧ Plain t :=
  List.forall_mem_cons

theorem digits_plain {t : Text} (h : ∀ c ∈ t, Text.isDigit c = true) : Plain t := by
  intro c hc
  have hdigit := h c hc
  simp only [Text.isDigit, Bool.and_eq_true, decide_eq_true_eq, Char.le_def,
    UInt32.le_iff_toNat_le] at hdigit
  simp only [isPlain, Bool.or_eq_true, Bool.and_eq_true, decide_eq_true_eq]
  have h1 : 48 ≤ c.toNat := hdigit.1
  have h2 : c.toNat ≤ 57 := hdigit.2
  omega

theorem decimal_plain (n : Nat) : Plain (Text.decimal n) :=
  digits_plain fun _ hc => Text.decimal_digits hc

theorem newline_plain (level : Nat) : Plain (newline level) := by
  refine plain_cons.2 ⟨rfl, fun c hc => ?_⟩
  rw [List.eq_of_mem_replicate hc]
  rfl

theorem hex_digit_plain : ∀ d < 16, isPlain (Text.hexDigit d) = true := by decide

theorem hex_digits_plain (k n : Nat) : Plain (Text.hexDigits k n) := by
  induction k generalizing n with
  | zero => exact plain_nil
  | succ k ih =>
    exact plain_append.2
      ⟨ih _, plain_cons.2 ⟨hex_digit_plain _ (Nat.mod_lt _ (by norm_num)), plain_nil⟩⟩

theorem printable_plain : ∀ n < 127, 32 ≤ n → isPlain (Char.ofNat n) = true := by decide

theorem unit_text_plain (u : UInt16) : Plain (unitText u) := by
  rw [unitText]
  iterate 7
    split
    · decide
  split
  · next h => exact plain_cons.2 ⟨printable_plain _ h.2 h.1, plain_nil⟩
  · exact plain_append.2 ⟨by decide, hex_digits_plain 4 _⟩

theorem string_text_plain (us : Units) : Plain (stringText us) := by
  refine plain_cons.2 ⟨rfl, plain_append.2 ⟨fun c hc => ?_, by decide⟩⟩
  obtain ⟨u, _, hc⟩ := List.mem_flatMap.1 hc
  exact unit_text_plain u c hc

theorem place_plain {ds : Text} (h : Plain ds) (point : Int) : Plain (Binary64.place ds point) := by
  have hzeros : ∀ n, Plain (List.replicate n '0') := fun n c hc => by
    rw [List.eq_of_mem_replicate hc]
    rfl
  have htake : ∀ n, Plain (ds.take n) := fun n c hc => h c (List.mem_of_mem_take hc)
  have hdrop : ∀ n, Plain (ds.drop n) := fun n c hc => h c (List.mem_of_mem_drop hc)
  have hsize := decimal_plain (point - 1).natAbs
  rw [Binary64.place]
  simp only
  split
  · split
    · exact plain_append.2 ⟨plain_append.2 ⟨by decide, hzeros _⟩, h⟩
    · split
      · exact plain_append.2 ⟨plain_append.2 ⟨h, hzeros _⟩, by decide⟩
      · exact plain_append.2 ⟨plain_append.2 ⟨htake _, by decide⟩, hdrop _⟩
  · refine plain_append.2 ⟨plain_append.2 ⟨plain_append.2 ⟨htake _, ?_⟩, ?_⟩, ?_⟩
    · split
      · exact plain_nil
      · exact plain_cons.2 ⟨rfl, hdrop _⟩
    · split <;> decide
    · split
      · exact plain_cons.2 ⟨rfl, hsize⟩
      · exact hsize

theorem sign_plain (negative : Bool) : Plain (Binary64.sign negative) := by
  cases negative <;> decide

theorem finite_text_plain (negative : Bool) (m : Nat) (q : Int) :
    Plain (Binary64.finiteText negative m q) := by
  unfold Binary64.finiteText
  split
  · exact plain_append.2 ⟨sign_plain negative, by decide⟩
  · simp only
    generalize Binary64.stripZeros 20 _ _ = r
    exact plain_append.2 ⟨sign_plain negative, place_plain (decimal_plain _) _⟩

theorem real_text_plain (x : Binary64) : Plain (realText x) := by
  cases x with
  | finite negative m q => exact finite_text_plain negative m q
  | infinite negative => cases negative <;> decide
  | nan => decide

mutual
/-- JSON is written in printable ASCII and line feeds. -/
theorem render_plain : ∀ (level : Nat) (v : Value), Plain (render level v)
  | _, .null => by rw [render]; decide
  | _, .bool true => by rw [render]; decide
  | _, .bool false => by rw [render]; decide
  | _, .int i => by
    rw [render, Text.ofInt]
    split
    · exact plain_cons.2 ⟨rfl, decimal_plain _⟩
    · exact decimal_plain _
  | _, .real x => real_text_plain x
  | _, .str us => string_text_plain us
  | _, .arr [] => by rw [render]; decide
  | level, .arr (v :: vs) => by
    rw [render]
    refine plain_append.2 ⟨plain_append.2 ⟨plain_append.2 ⟨?_, items_plain _ vs⟩, ?_⟩, by decide⟩
    · exact plain_append.2 ⟨plain_cons.2 ⟨rfl, newline_plain _⟩, render_plain _ v⟩
    · exact newline_plain level
  | _, .obj [] => by rw [render]; decide
  | level, .obj ((k, v) :: ms) => by
    rw [render]
    refine plain_append.2 ⟨plain_append.2 ⟨plain_append.2 ⟨?_, members_plain _ ms⟩, ?_⟩, by decide⟩
    · refine plain_append.2
        ⟨plain_append.2 ⟨plain_append.2 ⟨?_, string_text_plain k⟩, by decide⟩, ?_⟩
      · exact plain_cons.2 ⟨rfl, newline_plain _⟩
      · exact render_plain _ v
    · exact newline_plain level
theorem items_plain : ∀ (level : Nat) (vs : List Value), Plain (renderItems level vs)
  | _, [] => plain_nil
  | level, v :: vs => by
    rw [renderItems]
    refine plain_append.2 ⟨plain_append.2 ⟨?_, render_plain level v⟩, items_plain level vs⟩
    exact plain_cons.2 ⟨rfl, newline_plain level⟩
theorem members_plain : ∀ (level : Nat) (ms : List (Units × Value)), Plain (renderMembers level ms)
  | _, [] => plain_nil
  | level, (k, v) :: ms => by
    rw [renderMembers]
    refine plain_append.2 ⟨plain_append.2 ⟨plain_append.2 ⟨?_, by decide⟩, render_plain level v⟩,
      members_plain level ms⟩
    exact plain_append.2 ⟨plain_cons.2 ⟨rfl, newline_plain level⟩, string_text_plain k⟩
end

/-- No carriage return is written. -/
theorem return_not_dumped (v : Value) : '\r' ∉ dump v := fun h =>
  absurd (render_plain 0 v '\r' h) (by decide)

end Restage.Json
