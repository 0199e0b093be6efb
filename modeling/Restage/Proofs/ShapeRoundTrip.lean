import Restage.Proofs.JsonRoundTrip
import Restage.Proofs.Splitting
import Restage.Proofs.Utf8RoundTrip
import Restage.Shape.Migrate

/-!
Migrated shapes. A migration leaves no legacy code, so that a second one changes nothing
(`migrate_again`), and its result is written so that it reads back (`parse_dump`).
-/

set_option autoImplicit false

namespace Restage.Shape

namespace Record

variable {α : Type}

/-- The codes that a migration replaces. -/
def Legacy (x : Token α) : Prop := x = .code .legacyClose ∨ x = .code .legacyHole

theorem mem_open_hole {done : Record α} {x : Token α} (h : x ∈ openHole done) :
    x ∈ done ∨ x = .code .beginHole := by
  fun_induction openHole done with
  | case1 => exact Or.inr (List.mem_singleton.1 h)
  | case2 ts =>
    simp only [List.mem_cons] at h ⊢
    tauto
  | case3 t ts _ ih =>
    simp only [List.mem_cons] at h ⊢
    rcases h with h | h
    · exact Or.inl (Or.inl h)
    · exact (ih h).imp_left Or.inr

/-- An entry of a migrated record was there before, or is a current code. -/
theorem mem_migrate_from {done ts : Record α} {x : Token α} (h : x ∈ migrateFrom done ts) :
    x ∈ done ∨ (x ∈ ts ∧ ¬ Legacy x) ∨ ∃ c, x = .code c ∧ ¬ Legacy x := by
  have hcurrent : ∀ c : Code, c ≠ .legacyClose → c ≠ .legacyHole → ¬ Legacy (.code c : Token α) :=
    fun c h1 h2 h => by
      rcases h with h | h
      · exact h1 (Token.code.inj h)
      · exact h2 (Token.code.inj h)
  fun_induction migrateFrom done ts with
  | case1 done => exact Or.inl (List.mem_reverse.1 h)
  | case2 done ts ih =>
    rcases ih h with h | h | h
    · rcases List.mem_cons.1 h with rfl | h
      · exact Or.inr (Or.inr ⟨_, rfl, hcurrent _ (by decide) (by decide)⟩)
      · exact Or.inl h
    · exact Or.inr (Or.inl ⟨List.mem_cons_of_mem _ h.1, h.2⟩)
    · exact Or.inr (Or.inr h)
  | case3 done ts ih =>
    rcases ih h with h | h | h
    · rcases List.mem_cons.1 h with rfl | h
      · exact Or.inr (Or.inr ⟨_, rfl, hcurrent _ (by decide) (by decide)⟩)
      · rcases mem_open_hole h with h | rfl
        · exact Or.inl h
        · exact Or.inr (Or.inr ⟨_, rfl, hcurrent _ (by decide) (by decide)⟩)
    · exact Or.inr (Or.inl ⟨List.mem_cons_of_mem _ h.1, h.2⟩)
    · exact Or.inr (Or.inr h)
  | case4 done t ts hclose hhole ih =>
    rcases ih h with h | h | h
    · rcases List.mem_cons.1 h with rfl | h
      · refine Or.inr (Or.inl ⟨by simp, ?_⟩)
        rintro (h | h)
        · exact hclose h
        · exact hhole h
      · exact Or.inl h
    · exact Or.inr (Or.inl ⟨List.mem_cons_of_mem _ h.1, h.2⟩)
    · exact Or.inr (Or.inr h)

/-- A migrated record has no legacy code, and values that were there before. -/
theorem mem_migrate {r : Record α} {x : Token α} (h : x ∈ r.migrate) :
    ¬ Legacy x ∧ (x ∈ r ∨ ∃ c, x = .code c) := by
  rcases mem_migrate_from h with h | h | ⟨c, h, hx⟩
  · exact absurd h List.not_mem_nil
  · exact ⟨h.2, Or.inl h.1⟩
  · exact ⟨hx, Or.inr ⟨c, h⟩⟩

/-- Nothing happens to a record without legacy codes. -/
theorem migrate_from_current {done ts : Record α} (h : ∀ x ∈ ts, ¬ Legacy x) :
    migrateFrom done ts = done.reverse ++ ts := by
  fun_induction migrateFrom done ts with
  | case1 done => simp
  | case2 done ts ih => exact absurd (Or.inl rfl) (h (.code .legacyClose) (by simp))
  | case3 done ts ih => exact absurd (Or.inr rfl) (h (.code .legacyHole) (by simp))
  | case4 done t ts hclose hhole ih =>
    rw [ih fun x hx => h x (by simp [hx])]
    simp

theorem migrate_again (r : Record α) : r.migrate.migrate = r.migrate := by
  rw [migrate, migrate_from_current fun x hx => (mem_migrate hx).1]
  rfl

theorem length_open_hole (done : Record α) : (openHole done).length = done.length + 1 := by
  fun_induction openHole done with
  | case1 => rfl
  | case2 ts => rfl
  | case3 t ts _ ih => rw [List.length_cons, ih, List.length_cons]

theorem length_migrate_from (done ts : Record α) :
    done.length + ts.length ≤ (migrateFrom done ts).length := by
  fun_induction migrateFrom done ts with
  | case1 done => simp
  | case2 done ts ih =>
    simp only [List.length_cons] at ih ⊢
    omega
  | case3 done ts ih =>
    simp only [List.length_cons, length_open_hole] at ih ⊢
    omega
  | case4 done t ts _ _ ih =>
    simp only [List.length_cons] at ih ⊢
    omega

/-- A migration takes no entry away. -/
theorem migrate_some {r : Record α} (h : r ≠ []) : r.migrate ≠ [] := by
  intro hnil
  have hlength := length_migrate_from [] r
  rw [show migrateFrom [] r = [] from hnil] at hlength
  exact h (List.length_eq_zero_iff.1 (by simpa using hlength))

end Record

/-! Tokens. -/

theorem code_of_text (c : Code) : Code.ofText? c.text = some c := by cases c <;> rfl

theorem code_of_value (c : Code) : tokenOfValue (valueOfToken (.code c)) = .code c := by
  cases c <;> rfl

/-- Characters that no token of a text file holds. -/
def isSeparator (c : Char) : Bool := c == ' ' || c == '\n' || c == '\r'

/-- A token that its text is read as. -/
def TextToken (x : Token Text) : Prop :=
  tokenOfText (textOfToken x) = x ∧ ∀ c ∈ textOfToken x, isSeparator c = false

theorem code_text_token (c : Code) : TextToken (.code c) :=
  ⟨by cases c <;> rfl, by cases c <;> decide⟩

theorem text_token_of_text {t : Text} (h : ∀ c ∈ t, isSeparator c = false) :
    TextToken (tokenOfText t) := by
  have htext : textOfToken (tokenOfText t) = t := by
    rw [tokenOfText]
    split
    · next c hc =>
      rw [textOfToken]
      fun_cases Code.ofText? t with
      | case7 => simp_all [Code.ofText?]
      | _ => simp_all [Code.ofText?, Code.text]; subst hc; rfl
    · rfl
  rw [TextToken, htext]
  exact ⟨rfl, h⟩

/-- A token that its JSON value is read as. -/
def ValueToken (x : Token Json.Value) : Prop :=
  tokenOfValue (valueOfToken x) = x ∧ Json.Proper (valueOfToken x)

theorem code_value_token (c : Code) : ValueToken (.code c) := ⟨code_of_value c, .str _⟩

theorem value_token_of_value {v : Json.Value} (h : Json.Proper v) :
    ValueToken (tokenOfValue v) := by
  have hvalue : ∀ w, tokenOfValue v = .value w → w = v := fun w hw => by
    unfold tokenOfValue at hw
    split at hw
    · split at hw
      · simp at hw
      · exact (Token.value.inj hw).symm
    · exact (Token.value.inj hw).symm
  cases hx : tokenOfValue v with
  | code c => exact code_value_token c
  | value w =>
    obtain rfl := hvalue w hx
    exact ⟨hx, h⟩

/-! Files. -/

namespace Shapes

def format : Shapes → Format
  | txt _ => .txt
  | json _ => .json

/-- Shapes that are written so that they read back. -/
def Clean : Shapes → Prop
  | txt rs => rs ≠ [] ∧ ∀ r ∈ rs, r ≠ [] ∧ ∀ x ∈ r, TextToken x
  | json rs => rs ≠ [] ∧ ∀ r ∈ rs, ∀ x ∈ r, ValueToken x

theorem migrate_again (s : Shapes) : s.migrate.migrate = s.migrate := by
  cases s with
  | txt rs => simp [migrate, Record.migrate_again]
  | json rs => simp [migrate, Record.migrate_again]

theorem migrate_clean {s : Shapes} (h : s.Clean) : s.migrate.Clean := by
  cases s with
  | txt rs =>
    obtain ⟨hsome, hclean⟩ := h
    refine ⟨by simpa using hsome, fun r hr => ?_⟩
    obtain ⟨r, hmem, rfl⟩ := List.mem_map.1 hr
    refine ⟨Record.migrate_some (hclean r hmem).1, fun x hx => ?_⟩
    rcases (Record.mem_migrate hx).2 with hx | ⟨c, rfl⟩
    · exact (hclean r hmem).2 x hx
    · exact code_text_token c
  | json rs =>
    obtain ⟨hsome, hclean⟩ := h
    refine ⟨by simpa using hsome, fun r hr => ?_⟩
    obtain ⟨r, hmem, rfl⟩ := List.mem_map.1 hr
    intro x hx
    rcases (Record.mem_migrate hx).2 with hx | ⟨c, rfl⟩
    · exact hclean r hmem x hx
    · exact code_value_token c

/-! Text files. -/

theorem of_text_clean {t : Text} (h : '\r' ∉ t) : (ofText t).Clean := by
  refine ⟨by simpa using Text.split_on_some '\n' t, fun r hr => ?_⟩
  obtain ⟨line, hline, rfl⟩ := List.mem_map.1 hr
  have hparts := Text.split_on_parts hline
  have htrim : Text.trimEnd (· == '\r') line = line := Text.trim_end_plain fun c hc => by
    simp only [beq_eq_false_iff_ne]
    rintro rfl
    exact h (hparts _ hc).2
  rw [htrim]
  refine ⟨by simpa using Text.split_on_some ' ' line, fun x hx => ?_⟩
  obtain ⟨word, hword, rfl⟩ := List.mem_map.1 hx
  refine text_token_of_text fun c hc => ?_
  obtain ⟨hblank, hc⟩ := Text.split_on_parts hword c hc
  have hreturn : c ≠ '\r' := by
    rintro rfl
    exact h (hparts _ hc).2
  simp [isSeparator, hblank, (hparts c hc).1, hreturn]

theorem join_mem {sep : Text} {parts : List Text} {c : Char} (h : c ∈ Text.joinWith sep parts) :
    c ∈ sep ∨ ∃ u ∈ parts, c ∈ u := by
  fun_induction Text.joinWith sep parts with
  | case1 => exact absurd h List.not_mem_nil
  | case2 t => exact Or.inr ⟨t, by simp, h⟩
  | case3 t u ts ih =>
    simp only [List.mem_append] at h
    rcases h with (h | h) | h
    · exact Or.inr ⟨t, by simp, h⟩
    · exact Or.inl h
    · exact (ih h).imp_right fun ⟨v, hv, hc⟩ => ⟨v, by simp_all, hc⟩

/-- The characters of a written record. -/
theorem record_text {r : Record Text} (h : ∀ x ∈ r, TextToken x) :
    ∀ c ∈ Text.joinWith [' '] (r.map textOfToken), c ≠ '\n' ∧ c ≠ '\r' := by
  intro c hc
  rcases join_mem hc with hc | ⟨u, hu, hc⟩
  · rw [List.mem_singleton.1 hc]
    decide
  · obtain ⟨x, hx, rfl⟩ := List.mem_map.1 hu
    have := (h x hx).2 c hc
    simp only [isSeparator, Bool.or_eq_false_iff, beq_eq_false_iff_ne] at this
    exact ⟨this.1.2, this.2⟩

/-- The line of a record. -/
def line (r : Record Text) : Text := Text.joinWith [' '] (r.map textOfToken)

/-- A record that its line is read as. -/
structure Laid (r : Record Text) : Prop where
  nonempty : r ≠ []
  read : ∀ x ∈ r, tokenOfText (textOfToken x) = x
  plain : ∀ x ∈ r, ∀ c ∈ textOfToken x, c ≠ ' ' ∧ c ≠ '\n'
  ends : Text.trimEnd (· == '\r') (line r) = line r

theorem clean_laid {r : Record Text} (hsome : r ≠ []) (h : ∀ x ∈ r, TextToken x) : Laid r where
  nonempty := hsome
  read x hx := (h x hx).1
  plain x hx c hc := by
    have := (h x hx).2 c hc
    simp only [isSeparator, Bool.or_eq_false_iff, beq_eq_false_iff_ne] at this
    exact this.1
  ends := Text.trim_end_plain fun c hc => by simpa using (record_text h c hc).2

theorem line_plain {r : Record Text} (h : Laid r) : ∀ c ∈ line r, c ≠ '\n' := by
  intro c hc
  rcases join_mem hc with hc | ⟨u, hu, hc⟩
  · rw [List.mem_singleton.1 hc]
    decide
  · obtain ⟨x, hx, rfl⟩ := List.mem_map.1 hu
    exact (h.plain x hx c hc).2

theorem of_text_dump {rs : List (Record Text)} (hsome : rs ≠ []) (h : ∀ r ∈ rs, Laid r) :
    ofText (txt rs).dump = txt rs := by
  have hdump : (txt rs).dump = Text.joinWith ['\n'] (rs.map line) := rfl
  rw [ofText, hdump, Text.split_on_join (by simpa using hsome) (fun u hu => by
    obtain ⟨r, hr, rfl⟩ := List.mem_map.1 hu
    exact line_plain (h r hr)), List.map_map]
  congr 1
  refine (List.map_congr_left fun r hr => ?_).trans (List.map_id rs)
  have hlaid := h r hr
  rw [Function.comp_apply, hlaid.ends, line, Text.split_on_join (by simpa using hlaid.nonempty)
    (fun u hu c hc => by
      obtain ⟨x, hx, rfl⟩ := List.mem_map.1 hu
      exact (hlaid.plain x hx c hc).1), List.map_map]
  exact (List.map_congr_left hlaid.read).trans (List.map_id r)

/-! JSON files. -/

theorem records_from_arrays (i : Nat) (rows : List (List Json.Value)) :
    recordsFrom i (rows.map .arr) = .ok (rows.map fun vs => vs.map tokenOfValue) := by
  induction rows generalizing i with
  | nil => rfl
  | cons vs rows ih =>
    rw [List.map_cons, recordsFrom, ih]
    rfl

theorem records_from_ok {i : Nat} {vs : List Json.Value} {rs : List (Record Json.Value)}
    (h : recordsFrom i vs = .ok rs) : ∃ rows : List (List Json.Value), vs = rows.map .arr ∧
      rs = rows.map fun vs => vs.map tokenOfValue := by
  induction vs generalizing i rs with
  | nil =>
    rw [recordsFrom, Except.ok.injEq] at h
    exact ⟨[], rfl, h.symm⟩
  | cons v vs ih =>
    cases v with
    | arr row =>
      rw [recordsFrom] at h
      obtain ⟨rest, hrest, rfl⟩ := Json.of_map_ok h
      obtain ⟨rows, rfl, rfl⟩ := ih hrest
      exact ⟨row :: rows, rfl, rfl⟩
    | _ => simp [recordsFrom] at h

theorem of_value_clean {v : Json.Value} {s : Shapes} (hv : Json.Proper v) (h : ofValue v = .ok s) :
    s.format = .json ∧ s.Clean := by
  cases hv with
  | @arr items hitems =>
    cases items with
    | nil => simp [ofValue] at h
    | cons v vs =>
      rw [ofValue] at h
      obtain ⟨rs, hrs, rfl⟩ := Json.of_map_ok h
      obtain ⟨rows, hrows, rfl⟩ := records_from_ok hrs
      rw [hrows] at hitems
      refine ⟨rfl, ?_, fun r hr => ?_⟩
      · rintro hnil
        rw [List.map_eq_nil_iff.1 hnil] at hrows
        simp at hrows
      · obtain ⟨row, hrow, rfl⟩ := List.mem_map.1 hr
        intro x hx
        obtain ⟨w, hw, rfl⟩ := List.mem_map.1 hx
        cases hitems (.arr row) (List.mem_map_of_mem hrow) with
        | arr hproper => exact value_token_of_value (hproper w hw)
  | _ => simp [ofValue] at h

/-- The value of an array of records. -/
def payload (rs : List (Record Json.Value)) : Json.Value :=
  .arr (rs.map fun r => .arr (r.map valueOfToken))

theorem payload_proper {rs : List (Record Json.Value)} (h : (json rs).Clean) :
    Json.Proper (payload rs) := by
  refine .arr fun v hv => ?_
  obtain ⟨r, hr, rfl⟩ := List.mem_map.1 hv
  refine .arr fun w hw => ?_
  obtain ⟨x, hx, rfl⟩ := List.mem_map.1 hw
  exact (h.2 r hr x hx).2

/-- The value of clean records is written so that it reads back. -/
theorem payload_read {rs : List (Record Json.Value)} (h : (json rs).Clean) :
    Json.parse (json rs).dump = .ok (payload rs) := Json.parse_dump (payload_proper h)

theorem parse_json_dump {rs : List (Record Json.Value)} (h : (json rs).Clean) :
    parse .json (json rs).dump = .ok (json rs) := by
  obtain ⟨hsome, hclean⟩ := id h
  have hread := records_from_arrays 0 (rs.map fun r => r.map valueOfToken)
  have hsame : (rs.map fun r => r.map valueOfToken).map (fun vs => vs.map tokenOfValue) = rs := by
    rw [List.map_map]
    refine (List.map_congr_left fun r hr => ?_).trans (List.map_id rs)
    rw [Function.comp_apply, List.map_map]
    exact (List.map_congr_left fun x hx => (hclean r hr x hx).1).trans (List.map_id r)
  rw [hsame, List.map_map] at hread
  simp only [parse, payload_read h]
  cases rs with
  | nil => exact absurd rfl hsome
  | cons r rs =>
    simp only [List.map_cons, Function.comp_def] at hread
    simp only [payload, List.map_cons, ofValue, hread]
    rfl

/-! Both formats. -/

/-- What is read from a text with unified line ends is clean. -/
theorem parse_clean {f : Format} {t : Text} {s : Shapes} (ht : '\r' ∉ t) (h : parse f t = .ok s) :
    s.format = f ∧ s.Clean := by
  cases f with
  | txt =>
    rw [parse, Except.ok.injEq] at h
    rw [← h]
    exact ⟨rfl, of_text_clean ht⟩
  | json =>
    rw [parse] at h
    cases hv : Json.parse t with
    | error x => simp [hv] at h
    | ok v =>
      simp only [hv] at h
      exact of_value_clean (Json.parse_proper hv) h

/-- Clean shapes are written so that they read back. -/
theorem parse_dump {s : Shapes} (h : s.Clean) : parse s.format s.dump = .ok s := by
  cases s with
  | txt rs =>
    rw [format, parse, of_text_dump h.1 fun r hr => clean_laid (h.2 r hr).1 (h.2 r hr).2]
  | json rs => exact parse_json_dump h

theorem return_not_dumped {s : Shapes} (h : s.Clean) : '\r' ∉ s.dump := by
  cases s with
  | txt rs =>
    intro hc
    rcases join_mem hc with hc | ⟨u, hu, hc⟩
    · simp at hc
    · obtain ⟨r, hr, rfl⟩ := List.mem_map.1 hu
      exact (record_text (h.2 r hr).2 _ hc).2 rfl
  | json rs => exact Json.return_not_dumped _

theorem migrate_format (s : Shapes) : s.migrate.format = s.format := by cases s <;> rfl

end Shapes

/-! Contents. -/

/-- What the migration of a file makes of its content. -/
def rewritten (f : Format) (b : Bytes) : Option Bytes :=
  match textOfBytes b with
  | .error _ => none
  | .ok t =>
    match Shapes.parse f t with
    | .error _ => none
    | .ok s => some (Utf8.encode s.migrate.dump)

theorem text_of_bytes_unified {b : Bytes} {t : Text} (h : textOfBytes b = .ok t) : '\r' ∉ t := by
  rw [textOfBytes] at h
  split at h
  · simp at h
  · rw [Except.ok.injEq] at h
    exact h ▸ Utf8.return_unified _

/-- What was migrated and written is read back. -/
theorem migrated_read {f : Format} {b : Bytes} {t : Text} {s : Shapes} (ht : textOfBytes b = .ok t)
    (hs : Shapes.parse f t = .ok s) :
    textOfBytes (Utf8.encode s.migrate.dump) = .ok s.migrate.dump ∧
      Shapes.parse f s.migrate.dump = .ok s.migrate := by
  obtain ⟨rfl, hclean⟩ := Shapes.parse_clean (text_of_bytes_unified ht) hs
  have hmigrated := Shapes.migrate_clean hclean
  have hparse := Shapes.parse_dump hmigrated
  rw [Shapes.migrate_format] at hparse
  refine ⟨?_, hparse⟩
  rw [textOfBytes, Utf8.decode_encode]
  simp only [Utf8.unify_plain (Shapes.return_not_dumped hmigrated)]

/-- A migrated content is not changed by a second migration. -/
theorem rewritten_again {f : Format} {b c : Bytes} (h : rewritten f b = some c) :
    rewritten f c = some c := by
  unfold rewritten at h
  split at h
  · simp at h
  · next t ht =>
    split at h
    · simp at h
    · next s hs =>
      rw [Option.some.injEq] at h
      subst h
      obtain ⟨hread, hparse⟩ := migrated_read ht hs
      simp only [rewritten, hread, hparse, Shapes.migrate_again]

end Restage.Shape
