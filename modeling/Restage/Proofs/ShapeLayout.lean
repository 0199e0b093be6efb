import Mathlib.Data.List.DropRight
import Restage.Proofs.HoleForm

/-!
What the text of a shape file keeps. A text file is written back as it was, less the carriage
returns at the ends of its lines, and its records read back before and after a migration
(`text_layout`). So do those of a JSON file, with all values in them (`json_layout`).
-/

set_option autoImplicit false

namespace Restage

namespace Text

/-! Carriage returns at the ends of lines. -/

/-- A text without the runs of carriage returns in front of its line feeds and at its end. -/
def dropReturns : Text → Text
  | [] => []
  | c :: cs =>
    if c = '\r' ∧ (cs.dropWhile (· == '\r')).head?.all (· == '\n') then dropReturns cs
    else c :: dropReturns cs

/-- Blanks stay, and so does a carriage return inside a line. -/
example : dropReturns "m\r 0 \r\r\n\n\rh\r".toList = "m\r 0 \n\n\rh".toList := by decide

theorem trim_end_cons (p : Char → Bool) (c : Char) (t : Text) :
    trimEnd p (c :: t) = if p c && t.all p then [] else c :: trimEnd p t := by
  rw [trimEnd, List.reverse_cons, List.dropWhile_append]
  by_cases hall : t.all p
  · have hnone : t.reverse.dropWhile p = [] := by
      rw [List.dropWhile_eq_nil_iff]
      exact fun d hd => List.all_eq_true.1 hall d (List.mem_reverse.1 hd)
    cases hc : p c <;> simp [hnone, hall, hc, trimEnd]
  · have hsome : t.reverse.dropWhile p ≠ [] := by
      intro hnil
      rw [List.dropWhile_eq_nil_iff] at hnil
      exact hall (List.all_eq_true.2 fun d hd => hnil d (List.mem_reverse.2 hd))
    simp [hsome, hall, trimEnd]

/-- A line without a line feed loses its end, whatever lines follow it. -/
theorem drop_returns_line {l v : Text} (hl : '\n' ∉ l) (hv : v.head?.all (· == '\n') = true) :
    dropReturns (l ++ v) = trimEnd (· == '\r') l ++ dropReturns v := by
  induction l with
  | nil => rfl
  | cons c l ih =>
    have hl' : '\n' ∉ l := fun h => hl (List.mem_cons_of_mem c h)
    have hrun : ((l ++ v).dropWhile (· == '\r')).head?.all (· == '\n') = l.all (· == '\r') := by
      rw [List.dropWhile_append]
      cases hrest : l.dropWhile (· == '\r') with
      | nil =>
        have hall : l.all (· == '\r') = true :=
          List.all_eq_true.2 (List.dropWhile_eq_nil_iff.1 hrest)
        have hfeed : v.dropWhile (· == '\r') = v := by
          cases v with
          | nil => rfl
          | cons d v =>
            have hd : d = '\n' := by simpa using hv
            rw [hd]
            rfl
        simpa [hall, hfeed] using hv
      | cons d rest =>
        have hmem : d ∈ l := (List.dropWhile_sublist _).subset (hrest ▸ List.mem_cons_self)
        have hd : d ≠ '\n' := fun h => hl' (h ▸ hmem)
        have hall : l.all (· == '\r') = false := by
          by_contra hall
          rw [Bool.not_eq_false, List.all_eq_true, ← List.dropWhile_eq_nil_iff, hrest] at hall
          exact List.cons_ne_nil d rest hall
        simp [hall, hd]
    rw [List.cons_append, dropReturns, hrun, trim_end_cons, ih hl']
    by_cases hc : c = '\r' <;> cases hall : l.all (· == '\r') <;> simp [hc]
    have hnil : trimEnd (· == '\r') l = [] := by
      rw [trimEnd, List.reverse_eq_nil_iff, List.dropWhile_eq_nil_iff]
      exact fun d hd => List.all_eq_true.1 hall d (List.mem_reverse.1 hd)
    exact hnil

/-- The ends of all lines are trimmed. -/
theorem drop_returns_lines (t : Text) :
    dropReturns t = joinWith ['\n'] ((splitOn '\n' t).map (trimEnd (· == '\r'))) := by
  have hjoin : ∀ ls : List Text, (∀ l ∈ ls, '\n' ∉ l) →
      dropReturns (joinWith ['\n'] ls) = joinWith ['\n'] (ls.map (trimEnd (· == '\r'))) := by
    intro ls hls
    fun_induction joinWith ['\n'] ls with
    | case1 => rfl
    | case2 l =>
      have hline := drop_returns_line (v := []) (hls l (by simp)) rfl
      simpa [dropReturns, joinWith] using hline
    | case3 l k ls ih =>
      have hfeed : ∀ v, dropReturns ('\n' :: v) = '\n' :: dropReturns v := fun v => by
        simp [dropReturns]
      rw [List.append_assoc, List.singleton_append, drop_returns_line (hls l (by simp)) rfl, hfeed,
        ih fun m hm => hls m (List.mem_cons_of_mem l hm)]
      simp [joinWith]
  have hsplit := hjoin (splitOn '\n' t) fun l hl hc => (split_on_parts hl _ hc).1 rfl
  rwa [joinWith_splitOn] at hsplit

theorem trim_end_last {p : Char → Bool} {t : Text} :
    trimEnd p t = t ↔ ∀ c ∈ t.getLast?, p c = false := by
  have hself := List.rdropWhile_eq_self_iff (p := p) (l := t)
  rw [show trimEnd p t = t.rdropWhile p from rfl, hself]
  constructor
  · intro h c hc
    obtain ⟨hne, rfl⟩ := List.mem_getLast?_eq_getLast hc
    simpa using h hne
  · intro h hne
    simpa using h _ (List.getLast?_eq_some_getLast hne)

/-- The end of a join is that of its last part. -/
theorem join_ends {p : Char → Bool} {sep : Char} (hsep : p sep = false) {parts : List Text} {u : Text}
    (hu : parts.getLast? = some u) :
    trimEnd p (joinWith [sep] parts) = joinWith [sep] parts ↔ trimEnd p u = u := by
  rw [trim_end_last, trim_end_last]
  fun_induction joinWith [sep] parts with
  | case1 => simp at hu
  | case2 t => rw [show u = t by simpa using hu.symm]
  | case3 t v ts ih =>
    rw [List.getLast?_cons_cons] at hu
    rw [← ih hu, List.getLast?_append, List.getLast?_append]
    cases (joinWith [sep] (v :: ts)).getLast? <;> simp [hsep]

end Text

namespace Shape

/-! The last entry of a record. -/

namespace Record

theorem opened_last {α : Type} (is : Code → α → Bool) (of : Code → α) (r : List α) :
    (opened is of r).getLast? = r.getLast?.map (current is of) := by
  induction r with
  | nil => rfl
  | cons a r ih =>
    rw [opened, List.getLast?_append, List.getLast?_cons, ih, List.getLast?_cons]
    cases r.getLast? <;> simp

/-- The last entry of a migrated record is that of the record, or a code in its place. -/
theorem migrate_last {α : Type} {r : Record α} {x : Token α} (h : x ∈ r.migrate.getLast?)
    (hr : r ≠ []) : x ∈ r.getLast? ∨ ∃ c, x = .code c := by
  rw [migrate_opened, bracketed_opened, List.getLast?_append, opened_last,
    List.getLast?_eq_some_getLast hr, Option.map_some, Option.some_or, Option.mem_some_iff] at h
  rw [List.getLast?_eq_some_getLast hr, Option.mem_some_iff]
  rw [current] at h
  split at h
  · exact Or.inr ⟨_, h.symm⟩
  · split at h
    · exact Or.inr ⟨_, h.symm⟩
    · exact Or.inl h

end Record

namespace Shapes

/-! Text files. -/

theorem dump_of_text (t : Text) : (ofText t).dump = Text.dropReturns t := by
  have hread : textOfToken ∘ tokenOfText = id := funext Record.text_read
  rw [Text.drop_returns_lines, ofText, dump, List.map_map]
  congr 1
  refine List.map_congr_left fun l _ => ?_
  rw [Function.comp_apply, List.map_map, hread, List.map_id, Text.joinWith_splitOn]

/-- The entry that decides how the line of a record ends. -/
theorem line_ends {r : Record Text} {x : Token Text} (hx : r.getLast? = some x) :
    Text.trimEnd (· == '\r') (line r) = line r ↔
      Text.trimEnd (· == '\r') (textOfToken x) = textOfToken x :=
  Text.join_ends (by decide) (by rw [List.getLast?_map, hx, Option.map_some])

/-- The records of any text are read from their lines. -/
theorem of_text_laid (t : Text) : ∃ rs, ofText t = txt rs ∧ rs ≠ [] ∧ ∀ r ∈ rs, Laid r := by
  refine ⟨_, rfl, by simpa using Text.split_on_some '\n' t, fun r hr => ?_⟩
  obtain ⟨l, hl, rfl⟩ := List.mem_map.1 hr
  have hread : textOfToken ∘ tokenOfText = id := funext Record.text_read
  refine ⟨by simpa using Text.split_on_some ' ' _, fun x hx => ?_, fun x hx c hc => ?_, ?_⟩
  · obtain ⟨u, _, rfl⟩ := List.mem_map.1 hx
    rw [Record.text_read]
  · obtain ⟨u, hu, rfl⟩ := List.mem_map.1 hx
    rw [Record.text_read] at hc
    obtain ⟨hblank, hmem⟩ := Text.split_on_parts hu c hc
    exact ⟨hblank, (Text.split_on_parts hl c ((List.rdropWhile_prefix _ l).subset hmem)).1⟩
  · rw [line, List.map_map, hread, List.map_id, Text.joinWith_splitOn]
    exact List.rdropWhile_idempotent _ l

theorem migrate_laid {r : Record Text} (h : Laid r) : Laid r.migrate := by
  have hsome := Record.migrate_some h.nonempty
  refine ⟨hsome, fun x hx => ?_, fun x hx c hc => ?_, ?_⟩
  · rcases (Record.mem_migrate hx).2 with hx | ⟨c, rfl⟩
    · exact h.read x hx
    · exact (code_text_token c).1
  · rcases (Record.mem_migrate hx).2 with hx | ⟨d, rfl⟩
    · exact h.plain x hx c hc
    · have hplain := (code_text_token d).2 c hc
      simp only [isSeparator, Bool.or_eq_false_iff, beq_eq_false_iff_ne] at hplain
      exact hplain.1
  · have hlast := List.getLast?_eq_some_getLast hsome
    rw [line_ends hlast]
    rcases Record.migrate_last hlast h.nonempty with hx | ⟨c, hc⟩
    · exact (line_ends hx).1 h.ends
    · rw [hc]
      cases c <;> rfl

/-- A text file is written back as it was, less the carriage returns at the ends of its lines; before
and after a migration, its records read back. -/
theorem text_layout (t : Text) : ∃ s, parse .txt t = .ok s ∧ s.dump = Text.dropReturns t ∧
    parse .txt s.dump = .ok s ∧ parse .txt s.migrate.dump = .ok s.migrate := by
  obtain ⟨rs, hrs, hsome, hlaid⟩ := of_text_laid t
  refine ⟨ofText t, rfl, dump_of_text t, ?_, ?_⟩
  · rw [parse, hrs, of_text_dump hsome hlaid]
  · have hmigrated : ∀ r ∈ rs.map Record.migrate, Laid r := fun r hr => by
      obtain ⟨r, hmem, rfl⟩ := List.mem_map.1 hr
      exact migrate_laid (hlaid r hmem)
    have hmigrate : (txt rs).migrate = txt (rs.map Record.migrate) := rfl
    rw [parse, hrs, hmigrate, of_text_dump (by simpa using hsome) hmigrated]

/-! JSON files. -/

/-- The records of a value hold all of it. -/
theorem of_value_payload {v : Json.Value} {s : Shapes} (h : ofValue v = .ok s) :
    ∃ rs, s = json rs ∧ v = payload rs := by
  unfold ofValue at h
  split at h
  · obtain ⟨rs, hrs, rfl⟩ := Json.of_map_ok h
    obtain ⟨rows, hrows, rfl⟩ := records_from_ok hrs
    have hread : valueOfToken ∘ tokenOfValue = id := funext Record.value_read
    refine ⟨_, rfl, ?_⟩
    simp [payload, hrows, hread]
  · simp at h

/-- A JSON file is written as its value, before a migration and after it, and the value and its records
read back. -/
theorem json_layout {t : Text} {s : Shapes} (h : parse .json t = .ok s) :
    ∃ rs, s = json rs ∧ Json.parse t = .ok (payload rs) ∧
      Json.parse s.dump = .ok (payload rs) ∧ parse .json s.dump = .ok s ∧
      Json.parse s.migrate.dump = .ok (payload (rs.map Record.migrate)) ∧
      parse .json s.migrate.dump = .ok s.migrate := by
  rw [parse] at h
  cases hv : Json.parse t with
  | error e => simp [hv] at h
  | ok v =>
    simp only [hv] at h
    obtain ⟨rs, rfl, rfl⟩ := of_value_payload h
    have hclean := (of_value_clean (Json.parse_proper hv) h).2
    have hmigrated := migrate_clean hclean
    exact ⟨rs, rfl, rfl, payload_read hclean, parse_json_dump hclean, payload_read hmigrated,
      parse_json_dump hmigrated⟩

/-! A file with a lone surrogate in front of a pair, a key that is given twice and a hole. -/

def surrogateText : Text :=
  "[[\"m\", \"\\ud83d\\ud83d\\ude00\", \x7b\"a\": [], \"b\": null, \"a\": true\x7d, \"h\"]]".toList

def surrogateRecords : List (Record Json.Value) :=
  [[.code .moveTo, .value (.str [0xD83D, 0xD83D, 0xDE00]),
    .value (.obj [([97], .bool true), ([98], .null)]), .code .legacyHole]]

theorem json_layout_surrogates : parse .json surrogateText = .ok (json surrogateRecords) ∧
    parse .json (json surrogateRecords).dump = .ok (json surrogateRecords) ∧
    parse .json (json surrogateRecords).migrate.dump = .ok (json surrogateRecords).migrate := by
  have hread : parse .json surrogateText = .ok (json surrogateRecords) := by cbv
  obtain ⟨_, _, _, _, hagain, _, hmigrated⟩ := json_layout hread
  exact ⟨hread, hagain, hmigrated⟩

end Shapes
end Shape
end Restage
