import Restage.Proofs.ParallelLexing

/-!
The code of a script before and behind a pass. The templates that never close are the same in both
texts, so what is kept is code in both or in neither, what is replaced and what takes its place is
code (`masks_matched`), and the literals are the same (`literals_kept`).
-/

set_option autoImplicit false

namespace Restage.Script

/-! Templates that never close. -/

theorem settle_all_code {us : List Lexeme} (hus : AllCode us) (xs : List Lexeme) :
    settle (us ++ xs) = (us ++ (settle xs).1, (settle xs).2) := by
  induction us with
  | nil => rfl
  | cons x us ih =>
    have hx := hus x (by simp)
    rw [List.cons_append, settle, ih fun y hy => hus y (by simp [hy])]
    cases hk : x.kind <;> simp_all [Kind.isLiteral]

theorem settle_aligned {cells : List Cell} {xs ys : List Lexeme} (h : Aligned cells xs ys) :
    Aligned cells (settle xs).1 (settle ys).1 ∧ (settle xs).2 = (settle ys).2 := by
  induction h with
  | done => exact ⟨.done, rfl⟩
  | same k ks _ ih =>
    obtain ⟨hcells, hcount⟩ := ih
    simp only [settle]
    rw [hcount]
    split
    · exact ⟨.same _ ks hcells, rfl⟩
    · split
      · exact ⟨.same _ ks hcells, rfl⟩
      · exact ⟨.same _ ks hcells, rfl⟩
    · split
      · exact ⟨.same _ ks hcells, rfl⟩
      · exact ⟨.same _ ks hcells, rfl⟩
    · exact ⟨.same _ ks hcells, rfl⟩
  | code hus hvs htext htext' _ ih =>
    rw [settle_all_code hus, settle_all_code hvs]
    exact ⟨.code hus hvs htext htext' ih.1, ih.2⟩

/-! The first line. -/

/-- A text whose first line names an interpreter. -/
def Interpreted (t : Text) : Prop := ['#', '!'] <+: t

theorem lexemes_ordinary {t : Text} (h : ¬ Interpreted t) :
    lexemes t = (settle (lexemesFrom .start t)).1 ∧ entries t = entriesFrom [] .start t := by
  have hnone : ∀ cs, t ≠ '#' :: '!' :: cs := fun cs ht => h ⟨cs, ht.symm⟩
  constructor
  · rw [lexemes.eq_def]
    split
    · exact absurd rfl (hnone _)
    · rfl
  · rw [entries.eq_def]
    split
    · exact absurd rfl (hnone _)
    · rfl

/-- Neither a stretch nor what takes its place begins with a hash sign. -/
theorem reword_first {u old new v : Text} (h : Reword u old new v) :
    old.head? ≠ some '#' ∧ new.head? ≠ some '#' := by
  have hword : ∀ {t : Text}, WordFirst t → t.head? ≠ some '#' := by
    rintro t ⟨c, w, rfl, hc⟩
    rw [List.head?_cons, ne_eq, Option.some.injEq]
    exact head_other hc (by decide)
  cases h with
  | link _ hx hy =>
    exact ⟨hword (word_first_append (qualified_first hx.qualified) _),
      hword (word_first_append (qualified_first hy.qualified) _)⟩
  | bind => decide
  | call => decide
  | drop _ hline =>
    obtain ⟨g, _, _, _, _, _, _, _, rfl, hindent, -⟩ := hline.parts
    refine ⟨?_, by simp⟩
    cases g with
    | nil => exact fun h => absurd h (by simp)
    | cons c g =>
      rw [List.cons_append, List.head?_cons, ne_eq, Option.some.injEq]
      rintro rfl
      exact absurd (hindent '#' (by simp)) (by decide)

/-- An exchange of words brings no interpreter to the first line. -/
theorem interpreted_before {cells : List Cell} (hw : Woven Reword [] cells)
    (hne : ∀ old new, .swap old new ∈ cells → new ≠ []) (h : Interpreted (newText cells)) :
    Interpreted (oldText cells) := by
  obtain ⟨t, ht⟩ := h
  cases hw with
  | done => simp at ht
  | @swap _ old new cells hrel _ =>
    have hhead := (reword_first hrel).2
    obtain ⟨c, w, rfl⟩ := List.exists_cons_of_ne_nil (hne old new (by simp))
    simp only [new_text_swap, List.cons_append, List.cons.injEq] at ht
    simp [← ht.1] at hhead
  | @keep _ c cells hw =>
    simp only [new_text_keep, List.cons_append, List.nil_append, List.cons.injEq] at ht
    obtain ⟨rfl, ht⟩ := ht
    have hin : InLine ([] ++ ['#']) := in_line_concat (by decide)
    rcases heads_cells hw hin with rfl | ⟨d, rest, rfl⟩ | ⟨_, d, w, hnew, hd⟩
    · simp at ht
    · simp only [new_text_keep, List.cons.injEq] at ht
      exact ⟨oldText rest, by rw [← ht.1]; rfl⟩
    · rw [hnew, List.cons.injEq] at ht
      exact absurd ht.1.symm (head_other hd (by decide))

section

variable {r : Change} (hr : ∀ {u old new v}, r u old new v → Reword u old new v)
  {cells : List Cell} (hw : Woven r [] cells) (hm : Unmasked (codeMask (oldText cells)) cells)
  (hq : ∀ e ∈ entries (oldText cells), Quiet r e)
include hr hw hm hq

/-- The lexemes of the two texts of a pass. A pass must not bring an interpreter to the first
line. -/
theorem lexemes_aligned (hfirst : Interpreted (newText cells) → Interpreted (oldText cells)) :
    Aligned cells (lexemes (oldText cells)) (lexemes (newText cells)) := by
  by_cases hline : Interpreted (oldText cells)
  · obtain ⟨t, ht⟩ := hline
    obtain ⟨rest, rfl⟩ : ∃ rest, cells = .keep '#' :: .keep '!' :: rest := by
      cases hw with
      | done => simp at ht
      | swap hrel _ =>
        have hhead := (reword_first (hr hrel)).1
        obtain ⟨c, w, rfl⟩ := List.exists_cons_of_ne_nil (reword_some (hr hrel))
        simp only [old_text_swap, List.cons_append, List.cons.injEq] at ht
        simp [← ht.1] at hhead
      | keep hw =>
        simp only [old_text_keep, List.cons_append, List.nil_append, List.cons.injEq] at ht
        obtain ⟨rfl, ht⟩ := ht
        have hin : InLine ([] ++ ['#']) := in_line_concat (by decide)
        obtain ⟨rest, rfl, -⟩ := keep_cells (woven_imp hr hw) hin ht.symm (by decide)
        exact ⟨rest, rfl⟩
    have hbang : Woven r ['#', '!'] rest := woven_keep (woven_keep hw)
    have hruns : Runs (· != '\n') Reword := runs_through (by decide) (fun c hc => by
      have hne : c ≠ '\n' := by
        rintro rfl
        exact absurd hc (by decide)
      simpa using hne) (by decide)
    have hends : EndsIn (· != '\n') (['#'] ++ ['!']) := ends_in_concat.2 (by decide)
    obtain ⟨ks, cells, rfl, hold, hnew⟩ := run_cells hruns hends (woven_imp hr hbang)
    have hdrop : ∀ {t u v : Text}, t = u ++ v → t.takeWhile (· != '\n') = u →
        t.dropWhile (· != '\n') = v := by
      intro t u v ht hu
      have hcut := List.takeWhile_append_dropWhile (p := (· != '\n')) (l := t)
      rw [hu, ht] at hcut
      rw [ht]
      exact List.append_cancel_left hcut
    have holdrest := hdrop (old_text_append ks cells) hold
    have hnewrest := hdrop (new_text_append ks cells) hnew
    have hlexemes : lexemes (oldText (.keep '#' :: .keep '!' :: (ks ++ cells))) =
        ⟨.mark, oldText (.keep '#' :: .keep '!' :: ks)⟩ ::
          (settle (lexemesFrom .start (oldText cells))).1 := by
      rw [old_text_keep, old_text_keep, lexemes, hold, holdrest]
      rfl
    have hlexemes' : lexemes (newText (.keep '#' :: .keep '!' :: (ks ++ cells))) =
        ⟨.mark, newText (.keep '#' :: .keep '!' :: ks)⟩ ::
          (settle (lexemesFrom .start (newText cells))).1 := by
      rw [new_text_keep, new_text_keep, lexemes, hnew, hnewrest]
      rfl
    have hsound : Sound r (['#', '!'] ++ oldText ks) .start cells := by
      refine ⟨woven_behind hbang, ?_, fun e he => hq e ?_⟩
      · rw [codeMask, hlexemes, mask_cons] at hm
        exact unmasked_behind (by simp : _ = (oldText (.keep '#' :: .keep '!' :: ks)).length) hm
      · rw [old_text_keep, old_text_keep, entries, hold, holdrest]
        exact he
    rw [hlexemes, hlexemes']
    exact .same .mark (.keep '#' :: .keep '!' :: ks) (settle_aligned (aligned_from hr hsound)).1
  · obtain ⟨hlexemes, hentries⟩ := lexemes_ordinary hline
    obtain ⟨hlexemes', -⟩ := lexemes_ordinary (mt hfirst hline)
    rw [codeMask, hlexemes] at hm
    rw [hentries] at hq
    rw [hlexemes, hlexemes']
    exact (settle_aligned (aligned_from hr ⟨hw, hm, hq⟩)).1

end

/-! Marks and literals. -/

/-- Marks of the two texts of some cells: those of kept characters are the same, all others show
code. -/
inductive Matched : List Cell → List Bool → List Bool → Prop
  | done : Matched [] [] []
  | keep {cells : List Cell} {ms ns : List Bool} (c : Char) (b : Bool) : Matched cells ms ns →
    Matched (.keep c :: cells) (b :: ms) (b :: ns)
  | swap {cells : List Cell} {ms ns : List Bool} (old new : Text) : Matched cells ms ns →
    Matched (.swap old new :: cells) (List.replicate old.length true ++ ms)
      (List.replicate new.length true ++ ns)

section

variable {cells : List Cell} {ms ns : List Bool}

theorem matched_code (ks : List Cell) (h : Matched cells ms ns) :
    Matched (ks ++ cells) (List.replicate (oldText ks).length true ++ ms)
      (List.replicate (newText ks).length true ++ ns) := by
  induction ks with
  | nil => exact h
  | cons k ks ih =>
    cases k with
    | keep c => exact .keep c true ih
    | swap old new =>
      rw [old_text_swap, new_text_swap, List.length_append, List.length_append,
        ← List.replicate_append_replicate, ← List.replicate_append_replicate, List.append_assoc,
        List.append_assoc]
      exact .swap old new ih

theorem matched_kept (b : Bool) (p : Text) (h : Matched cells ms ns) :
    Matched (p.map .keep ++ cells) (List.replicate p.length b ++ ms)
      (List.replicate p.length b ++ ns) := by
  induction p with
  | nil => exact h
  | cons c p ih => exact .keep c b ih

end

section

variable {r : Change} (hr : ∀ {u old new v}, r u old new v → old ≠ []) {u : Text}
  {cells : List Cell} {xs ys : List Lexeme} (h : Aligned cells xs ys)
include hr h

theorem masks_matched (hw : Woven r u cells) (hm : Unmasked (maskOf xs) cells) :
    Matched cells (maskOf xs) (maskOf ys) := by
  induction h generalizing u with
  | done => exact .done
  | @same cells xs ys k ks _ ih =>
    rw [mask_cons] at hm
    have hrest := ih (woven_behind hw) (unmasked_behind (by simp) hm)
    rw [mask_cons, mask_cons]
    cases hk : k.isLiteral with
    | false => exact matched_code ks hrest
    | true =>
      rw [hk] at hm
      obtain ⟨p, rfl⟩ := masked_keeps hr hw rfl hm
      rw [old_text_kept, new_text_kept]
      exact matched_kept _ p hrest
  | @code cells ks us vs xs ys hus hvs htext htext' _ ih =>
    rw [mask_of_append, mask_code hus, htext] at hm
    have hrest := ih (woven_behind hw) (unmasked_behind (by simp) hm)
    rw [mask_of_append, mask_of_append, mask_code hus, mask_code hvs, htext, htext']
    exact matched_code ks hrest

theorem literals_kept (hw : Woven r u cells) (hm : Unmasked (maskOf xs) cells) :
    ys.filter (·.kind.isLiteral) = xs.filter (·.kind.isLiteral) := by
  induction h generalizing u with
  | done => rfl
  | @same cells xs ys k ks _ ih =>
    rw [mask_cons] at hm
    have hrest := ih (woven_behind hw) (unmasked_behind (by simp) hm)
    cases hk : k.isLiteral with
    | false => simpa [hk] using hrest
    | true =>
      rw [hk] at hm
      obtain ⟨p, rfl⟩ := masked_keeps hr hw rfl hm
      simpa [hk, old_text_kept, new_text_kept] using hrest
  | @code cells ks us vs xs ys hus hvs htext htext' _ ih =>
    have hnone : ∀ {ws : List Lexeme}, AllCode ws → ws.filter (·.kind.isLiteral) = [] := by
      intro ws hws
      exact List.filter_eq_nil_iff.2 fun x hx => by simp [hws x hx]
    rw [mask_of_append, mask_code hus, htext] at hm
    have hrest := ih (woven_behind hw) (unmasked_behind (by simp) hm)
    rw [List.filter_append, List.filter_append, hnone hus, hnone hvs, hrest]

end

end Restage.Script
