import Restage.Proofs.Outcome

/-!
The notes of a migration. They are those of its steps, one after another (`migrate_notes`), and each
is about the part of the work of its step, so that those about the module are made when it is emitted
(`module_notes`).
-/

set_option autoImplicit false

namespace Restage

namespace Traced

variable {ε α β : Type}

theorem bind_notes {x : Traced ε α} {a : α} (h : x.result = .ok a) (f : α → Traced ε β) :
    (x >>= f).notes = x.notes ++ (f a).notes := by
  simp [bind, andThen, h]

/-- What holds of the notes of both steps holds of the notes of the two. -/
theorem bind_all {P : Note → Prop} {x : Traced ε α} {f : α → Traced ε β}
    (hx : ∀ n ∈ x.notes, P n) (hf : ∀ a, ∀ n ∈ (f a).notes, P n) : ∀ n ∈ (x >>= f).notes, P n := by
  cases h : x.result with
  | error e =>
    have hnotes : (x >>= f).notes = x.notes := by simp [bind, andThen, h]
    rwa [hnotes]
  | ok a =>
    rw [bind_notes h]
    intro n hn
    exact (List.mem_append.1 hn).elim (hx n) (hf a n)

end Traced

open Legacy Output

/-! Which part of the work notes are about. -/

theorem convert_channel (library t : Text) :
    ∀ n ∈ (convert library t).notes, n.channel = .classes := by
  have hmap : ∀ {α : Type} (f : α → Note), (∀ a, (f a).channel = .classes) →
      ∀ as : List α, ∀ n ∈ as.map f, n.channel = .classes := by
    rintro α f hf as n hn
    obtain ⟨a, _, rfl⟩ := List.mem_map.1 hn
    exact hf a
  have hnone : ∀ n ∈ ([] : List Note), n.channel = .classes := by simp
  exact Traced.bind_all hnone fun tree => Traced.bind_all (hmap _ (fun _ => rfl) _) fun _ =>
    Traced.bind_all hnone fun out => Traced.bind_all (hmap _ (fun _ => rfl) _) fun _ => hnone

theorem rename_channel (names : Names) (t : Text) :
    ∀ n ∈ (rename names t).notes, n.channel = .references := by
  have hrun : ∀ (ss : List Substitution) (t : Text), ∀ n ∈ (Substitution.runAll ss t).1,
      n.channel = .references := by
    intro ss
    induction ss with
    | nil => simp [Substitution.runAll]
    | cons s ss ih =>
      intro t n hn
      simp only [Substitution.runAll] at hn
      split at hn
      · exact ih _ n hn
      · rcases List.mem_cons.1 hn with rfl | hn
        · rfl
        · exact ih _ n hn
  exact hrun _ t

theorem landmark_channel (l : Landmarks) (source : String) :
    ∀ n ∈ [l.setup.note] ++ ([l.assets.note source] ++ l.stage.notes), n.channel = .landmarks := by
  have hassets : (l.assets.note source).channel = .landmarks := by
    rw [Assets.note]
    split <;> rfl
  have hstage : ∀ n ∈ l.stage.notes, n.channel = .landmarks := by
    rw [Stage.notes]
    split
    · simp [Note.plain]
    · simp
  intro n hn
  simp only [List.mem_append, List.mem_singleton] at hn
  rcases hn with rfl | rfl | hn
  · rfl
  · exact hassets
  · exact hstage n hn

theorem setup_notes {t : Text} {setup : Setup} (h : Setup.find t = .ok setup) :
    findSetup t = ⟨[setup.note], .ok setup⟩ := by
  rw [findSetup, h]
  rfl

theorem stage_notes (t : Text) : findStage t = ⟨(Stage.find t).notes, .ok (Stage.find t)⟩ := by
  simp [findStage, Traced.noteAll, bind, Traced.andThen, pure, Traced.ok]

section

variable {settings : Settings} {mode : Mode} {t : Text} {l : Landmarks} {c : Conversion}
  (hl : landmarks t = .ok l) (hc : l.conversion = .ok c)
include hl hc

/-- The notes of a migration, step by step. -/
theorem migrate_notes (source : String) : (migrate settings source mode t).notes =
    [l.setup.note] ++ ([l.assets.note source] ++ (l.stage.notes ++
      ((convert l.setup.libraryAlias l.body).notes ++
        ((rename ⟨l.setup.namespaceAlias, l.setup.libraryAlias, settings.target.namespaceName⟩
          c.text).notes ++
          (emit settings.target l.assets l.stage mode c.exports (l.renamed settings c)).notes)))) := by
  cases hsetup : Setup.find t with
  | error f => simp [landmarks, hsetup, Except.map] at hl
  | ok setup =>
    simp only [landmarks, hsetup, Except.map, Except.ok.injEq] at hl
    subst hl
    have hconverted : (convert setup.libraryAlias (bodyWithoutStage setup
        (Stage.find t))).refuse.result = .ok c := congrArg (Except.mapError Refusal.structure_) hc
    have hemitted : ∀ body, (emit settings.target (Assets.find setup.libraryAlias t) (Stage.find t)
        mode c.exports body).refuse.result = .ok (emitText settings.target
          (Assets.find setup.libraryAlias t) (Stage.find t) mode c.exports body) := fun body =>
      congrArg (Except.mapError Refusal.structure_) (emit_result _ _ _ _ _ _)
    have hend : ∀ {issues : List Issue} {m : Migration},
        (if !issues.isEmpty then Traced.fail (.invalid issues) else pure m :
          Traced Refusal Migration).notes = [] := by
      intro issues m
      split <;> rfl
    rw [migrate, setup_notes hsetup, stage_notes, Traced.bind_notes (a := setup) rfl,
      Traced.bind_notes (a := Assets.find setup.libraryAlias t) rfl,
      Traced.bind_notes (a := Stage.find t) rfl, Traced.bind_notes hconverted]
    simp only
    rw [Traced.bind_notes rfl, Traced.bind_notes (hemitted _), hend, List.append_nil]
    rfl

/-- The notes about the module are those made when it was emitted. -/
theorem module_notes (source : String) {n : Note} (hn : n.channel = .module) :
    n ∈ (migrate settings source mode t).notes ↔
      n ∈ (emit settings.target l.assets l.stage mode c.exports (l.renamed settings c)).notes := by
  rw [migrate_notes hl hc]
  constructor
  · intro h
    rw [← List.append_assoc, ← List.append_assoc] at h
    rcases List.mem_append.1 h with h | h
    · have := landmark_channel l source n (by rwa [← List.append_assoc])
      exact absurd (hn.symm.trans this) (by decide)
    rcases List.mem_append.1 h with h | h
    · exact absurd (hn.symm.trans (convert_channel _ _ n h)) (by decide)
    rcases List.mem_append.1 h with h | h
    · exact absurd (hn.symm.trans (rename_channel _ _ n h)) (by decide)
    · exact h
  · intro h
    simp only [List.mem_append]
    tauto

end

end Restage
