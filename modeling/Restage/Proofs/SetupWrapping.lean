import Restage.Proofs.MigrationNotes
import Restage.Proofs.SetupForm
import Restage.Proofs.Splitting
import Restage.Proofs.Characters

/-!
Finding the setup function undoes wrapping. Whatever stands in a body, the function that was put
around it is found again with its two names and with exactly that body (`wrapped_setup_found`).
-/

set_option autoImplicit false

namespace Restage.Legacy

namespace Setup

/-- A parameter of a setup function, with the blanks around it. -/
structure Parameter where
  lead : Text
  name : Text
  trail : Text
  named : Text.isName name = true
  lead_blank : ∀ c ∈ lead, Text.isBlank c = true
  trail_blank : ∀ c ∈ trail, Text.isBlank c = true

namespace Parameter

def text (p : Parameter) : Text := p.lead ++ (p.name ++ p.trail)

variable (p : Parameter)

theorem name_bare : ∀ c ∈ p.name, Text.isBlank c = false := by
  intro c hc
  by_contra hblank
  rw [Bool.not_eq_false] at hblank
  have hpart := Text.name_parts p.named c hc
  rw [Text.blank_not_part hblank] at hpart
  exact Bool.noConfusion hpart

theorem text_strip : p.text.strip = p.name := by
  have hne : p.name ≠ [] := by
    obtain ⟨c, u, hname, _⟩ := Text.name_head p.named
    simp [hname]
  obtain ⟨hhead, hlast⟩ := Text.ends_of_all hne p.name_bare
  exact Text.trim_between p.lead_blank p.trail_blank hhead hlast

/-- A sign is neither part of a name nor a blank. -/
theorem text_lacks {x : Char} (hpart : Text.isNamePart x = false)
    (hblank : Text.isBlank x = false) : x ∉ p.text := by
  simp only [text, List.mem_append, not_or]
  exact ⟨Text.not_mem_of_all p.lead_blank hblank,
    Text.not_mem_of_all (Text.name_parts p.named) hpart,
    Text.not_mem_of_all p.trail_blank hblank⟩

end Parameter

/-- The head of a setup function: its two parameters, the blanks in front of them and those in front
of the body. -/
structure Wrapper where
  gap : Text
  first : Parameter
  second : Parameter
  space : Text
  gap_blank : ∀ c ∈ gap, Text.isBlank c = true
  space_blank : ∀ c ∈ space, Text.isBlank c = true

namespace Wrapper

variable (w : Wrapper)

def parameters : Text := w.first.text ++ ',' :: w.second.text

def head : Text :=
  "(function".toList ++ w.gap ++ '(' :: w.parameters ++ ')' :: w.space ++ ['\x7b']

/-- A body in its setup function, between a text in front of the function and one behind its end. -/
def wrap (front body tail : Text) : Text := front ++ (w.head ++ (body ++ (closing ++ tail)))

theorem parameters_split : (Text.splitOn ',' w.parameters).map Text.strip =
    [w.first.name, w.second.name] := by
  have hcomma : ∀ p : Parameter, ∀ c ∈ p.text, (c == ',') = false := by
    intro p c hc
    rw [beq_eq_false_iff_ne]
    rintro rfl
    exact p.text_lacks (by decide +kernel) (by decide) hc
  rw [parameters, Text.split_on_where, Text.split_head (hcomma w.first) (by decide),
    Text.split_whole (hcomma w.second), List.map_cons, List.map_singleton,
    Parameter.text_strip, Parameter.text_strip]

theorem head_opens : Opening w.parameters w.head := by
  refine ⟨w.gap, w.space, rfl, w.gap_blank, w.space_blank, ?_⟩
  simp only [parameters, List.mem_append, List.mem_cons, not_or]
  exact ⟨w.first.text_lacks (by decide +kernel) (by decide), by decide,
    w.second.text_lacks (by decide +kernel) (by decide)⟩

end Wrapper

/-- Behind a text without the opening word no setup function begins before the word does. The word
has its bracket in front only, so none of it lies in the text. -/
theorem opening_after {front rest raw opened u v : Text} (hfront : ¬ "(function".toList <:+: front)
    (hsplit : front = u ++ v) (hne : v ≠ []) (hopened : Opening raw opened) :
    ¬ opened <+: v ++ '(' :: rest := by
  obtain ⟨gap, space, rfl, -, -, -⟩ := hopened
  intro hpre
  have hword : "(function".toList <+: v ++ '(' :: rest := by
    refine List.IsPrefix.trans ?_ hpre
    simp only [List.append_assoc]
    exact List.prefix_append _ _
  obtain ⟨c, v, rfl⟩ := List.exists_cons_of_ne_nil hne
  obtain ⟨hc, hlater⟩ : '(' = c ∧ "function".toList <+: v ++ '(' :: rest := by
    simpa [List.cons_prefix_cons] using hword
  have hinside : "function".toList <+: v := Text.prefix_of_not_mem (by decide) hlater
  refine hfront ?_
  rw [hsplit, ← hc]
  exact (List.cons_prefix_cons.2 ⟨rfl, hinside⟩).isInfix.trans (List.suffix_append u _).isInfix

theorem wrap_wraps (w : Wrapper) {front body tail : Text}
    (hfront : ¬ "(function".toList <:+: front) (hbody : body ≠ []) (htail : ¬ closing <:+: tail) :
    Wraps ⟨w.first.name, w.second.name, body⟩ (w.wrap front body tail) :=
  ⟨front, w.parameters, w.head, tail, rfl, w.head_opens,
    fun _ _ _ _ hsplit hne hopened => opening_after hfront hsplit hne hopened,
    hbody, htail, w.parameters_split, w.first.named, w.second.named⟩

end Setup

/-- The setup function put around a body is found again, with the names of its parameters and the
whole body, unless an opening stands in front of it or a closing behind its own. -/
theorem wrapped_setup_found (w : Setup.Wrapper) {front body tail : Text}
    (hfront : ¬ "(function".toList <:+: front) (hbody : body ≠ [])
    (htail : ¬ Setup.closing <:+: tail) :
    (findSetup (w.wrap front body tail)).result = .ok ⟨w.first.name, w.second.name, body⟩ := by
  have hfound := Setup.find_iff.2 (Setup.wrap_wraps w hfront hbody htail)
  rw [setup_notes hfound]

namespace Setup

/-- A head with blanks in every place. -/
def spacedWrapper : Wrapper where
  gap := [' ']
  first := ⟨[' '], "PIXI".toList, ['\t'], by decide +kernel, by decide, by decide⟩
  second := ⟨['\n'], "$lib".toList, [' '], by decide +kernel, by decide, by decide⟩
  space := ['\n']
  gap_blank := by decide
  space_blank := by decide

end Setup

/-- The body may hold openings, closings and braces without a partner. -/
theorem spaced_setup_found :
    (findSetup (Setup.spacedWrapper.wrap "var lib = \x7b\x7d;\n".toList
      "\n(function (x, y) \x7b return x; \x7d)(1, 2); \x7d\x7d\n".toList
      "PIXI, lib = lib || \x7b\x7d);".toList)).result =
    .ok ⟨"PIXI".toList, "$lib".toList,
      "\n(function (x, y) \x7b return x; \x7d)(1, 2); \x7d\x7d\n".toList⟩ :=
  wrapped_setup_found Setup.spacedWrapper (by decide) (by decide) (by decide)

end Restage.Legacy
