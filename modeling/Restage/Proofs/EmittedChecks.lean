import Restage.Proofs.ClosingLines
import Restage.Proofs.EmittedLines

/-!
The checks of the module that is emitted for an export. Its lines are taken in blocks of sound lines
that lead from one stack of open brackets to another (`Passes`): the lines of the template, those of
the stage and the assets, the setup body and the named exports. Together they pass every check
(`emitted_passes`).
-/

set_option autoImplicit false

namespace Restage.Script

/-- A name is a token of its line. -/
theorem scan_name_part {c : Char} (hc : Text.isNamePart c = true) :
    Post.next .fresh c = some .behind := by
  have hne : ∀ {x : Char}, Text.isNamePart x = false → c ≠ x := by
    rintro x hx rfl
    rw [hc] at hx
    exact Bool.noConfusion hx
  have hquote : isQuote c = false := not_quote_of (p := Text.isNamePart) (by decide) hc
  have hblank : Text.isBlank c = false := by
    by_contra h
    rw [Bool.not_eq_false] at h
    rw [Text.blank_not_part h] at hc
    exact Bool.noConfusion hc
  have hnone : ∀ p : Char → Bool, (∀ d, p d = true → Text.isBlank d = true ∨ d = '\uFEFF') →
      p c = false := by
    intro p hp
    by_contra h
    rw [Bool.not_eq_false] at h
    rcases hp c h with h | h
    · rw [hblank] at h
      exact Bool.noConfusion h
    · exact hne (by decide +kernel) h
  have hline : isNewline c = false := hnone isNewline fun d hd => by
    simp only [isNewline, Bool.or_eq_true, beq_iff_eq] at hd
    refine Or.inl ?_
    rcases hd with ((rfl | rfl) | hd) | hd
    · decide
    · decide
    · simp [Text.isBlank, hd]
    · simp [Text.isBlank, hd]
  have hspace : isSpace c = false := hnone isSpace fun d hd => by
    simp only [isSpace, Bool.and_eq_true, Bool.or_eq_true, beq_iff_eq] at hd
    exact hd.2.imp_right fun h => by rw [← Char.ofNat_toNat d, h]
  simp [Post.next, Post.plainNext, hquote, hline, hspace, hne (x := '\x60') (by decide),
    hne (x := '/') (by decide), hne (x := '-') (by decide)]

/-- Behind a token a line goes on to its end when it holds neither a literal nor a line end. -/
theorem scan_behind {u : Text} (hu : ∀ c ∈ u, opensLiteral c = false ∧ isNewline c = false) :
    scan .behind u = some .behind := by
  induction u with
  | nil => rfl
  | cons c u ih =>
    obtain ⟨hopens, hline⟩ := hu c (by simp)
    have hquote := opens_not_quote hopens
    have hother : ¬ (c = '\x60' ∨ c = '/') := by
      rintro (rfl | rfl)
      · exact absurd hopens (by decide)
      · exact absurd hopens (by decide)
    have hnext : Post.next .behind c = some .behind := by
      rw [Post.next, Post.plainNext]
      · simp [hquote, hother, hline]
      · simp
    rw [scan, hnext, Option.bind_some]
    exact ih fun d hd => hu d (by simp [hd])

end Restage.Script

namespace Restage.Output

open Legacy Export

/-! Blocks of lines. -/

/-- Sound lines that lead from one stack of open brackets to another. -/
structure Passes (stage : Text) (st : List Char) (ls : List Text) (st' : List Char) : Prop where
  sound : ∀ l ∈ ls, SoundLine stage l
  pairs : Script.pairUp st (ls.flatMap fun l => (Script.visible .fresh l).filter Script.isBracket) =
    some st'

section

variable {stage : Text} {st st' st'' : List Char} {ls ls' : List Text}

theorem passes_nil (stage : Text) (st : List Char) : Passes stage st [] st :=
  ⟨by simp, rfl⟩

theorem passes_append (h : Passes stage st ls st') (h' : Passes stage st' ls' st'') :
    Passes stage st (ls ++ ls') st'' := by
  refine ⟨fun l hl => ?_, ?_⟩
  · exact (List.mem_append.1 hl).elim (h.sound l) (h'.sound l)
  · rw [List.flatMap_append, Script.pair_append, h.pairs, Option.bind_some, h'.pairs]

/-- A line whose brackets pair up leaves the stack as it was. -/
theorem passes_line {l : Text} (h : SoundLine stage l)
    (hb : Script.Balanced ((Script.visible .fresh l).filter Script.isBracket)) (st : List Char) :
    Passes stage st [l] st :=
  ⟨fun k hk => List.mem_singleton.1 hk ▸ h, by
    rw [List.flatMap_singleton]
    exact Script.balanced_over hb st⟩

theorem passes_each (h : ∀ l ∈ ls, Passes stage st [l] st) : Passes stage st ls st := by
  induction ls with
  | nil => exact passes_nil stage st
  | cons l ls ih =>
    exact passes_append (h l (by simp)) (ih fun k hk => h k (by simp [hk]))

variable (hs : Text.isName stage = true)
include hs

theorem passes_clean {l : Text} (h : Clean stage l) (hb : Script.Balanced (l.filter Script.isBracket))
    (st : List Char) : Passes stage st [l] st := by
  refine passes_line (sound_clean hs h) ?_ st
  rwa [Script.visible_bare h.bare]

/-- Lines of the template. -/
theorem passes_plain (h : ∀ l ∈ ls, Row.Plain l)
    (hp : Script.pairUp st (ls.flatMap fun l => l.filter Script.isBracket) = some st') :
    Passes stage st ls st' := by
  refine ⟨fun l hl => sound_clean hs (clean_plain (h l hl)), ?_⟩
  have hsame : (ls.flatMap fun l => (Script.visible .fresh l).filter Script.isBracket) =
      ls.flatMap fun l => l.filter Script.isBracket :=
    List.flatMap_congr fun l hl => by rw [Script.visible_bare (h l hl).bare]
  rw [hsame, hp]

end

/-! Parts that are put into the template. -/

/-- A character that neither is a bracket nor begins a legacy construct. -/
def isInert (c : Char) : Bool := !Script.isBracket c && c != '.'

section

variable {stage : Text}

/-- Each construct has a dot in its first word. -/
theorem undotted_converted {u : Text} (hu : '.' ∉ u) (t : Text) (h : Residual (u ++ '\n' :: t)) :
    Residual t :=
  residual_line (fun b r hr hin => hu (hin.subset (residue_words_plain b r hr).2.2.1)) h

/-- A line of which nothing but inert characters is visible. -/
theorem passes_inert {l : Text} (hl : Script.Flows isInert l)
    (hassigns : ∀ t, Assigns stage (l ++ '\n' :: t) → Assigns stage t) (st : List Char) :
    Passes stage st [l] st := by
  obtain ⟨n, hn, hscan, hvisible⟩ := hl .fresh rfl
  have hdot : '.' ∉ Script.visible .fresh l := Text.not_mem_of_all hvisible (by decide)
  have hnone : (Script.visible .fresh l).filter Script.isBracket = [] :=
    unbracketed hvisible fun c hc => by
      simp only [isInert, Bool.and_eq_true, Bool.not_eq_true'] at hc
      exact hc.1
  refine passes_line ⟨⟨n, hn, hscan⟩, undotted_converted hdot, hassigns⟩ ?_ st
  rw [hnone]
  decide

end

theorem identifier_inert {c : Char} (hc : Text.isIdentifierPart c = true) : isInert c = true := by
  have hdot : c ≠ '.' := by
    rintro rfl
    exact absurd hc (by decide)
  have := not_bracket (p := Text.isIdentifierPart) (by decide) hc
  simp [isInert, this, hdot]

section

variable {stage : Text} {target : Target} (hs : Text.isName stage = true)
  (hn : Text.isIdentifier target.namespaceName = true)
include hs hn

/-- The import of the namespace. -/
theorem import_passes (hsource : ClearSource stage target.importSource) (st : List Char) :
    Passes stage st [importLine target] st := by
  have hname := Text.identifier_parts hn
  have hshape : importLine target = ("import ".toList ++ (target.namespaceName ++ " from ".toList)) ++
      (('\x27' :: (target.importSource ++ ['\x27'])) ++ [';']) := by
    have hfrom : " from '".toList = " from ".toList ++ ['\x27'] := rfl
    have hend : "';".toList = ['\x27'] ++ [';'] := rfl
    unfold importLine
    rw [hfrom, hend]
    simp
  refine passes_inert ?_ (fun t h => ?_) st
  · rw [hshape]
    refine Script.flows_append (Script.flows_harmless (fun c hc => ?_) fun c hc => ?_)
      (Script.flows_append (Script.flows_quotes rfl (fun c hc => ?_) (by decide))
        (Script.flows_harmless (by decide) (by decide)))
    · rw [List.mem_append, List.mem_append] at hc
      rcases hc with hc | hc | hc
      · exact (by decide : ∀ c ∈ "import ".toList, Script.opensLiteral c = false ∧ c ≠ '>') c hc
      · exact harmless_of (by decide) (hname c hc)
      · exact (by decide : ∀ c ∈ " from ".toList, Script.opensLiteral c = false ∧ c ≠ '>') c hc
    · rw [List.mem_append, List.mem_append] at hc
      rcases hc with hc | hc | hc
      · exact (by decide : ∀ c ∈ "import ".toList, isInert c = true) c hc
      · exact identifier_inert (hname c hc)
      · exact (by decide : ∀ c ∈ " from ".toList, isInert c = true) c hc
    · have := hsource.quotable c hc
      simp only [List.mem_cons, List.not_mem_nil, or_false, not_or] at this
      exact this
  · have hcut : importLine target ++ '\n' :: t =
        ("import ".toList ++ (target.namespaceName ++ " from ".toList)) ++
          '\x27' :: (target.importSource ++ '\x27' :: ([';'] ++ '\n' :: t)) := by
      rw [hshape]
      simp
    have hdot : '.' ∉ "import ".toList ++ (target.namespaceName ++ " from ".toList) := by
      have hnone : '.' ∉ target.namespaceName := Text.not_mem_of_all hname (by decide)
      simp [hnone]
    rw [hcut] at h
    rcases assigns_cut hs (by decide) (by decide) (by decide) h with h | h
    · exact absurd h (undotted_unassigned hdot)
    rcases assigns_cut hs (by decide) (by decide) (by decide) h with h | h
    · exact absurd h hsource.no_assets
    · exact assigns_line hs (word_absent (by decide)) h

/-- The head of the setup function opens its brace. -/
theorem setup_passes (st : List Char) : Passes stage st
    ["    setup: function(".toList ++ target.namespaceName ++ ") \x7b".toList] ('{' :: st) := by
  have hname := Text.identifier_parts hn
  have hnone : target.namespaceName.filter Script.isBracket = [] :=
    unbracketed hname fun c => not_bracket (by decide)
  have hfront : "    setup: function(".toList.filter Script.isBracket = ['('] := by decide
  have hback : ") \x7b".toList.filter Script.isBracket = [')', '{'] := by decide
  have hclean : Clean stage
      ("    setup: function(".toList ++ target.namespaceName ++ ") \x7b".toList) := by
    refine clean_undotted (fun c hc => ?_) ?_
    · rw [List.mem_append, List.mem_append] at hc
      rcases hc with (hc | hc) | hc
      · exact (by decide : ∀ c ∈ "    setup: function(".toList,
          Script.opensLiteral c = false ∧ c ≠ '>') c hc
      · exact harmless_of (by decide) (hname c hc)
      · exact (by decide : ∀ c ∈ ") \x7b".toList, Script.opensLiteral c = false ∧ c ≠ '>') c hc
    · have hdot : '.' ∉ target.namespaceName := Text.not_mem_of_all hname (by decide)
      simp [hdot]
  refine ⟨fun l hl => List.mem_singleton.1 hl ▸ sound_clean hs hclean, ?_⟩
  rw [List.flatMap_singleton, Script.visible_bare hclean.bare, List.filter_append,
    List.filter_append, hfront, hnone, hback]
  rfl

end

/-- Lines behind the `data` object. -/
theorem closing_passes {stage : Text} (hs : Text.isName stage = true) {ls : List Text}
    (h : ∀ l ∈ ls, Closing l) (st : List Char) : Passes stage st ls st := by
  refine passes_each fun l hl => ?_
  have hl := h l hl
  refine passes_clean hs (hl.clean stage) ?_ st
  rw [Script.Balanced, Script.pair_brackets]
  exact hl.paired

/-! The lines of the stage. -/

section

variable {stage : Text} {x : Entry} (hx : x.Formed) (hc : ClearValue stage x.value)

/-- What is kept of an entry: a text from the key on that holds what the entry holds. -/
structure KeptText (x : Entry) (m : Text) : Prop where
  head : ∃ c u, m = c :: u ∧ Text.isNamePart c = true
  inside : m <:+: x.content
  brackets : m.filter Script.isBracket = x.content.filter Script.isBracket

include hx in
theorem kept_text {m : Text} (h : m = x.content ∨ m = x.content.strip) : KeptText x m := by
  obtain ⟨c, u, hcu⟩ : ∃ c u, x.key = c :: u := List.exists_cons_of_ne_nil hx.key_some
  have hpart : Text.isNamePart c = true := hx.key c (by simp [hcu])
  have hhead : x.content = c :: (u ++ (": ".toList ++ x.value)) := by
    rw [Entry.content, hcu, List.cons_append]
  rcases h with rfl | rfl
  · exact ⟨⟨c, _, hhead, hpart⟩, List.infix_refl _, rfl⟩
  obtain ⟨a, b, hab, ha, hb⟩ := Text.trim_parts Text.isBlank x.content
  have hblank : ∀ {d : Char} {v w : Text}, (∀ e ∈ d :: v, Text.isBlank e = true) →
      x.content ≠ (d :: v) ++ w := by
    intro d v w hall h
    rw [hhead] at h
    have hd : c = d := (List.cons.inj h).1
    have hstart := part_not_blank hpart
    rw [hd, hall d (by simp)] at hstart
    exact Bool.noConfusion hstart
  refine ⟨?_, ⟨a, b, by rw [List.append_assoc]; exact hab.symm⟩,
    Text.filter_trim (fun d hd => blank_not_bracket hd) _⟩
  cases a with
  | cons d v => exact absurd hab (hblank ha)
  | nil =>
    cases hm : x.content.strip with
    | nil =>
      have hm : Text.trim Text.isBlank x.content = [] := hm
      rw [hm] at hab
      cases b with
      | nil => exact absurd (hab.symm.trans hhead) (by simp)
      | cons d v => exact absurd (hab.trans (by simp)) (hblank (w := []) hb)
    | cons d v =>
      have hm : Text.trim Text.isBlank x.content = d :: v := hm
      rw [hm, hhead] at hab
      exact ⟨d, v, rfl, (List.cons.inj hab).1 ▸ hpart⟩

include hx in
/-- Words in the content of an entry, the first with a dot, are words in its value. -/
theorem content_spells {w v : Text} (hw : ':' ∉ w ∧ ' ' ∉ w) (hv : ':' ∉ v) (hdot : '.' ∈ w)
    (h : Text.Spells w v x.content) : Text.Spells w v x.value := by
  have hkey : '.' ∉ x.key := Text.not_mem_of_all hx.key (by decide)
  have hcut : x.content = x.key ++ ':' :: ([' '] ++ x.value) := by
    have hsep : ": ".toList = ':' :: [' '] := rfl
    rw [Entry.content, hsep, List.cons_append]
  obtain ⟨c, u, rfl⟩ := List.exists_cons_of_ne_nil (List.ne_nil_of_mem hdot)
  rw [hcut] at h
  rcases Text.spells_cut hw.1 hv (by decide) h with h | h
  · exact absurd ((Text.spells_word h).subset hdot) hkey
  · exact Text.spells_behind (fun hm => hw.2 (by simp [List.mem_singleton.1 hm])) h

include hx hc

theorem content_plain : ∀ c ∈ x.content, Script.opensLiteral c = false ∧ Script.isNewline c = false := by
  intro c hm
  refine ⟨?_, (Entry.content_one_line hx hc c hm).1⟩
  simp only [Entry.content, List.mem_append] at hm
  rcases hm with hm | hm | hm
  · exact (harmless_of (by decide) (hx.key c hm)).1
  · exact (by decide : ∀ c ∈ ": ".toList, Script.opensLiteral c = false) c hm
  · have hmarks := hx.value c hm
    have htick : c ≠ '\x60' := fun h => hc.no_template (h ▸ hm)
    simp only [List.mem_cons, List.not_mem_nil, or_false, not_or] at hmarks
    simp [Script.opensLiteral, hmarks, htick]

theorem content_unassigned (hs : Text.isName stage = true) : ¬ Assigns stage x.content := by
  have hlacks : ∀ {d : Char}, isWordMark d = false → d ∉ assetsWord stage :=
    Text.not_mem_of_all (assets_word_chars hs)
  exact fun h => hc.no_assets (content_spells hx ⟨hlacks (by decide), hlacks (by decide)⟩
    (by decide) (assets_word_dot stage) h)

theorem content_converted : ¬ Residual x.content := by
  intro h
  obtain ⟨b, r, hr, h⟩ := residual_iff.1 h
  obtain ⟨_, h1, h2⟩ := residue_words_marks b r hr
  exact hc.no_residue (residual_iff.2 ⟨b, r, hr, content_spells hx
    ⟨h1 ':' (by decide), h1 ' ' (by decide)⟩ (h2 ':' (by decide))
    (residue_words_plain b r hr).2.2.1 h⟩)

/-- A line that is kept of the stage literal. -/
theorem kept_line_passes (hs : Text.isName stage = true) {l : Text} (hl : KeptLine x l)
    (st : List Char) : Passes stage st ["    ".toList ++ l] st := by
  obtain ⟨m, rfl, hm⟩ := hl
  obtain ⟨⟨c, u, hcu, hpart⟩, hinside, hbrackets⟩ := kept_text hx hm
  have hplain : ∀ d ∈ m ++ [','], Script.opensLiteral d = false ∧ Script.isNewline d = false := by
    intro d hd
    rcases List.mem_append.1 hd with hd | hd
    · exact content_plain hx hc d (hinside.subset hd)
    · exact List.mem_singleton.1 hd ▸ by decide
  have hunquoted : ∀ d ∈ "    ".toList ++ (m ++ [',']), Script.isQuote d = false := by
    intro d hd
    rcases List.mem_append.1 hd with hd | hd
    · exact (by decide : ∀ d ∈ "    ".toList, Script.isQuote d = false) d hd
    · exact Script.opens_not_quote (hplain d hd).1
  have hscan : Script.scan .fresh ("    ".toList ++ (m ++ [','])) = some .behind := by
    have hspaces : Script.scan .fresh "    ".toList = some .fresh := by decide
    rw [Script.scan_append, hspaces, Option.bind_some, hcu, List.cons_append, Script.scan,
      Script.scan_name_part hpart, Option.bind_some]
    exact Script.scan_behind fun d hd => hplain d (by rw [hcu]; exact List.mem_cons_of_mem c hd)
  have hvisible := Script.visible_unquoted rfl hunquoted hscan
  refine passes_line ⟨⟨.behind, rfl, hscan⟩, fun t h => ?_, fun t h => ?_⟩ ?_ st
  · rw [hvisible] at h
    obtain ⟨b, r, hr, h⟩ := residual_iff.1 h
    obtain ⟨hhead, h1, h2⟩ := residue_words_marks b r hr
    obtain ⟨d, w, hw⟩ := List.exists_cons_of_ne_nil (residue_words_plain b r hr).2.1
    have hstart : Text.isNameStart d = true := by simpa [hw] using hhead
    have hd : ∀ {x : Char}, Text.isNameStart x = false → d ≠ x := by
      rintro x hx rfl
      rw [hstart] at hx
      exact Bool.noConfusion hx
    have h1 := h1 ',' (by decide)
    have h2 := h2 ',' (by decide)
    rw [hw] at h h1
    have h := Text.spells_behind (u := "    ".toList) (t := m ++ (',' :: '\n' :: t))
      (by simpa using hd (by decide)) (by simpa using h)
    rcases Text.spells_cut h1 h2 (by decide) h with h | h
    · exact absurd (residual_iff.2 ⟨b, r, hr, hw ▸ Text.spells_within hinside h⟩)
        (content_converted hx hc)
    · exact residual_iff.2 ⟨b, r, hr, hw ▸
        Text.spells_behind (u := ['\n']) (by simpa using hd (by decide)) h⟩
  · have h := assigns_behind (u := "    ".toList) (v := m ++ (',' :: '\n' :: t)) (by decide)
      (by simpa using h)
    rcases assigns_cut hs (by decide) (by decide) (by decide) h with h | h
    · exact absurd (Text.spells_within hinside h) (content_unassigned hx hc hs)
    · exact assigns_behind (u := ['\n']) (by decide) h
  · have hsame : ("    ".toList ++ (m ++ [','])).filter Script.isBracket =
        x.value.filter Script.isBracket := by
      have h1 : "    ".toList.filter Script.isBracket = [] := by decide
      have h2 : [','].filter Script.isBracket = [] := by decide
      have h3 : ": ".toList.filter Script.isBracket = [] := by decide
      have h4 := unbracketed hx.key fun d => name_not_bracket
      rw [List.filter_append, List.filter_append, h1, h2, hbrackets, Entry.content,
        List.filter_append, List.filter_append, h3, h4]
      simp
    rw [hvisible, hsame, Script.Balanced, Script.pair_brackets]
    exact hx.brackets

end

/-! The assets mapping. -/

section

variable {e : Export} (he : e.Formed) (hc : e.Clear)
include he hc

/-- No assignment begins in the mapping. -/
theorem inner_unassigned {v : Text} (h : Assigns e.stage (e.inner ++ v)) : Assigns e.stage v := by
  have hfill : ∀ {u w : Text}, (∀ c ∈ u, isFiller c = true) → Assigns e.stage (u ++ w) →
      Assigns e.stage w := fun hu => assigns_behind (fillers_lack (by decide) hu)
  have hquote : ∀ {u w : Text}, ¬ Assigns e.stage u → Assigns e.stage (quoteText u ++ w) →
      Assigns e.stage w := by
    intro u w hu h
    have h : Assigns e.stage ([] ++ '\x22' :: (u ++ '\x22' :: w)) := by
      simpa [quoteText] using h
    have h := (assigns_cut he.stage (by decide) (by decide) (by decide) h).resolve_left
      (undotted_unassigned (by simp))
    exact (assigns_cut he.stage (by decide) (by decide) (by decide) h).resolve_left hu
  have hpairs : ∀ ps : List AssetPair, (∀ p ∈ ps, p ∈ e.pairs) →
      ∀ {w : Text}, Assigns e.stage (ps.flatMap AssetPair.text ++ w) → Assigns e.stage w := by
    intro ps hps w h
    induction ps with
    | nil => exact h
    | cons p ps ih =>
      have hp := he.pairs p (hps p (by simp))
      have hclear := hc.strings p (hps p (by simp))
      rw [List.flatMap_cons, AssetPair.text] at h
      simp only [List.append_assoc] at h
      exact ih (fun q hq => hps q (by simp [hq]))
        (hquote hclear.2 (hfill hp.middle (hquote hclear.1 (hfill hp.lead h))))
  rw [Export.inner, List.append_assoc] at h
  exact hfill he.close (hpairs e.pairs (fun _ hp => hp) h)

/-- The line of the assets mapping. -/
theorem mapping_passes (st : List Char) : Passes e.stage st
    ["    assets: ".toList ++ ('{' :: e.inner ++ ['}']) ++ [',']] st := by
  have hcut : "    assets: ".toList ++ ('{' :: e.inner ++ ['}']) ++ [','] =
      "    assets: \x7b".toList ++ (e.inner ++ "\x7d,".toList) := by
    have hopen : "    assets: \x7b".toList = "    assets: ".toList ++ ['{'] := rfl
    rw [hopen]
    simp
  obtain ⟨k, hk, hscan1, hvisible1⟩ := Script.scan_harmless (m := .fresh) rfl
    (u := "    assets: \x7b".toList) (by decide)
  obtain ⟨n, hn, hscan2, hvisible2⟩ := inner_flows he k hk
  obtain ⟨o, ho, hscan3, hvisible3⟩ := Script.scan_harmless hn (u := "\x7d,".toList) (by decide)
  have hvisible : Script.visible .fresh ("    assets: \x7b".toList ++ (e.inner ++ "\x7d,".toList)) =
      "    assets: \x7b".toList ++ (Script.visible k e.inner ++ "\x7d,".toList) := by
    rw [Script.visible_append hscan1, Script.visible_append hscan2, hvisible1, hvisible3]
  have hdot : '.' ∉ "    assets: \x7b".toList ++ (Script.visible k e.inner ++ "\x7d,".toList) := by
    have hinner : '.' ∉ Script.visible k e.inner := Text.not_mem_of_all hvisible2 (by decide)
    simp [hinner]
  rw [hcut]
  refine passes_line ⟨⟨o, ho, ?_⟩, ?_, fun t h => ?_⟩ ?_ st
  · rw [Script.scan_append, hscan1, Option.bind_some, Script.scan_append, hscan2, Option.bind_some,
      hscan3]
  · rw [hvisible]
    exact undotted_converted hdot
  · have h := assigns_cut he.stage (u := "    assets: ".toList) (x := '{')
      (v := e.inner ++ ("\x7d,\n".toList ++ t)) (by decide) (by decide) (by decide) (by simpa using h)
    have h := h.resolve_left (undotted_unassigned (by decide))
    exact assigns_behind (by decide) (inner_unassigned he hc h)
  · have h1 : "    assets: \x7b".toList.filter Script.isBracket = ['{'] := by decide
    have h2 : "\x7d,".toList.filter Script.isBracket = ['}'] := by decide
    have h3 : (Script.visible k e.inner).filter Script.isBracket = [] :=
      unbracketed hvisible2 fun c => not_bracket (by decide)
    rw [hvisible, List.filter_append, List.filter_append, h1, h2, h3]
    decide

end

/-! The whole module. -/

theorem line_inside {l : Text} {ls : List Text} (h : l ∈ ls) : l <:+: moduleText ls := by
  obtain ⟨u, v, rfl⟩ := List.append_of_mem h
  refine ⟨moduleText u, '\n' :: moduleText v, ?_⟩
  simp [moduleText]

section

variable {e : Export} (he : e.Formed) (hc : e.Clear) {front back : List Row}
  (hfront : Kept (e.front.rows none) front) (hback : Kept (e.back.rows none) back)
include he hfront hback

/-- The setup body. -/
theorem body_passes (st : List Char) : Passes e.stage st
    [Text.trim (fun c => c == '\r' || c == '\n') (e.attachedBody front back)] st := by
  have hclean := Export.attached_clean he hfront.fine hback.fine
  refine passes_clean he.stage (clean_within (Text.trim_infix _ _) hclean) ?_ st
  rw [Text.filter_trim]
  · exact Export.attached_balanced he hfront hback
  · exact fun c hcut => not_bracket (p := fun c => c == '\r' || c == '\n') (by decide) hcut

/-- The `data` object. -/
theorem data_passes (hc : e.Clear) {target : Target}
    (hn : Text.isIdentifier target.namespaceName = true) {assets : Assets} {stage : Stage}
    (hmapping : assets.mapping = '{' :: e.inner ++ ['}'])
    (hlines : ∀ l ∈ stage.lines, ∃ x ∈ e.entries, KeptLine x l) :
    Passes e.stage [] (dataLines target assets stage (e.attachedBody front back)) [] := by
  have hs := he.stage
  have hopen : Passes e.stage [] ["const data = \x7b".toList, "    stage: null,".toList] ['{'] :=
    passes_plain hs (by decide) (by decide)
  have hstage : Passes e.stage ['{'] (stage.lines.map ("    ".toList ++ ·)) ['{'] := by
    refine passes_each fun k hk => ?_
    obtain ⟨l, hl, rfl⟩ := List.mem_map.1 hk
    obtain ⟨x, hx, hkept⟩ := hlines l hl
    exact kept_line_passes (he.entries x hx) (hc.values x hx) hs hkept _
  have hassets := mapping_passes he hc ['{']
  rw [← hmapping] at hassets
  have htables : Passes e.stage ['{'] (["    lib: \x7b\x7d,".toList, "    shapes: \x7b\x7d,".toList,
      "    textures: \x7b\x7d,".toList, "    spritesheets: [],".toList] ++ textureAccessor) ['{'] := by
    unfold textureAccessor
    simp only [List.map_cons, List.map_nil]
    repeat rw [String.toList_ofList]
    exact passes_plain hs (by decide +kernel) (by decide +kernel)
  have hsetup := setup_passes hs hn ['{']
  have hbody := body_passes he hfront hback ['{', '{']
  have hclose : Passes e.stage ['{', '{'] ["    \x7d".toList, "\x7d;".toList] [] :=
    passes_plain hs (by decide) (by decide)
  have hall := passes_append hopen (passes_append hstage (passes_append hassets
    (passes_append htables (passes_append hsetup (passes_append hbody hclose)))))
  unfold dataLines
  simpa using hall

/-- The module that is emitted for an export passes every check. -/
theorem emitted_passes (hc : e.Clear) {target : Target}
    (hn : Text.isIdentifier target.namespaceName = true)
    (hsource : ClearSource e.stage target.importSource) {assets : Assets} {stage : Stage}
    (hname : assets.stageName = some e.stage) (hfound : assets.found = true)
    (hmapping : assets.mapping = '{' :: e.inner ++ ['}'])
    (hlines : ∀ l ∈ stage.lines, ∃ x ∈ e.entries, KeptLine x l) (mode : Mode)
    {exports : List Text} (hexports : ∀ n ∈ exports, n ∈ e.front.names ++ e.back.names)
    (checks : List Check) :
    runChecks checks ⟨emitText target assets stage mode exports (e.rewrittenBody .final front back),
      e.front.names ++ e.back.names, some e.stage⟩ = [] := by
  have hs := he.stage
  have hdata := data_passes he hfront hback hc hn hmapping hlines
  have hnames : ∀ n ∈ exports, Text.isName n = true := by
    intro n hin
    have := hexports n hin
    rw [← kept_names hfront, ← kept_names hback, List.mem_append] at this
    exact this.elim (row_name hfront.fine) (row_name hback.fine)
  have himport : Passes e.stage [] (if mode.autorun then [importLine target] else []) [] := by
    split
    · exact import_passes hs hn hsource []
    · exact passes_nil _ _
  have hclosing := closing_passes hs (closing_lines hn mode fun n hin =>
    Text.name_parts (hnames n hin)) []
  have hall : Passes e.stage []
      (lines target assets stage mode exports (e.attachedBody front back)) [] := by
    have hcut : lines target assets stage mode exports (e.attachedBody front back) =
        (if mode.autorun then [importLine target] else []) ++
          dataLines target assets stage (e.attachedBody front back) ++
            closingLines target mode exports := by
      rw [lines, closingLines]
      simp only [List.append_assoc]
    rw [hcut]
    exact passes_append (passes_append himport hdata) hclosing
  have htext : emitText target assets stage mode exports (e.rewrittenBody .final front back) =
      moduleText (lines target assets stage mode exports (e.attachedBody front back)) := by
    rw [emitText, Export.attached_rewritten he hfront.fine hfound hname, moduleText,
      Text.join_lines (by simp [lines])]
  rw [htext]
  refine module_passes hall.sound ?_ hall.pairs (fun n hin => ?_) checks
  · obtain ⟨c, w, hcw, hc⟩ : ∃ c w, moduleText (lines target assets stage mode exports
        (e.attachedBody front back)) = c :: w ∧ c ≠ '#' := by
      cases mode <;> exact ⟨_, _, rfl, by decide⟩
    rw [hcw]
    exact fun u h => hc (List.cons.inj h).1
  · refine (Export.attached_declares hfront hback n hin).trans (line_inside ?_)
    have hcut : isCut = fun c => c == '\r' || c == '\n' := rfl
    rw [hcut]
    simp [lines, dataLines]

end

end Restage.Output
