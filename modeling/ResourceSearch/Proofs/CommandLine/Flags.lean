import ResourceSearch.CommandLine.Arguments

/-!
One more flag on a command line.  Words that could be read are read in the same way where the flag
has been met before, as long as they do not give it again (`scan_withFlag`), and what stands before
the name of a command does not hang on what follows (`scan_command`).  So one word turns a command
that patches into a dry run (`parse?_dryRun`).
-/

namespace ResourceSearch
namespace CommandLine

namespace Found

/-- What has been found after a flag. -/
def withFlag (name : String) (f : Found) : Found := { f with flags := f.flags ++ [name] }

variable {name other : String} {f : Found}

theorem hasFlag_eq_false : f.hasFlag name = false ↔ name ∉ f.flags := by
  simp [hasFlag]

theorem hasFlag_withFlag_self : (f.withFlag name).hasFlag name = true := by
  simp [withFlag, hasFlag]

theorem hasFlag_withFlag_ne (h : other ≠ name) :
    (f.withFlag name).hasFlag other = f.hasFlag other := by
  simp [withFlag, hasFlag, h]

end Found

namespace Grammar

variable {g : Grammar} {p : Parameter} {word : String} {f f' : Found} (name : String)

/-! ## Words that are read -/

theorem meet_withFlag (h : meet p f = .go f') (hname : name ∉ f'.flags) :
    name ∉ f.flags ∧ meet p (f.withFlag name) = .go (f'.withFlag name) := by
  unfold meet at h ⊢
  cases hkind : p.kind with
  | flag =>
    simp only [hkind] at h ⊢
    split at h
    · cases h
    · rename_i hnew
      cases h
      obtain ⟨hne, hname⟩ := not_or.mp fun h => hname (List.mem_cons.mpr h)
      rw [Found.hasFlag_withFlag_ne (Ne.symm hne), if_neg hnew]
      exact ⟨hname, rfl⟩
  | counter =>
    simp only [hkind] at h ⊢
    cases h
    exact ⟨hname, rfl⟩
  | _ =>
    simp only [hkind] at h
    cases h

theorem meetLetters_withFlag {cs : List Char} (h : g.meetLetters f cs = .go f')
    (hname : name ∉ f'.flags) :
    name ∉ f.flags ∧ g.meetLetters (f.withFlag name) cs = .go (f'.withFlag name) := by
  induction cs generalizing f with
  | nil =>
    cases h
    exact ⟨hname, rfl⟩
  | cons c cs ih =>
    unfold meetLetters at h ⊢
    split at h
    · cases h
    · split at h
      · rename_i next hmeet
        obtain ⟨hnext, hrest⟩ := ih h
        obtain ⟨hf, hmeet⟩ := meet_withFlag name hmeet hnext
        simp only [hmeet]
        exact ⟨hf, hrest⟩
      · cases h

theorem take?_withFlag {v : String} (h : take? p v f = some f') :
    f'.flags = f.flags ∧ take? p v (f.withFlag name) = some (f'.withFlag name) := by
  unfold take? at h ⊢
  split at h
  · split at h
    · rename_i hallowed
      cases h
      exact ⟨rfl, if_pos hallowed⟩
    · cases h
  · cases h

theorem operand?_withFlag (h : g.operand? word f = some f') :
    f'.flags = f.flags ∧ g.operand? word (f.withFlag name) = some (f'.withFlag name) := by
  unfold operand? at h ⊢
  split at h
  · cases h
  · split at h
    · rename_i hempty
      cases h
      exact ⟨rfl, if_pos hempty⟩
    · cases h
  · cases h
    exact ⟨rfl, rfl⟩

theorem takesHyphens_withFlag : g.takesHyphens (f.withFlag name) = g.takesHyphens f := rfl

/-- What a word is taken for after a flag. -/
def Reading.withFlag (name : String) : Reading → Reading
  | .go f => .go (f.withFlag name)
  | reading => reading

/-- What a word that means flags is taken for. -/
def Step.reading : Step → Reading
  | .go f => .go f
  | .stop result => .stop result

/-- Flags that could be met can be met after another flag. -/
theorem reading_withFlag {step after : Step}
    (h : ∀ f', step = .go f' → name ∉ f'.flags → name ∉ f.flags ∧ after = .go (f'.withFlag name))
    (hstop : ∀ result, step.reading ≠ .stop result)
    (hname : ∀ f', step.reading = .go f' → name ∉ f'.flags) :
    (∀ f', step.reading = .go f' → name ∉ f.flags) ∧
      after.reading = step.reading.withFlag name := by
  cases step with
  | stop result => exact absurd rfl (hstop result)
  | go next =>
    obtain ⟨hf, rfl⟩ := h next rfl (hname next rfl)
    exact ⟨fun _ _ => hf, rfl⟩

theorem readWord_withFlag {reading : Reading} (h : g.readWord f word = reading)
    (hstop : ∀ result, reading ≠ .stop result)
    (hname : ∀ f', reading = .go f' → name ∉ f'.flags) :
    (∀ f', reading = .go f' → name ∉ f.flags) ∧
      g.readWord (f.withFlag name) word = reading.withFlag name := by
  subst h
  unfold readWord at hstop hname ⊢
  cases hshape : Shape.of word with
  | plain => exact ⟨fun f' h => (by cases h), rfl⟩
  | letters cs =>
    simp only [hshape, takesHyphens_withFlag name] at hstop hname ⊢
    by_cases hhyphens : (g.takesHyphens f && cs.any fun c => (g.lettered? c).isNone) = true
    · simp only [hhyphens, ↓reduceIte]
      exact ⟨fun f' h => (by cases h), rfl⟩
    · simp only [hhyphens] at hstop hname ⊢
      exact reading_withFlag name (fun _ => meetLetters_withFlag name) hstop hname
  | long given v? =>
    cases hnamed : g.named? given with
    | none =>
      simp only [hshape, hnamed, takesHyphens_withFlag name] at hstop hname ⊢
      by_cases hhyphens : g.takesHyphens f = true
      · simp only [hhyphens, ↓reduceIte]
        exact ⟨fun f' h => (by cases h), rfl⟩
      · rw [if_neg hhyphens] at hstop
        exact absurd rfl (hstop .refused)
    | some p =>
      cases v? with
      | some v =>
        simp only [hshape, hnamed] at hstop hname ⊢
        cases htake : take? p v f with
        | none =>
          rw [htake] at hstop
          exact absurd rfl (hstop .refused)
        | some next =>
          rw [htake] at hname
          obtain ⟨hflags, htake⟩ := take?_withFlag name htake
          rw [htake, ← hflags]
          exact ⟨fun _ _ => hname next rfl, rfl⟩
      | none =>
        simp only [hshape, hnamed] at hstop hname ⊢
        cases hkind : p.kind with
        | value allowed repeats anything => exact ⟨fun f' h => (by cases h), rfl⟩
        | _ =>
          simp only [hkind] at hstop hname ⊢
          exact reading_withFlag name (fun _ => meet_withFlag name) hstop hname

/-- How reading ends before its last word, unless it meets the name of a command. -/
def IsEarly (result : Scan) : Prop := result = .refused ∨ result = .help ∨ result = .version

theorem isEarly_meet {result : Scan} (h : meet p f = .stop result) : IsEarly result := by
  unfold meet at h
  repeat' split at h
  all_goals cases h
  · exact .inl rfl
  · exact .inr (.inl rfl)
  · exact .inr (.inr rfl)
  · exact .inl rfl

theorem isEarly_meetLetters {cs : List Char} {result : Scan}
    (h : g.meetLetters f cs = .stop result) : IsEarly result := by
  induction cs generalizing f with
  | nil => cases h
  | cons c cs ih =>
    unfold meetLetters at h
    split at h
    · cases h
      exact .inl rfl
    · split at h
      · exact ih h
      · rename_i result hmeet
        cases h
        exact isEarly_meet hmeet

theorem isEarly_readWord {result : Scan} (h : g.readWord f word = .stop result) :
    IsEarly result := by
  unfold readWord at h
  repeat' split at h
  all_goals cases h
  · exact .inl rfl
  · exact .inl rfl
  · exact isEarly_meet ‹_›
  · exact isEarly_meetLetters ‹_›

/-- Whether a word can be the value of an option that waits for one. -/
def isValue (g : Grammar) (p : Parameter) (f : Found) (word : String) : Bool :=
  if takesAnything p then true
  else if word = "--" then false
  else
    match g.readWord f word with
    | .datum => true
    | _ => false

theorem scan_waiting (words : List String) :
    g.scan (some p) f (word :: words) =
      match if g.isValue p f word then take? p word f else none with
      | some f => g.scan none f words
      | none => .refused := rfl

theorem isValue_withFlag (h : g.isValue p f word = true) :
    g.isValue p (f.withFlag name) word = true := by
  unfold isValue at h ⊢
  split at h
  · rename_i hanything
    rw [if_pos hanything]
  · rename_i hanything
    rw [if_neg hanything]
    split at h
    · cases h
    · rename_i hdashes
      rw [if_neg hdashes]
      split at h
      · rename_i hdatum
        obtain ⟨-, hafter⟩ := readWord_withFlag name hdatum (by simp) (by simp)
        simp only [hafter, Reading.withFlag]
      · cases h

theorem scanOperands_withFlag {words : List String} (h : g.scanOperands f words = .finished f') :
    f'.flags = f.flags ∧
      g.scanOperands (f.withFlag name) words = .finished (f'.withFlag name) := by
  induction words generalizing f with
  | nil =>
    cases h
    exact ⟨rfl, rfl⟩
  | cons word words ih =>
    rw [scanOperands] at h ⊢
    split at h
    · rename_i next hoperand
      obtain ⟨hflags, hrest⟩ := ih h
      obtain ⟨hnext, hoperand⟩ := operand?_withFlag name hoperand
      rw [hoperand]
      exact ⟨hflags.trans hnext, hrest⟩
    · cases h

/-- Words that were read without a flag are read in the same way after it. -/
theorem scan_withFlag {waiting : Option Parameter} {words : List String}
    (h : g.scan waiting f words = .finished f') (hname : name ∉ f'.flags) :
    name ∉ f.flags ∧ g.scan waiting (f.withFlag name) words = .finished (f'.withFlag name) := by
  induction words generalizing waiting f with
  | nil =>
    unfold scan at h ⊢
    split at h
    · cases h
    · rename_i hwaiting
      cases h
      rw [if_neg hwaiting]
      exact ⟨hname, rfl⟩
  | cons word words ih =>
    cases waiting with
    | some p =>
      rw [scan_waiting] at h ⊢
      split at h
      · rename_i next hvalue
        split at hvalue
        · rename_i hisValue
          obtain ⟨hnext, hrest⟩ := ih h
          obtain ⟨hflags, htake⟩ := take?_withFlag name hvalue
          rw [if_pos (isValue_withFlag name hisValue), htake, ← hflags]
          exact ⟨hnext, hrest⟩
        · cases hvalue
      · cases h
    | none =>
      unfold scan at h ⊢
      dsimp only at h ⊢
      split at h
      · cases h
      · rename_i hcommand
        rw [if_neg hcommand]
        split at h
        · rename_i hoperands
          rw [if_pos hoperands]
          obtain ⟨hflags, hrest⟩ := scanOperands_withFlag name h
          rw [← hflags]
          exact ⟨hname, hrest⟩
        · rename_i hoption
          rw [if_neg hoption]
          cases hword : g.readWord f word with
          | stop result =>
            simp only [hword] at h
            subst h
            rcases isEarly_readWord hword with h | h | h <;> cases h
          | waiting p =>
            obtain ⟨-, hafter⟩ := readWord_withFlag name hword (by simp) (by simp)
            simp only [hword] at h
            simp only [hafter]
            exact ih h
          | datum =>
            obtain ⟨-, hafter⟩ := readWord_withFlag name hword (by simp) (by simp)
            simp only [hword] at h
            simp only [hafter, Reading.withFlag]
            split at h
            · rename_i next hoperand
              obtain ⟨hnext, hrest⟩ := ih h
              obtain ⟨hflags, hoperand⟩ := operand?_withFlag name hoperand
              rw [hoperand, ← hflags]
              exact ⟨hnext, hrest⟩
            · cases h
          | go next =>
            simp only [hword] at h
            obtain ⟨hnext, hrest⟩ := ih h
            obtain ⟨hf, hafter⟩ := readWord_withFlag name hword (by simp)
              fun f' h => (by cases h; exact hnext)
            simp only [hafter]
            exact ⟨hf next rfl, hrest⟩

/-! ## What stands before a command -/

variable {name}

theorem scanOperands_ne_command {words rest : List String} :
    g.scanOperands f words ≠ .command name rest f' := by
  induction words generalizing f with
  | nil => rintro ⟨⟩
  | cons word words ih =>
    rw [scanOperands]
    split
    · exact ih
    · rintro ⟨⟩

/-- The words before the name of a command are read in the same way whatever follows it. -/
theorem scan_command {waiting : Option Parameter} {words rest : List String}
    (h : g.scan waiting f words = .command name rest f') :
    ∃ front, words = front ++ name :: rest ∧
      ∀ other, g.scan waiting f (front ++ name :: other) = .command name other f' := by
  induction words generalizing waiting f with
  | nil =>
    unfold scan at h
    split at h <;> cases h
  | cons word words ih =>
    -- what is left to say once the first word has led on to others
    have hstep : ∀ {waiting' f₁}, g.scan waiting' f₁ words = .command name rest f' →
        (∀ words, g.scan waiting f (word :: words) = g.scan waiting' f₁ words) →
        ∃ front, word :: words = front ++ name :: rest ∧
          ∀ other, g.scan waiting f (front ++ name :: other) = .command name other f' := by
      intro waiting' f₁ hrest hfirst
      obtain ⟨front, rfl, hfront⟩ := ih hrest
      exact ⟨word :: front, rfl, fun other => (hfirst _).trans (hfront other)⟩
    cases waiting with
    | some p =>
      rw [scan_waiting] at h
      split at h
      · rename_i next hvalue
        refine hstep h fun words => ?_
        rw [scan_waiting, hvalue]
      · cases h
    | none =>
      unfold scan at h
      dsimp only at h
      split at h
      · rename_i hcommand
        cases h
        exact ⟨[], rfl, fun other => by simp [scan, hcommand]⟩
      · rename_i hcommand
        split at h
        · exact absurd h scanOperands_ne_command
        · rename_i hdashes
          cases hword : g.readWord f word with
          | stop result =>
            simp only [hword] at h
            subst h
            rcases isEarly_readWord hword with h | h | h <;> cases h
          | waiting p =>
            simp only [hword] at h
            exact hstep h fun words => by simp [scan, hcommand, hdashes, hword]
          | go next =>
            simp only [hword] at h
            exact hstep h fun words => by simp [scan, hcommand, hdashes, hword]
          | datum =>
            simp only [hword] at h
            split at h
            · rename_i next hoperand
              exact hstep h fun words => by simp [scan, hcommand, hdashes, hword, hoperand]
            · cases h

end Grammar

/-! ## Dry runs -/

variable {words : List String} {o : Options} {r : ReconcileRequest}

theorem aboutOperand_ne_reconcile {make : String → Question} {f : Found} :
    aboutOperand make f ≠ some (.reconcile r) := by
  unfold aboutOperand
  split <;> rintro ⟨⟩

theorem reconcile_of_lookup {name : String} {grammar : Grammar} {make : Found → Option Command}
    {f : Found} (h : commands.lookup name = some (grammar, make))
    (hmake : make f = some (.reconcile r)) :
    name = "reconcile" ∧ grammar = reconcileGrammar ∧ make = reconcileCommand := by
  obtain ⟨before, after, hcommands, -⟩ := List.lookup_eq_some_iff.mp h
  have hmem : (name, grammar, make) ∈ commands := by
    rw [hcommands]
    exact List.mem_append_right _ List.mem_cons_self
  simp only [commands, List.mem_cons, Prod.mk.injEq, List.not_mem_nil, or_false] at hmem
  rcases hmem with h | h | h | h | h | h | h | h | h <;> obtain ⟨rfl, rfl, rfl⟩ := h
  all_goals first
    | exact absurd hmake aboutOperand_ne_reconcile
    | cases hmake
    | exact ⟨rfl, rfl, rfl⟩

theorem dryRun_of_reconcileCommand {f : Found} (h : reconcileCommand f = some (.reconcile r)) :
    r.dryRun = f.hasFlag "dry-run" := by
  obtain ⟨resource, -, h⟩ := Option.bind_eq_some_iff.mp h
  cases h
  rfl

theorem reconcileCommand_withFlag {f : Found} (h : reconcileCommand f = some (.reconcile r)) :
    reconcileCommand (f.withFlag "dry-run") = some (.reconcile { r with dryRun := true }) := by
  obtain ⟨resource, hresource, h⟩ := Option.bind_eq_some_iff.mp h
  cases h
  have hrelated : (f.withFlag "dry-run").hasFlag "related" = f.hasFlag "related" :=
    Found.hasFlag_withFlag_ne (by decide)
  refine Option.bind_eq_some_iff.mpr ⟨resource, hresource, ?_⟩
  rw [hrelated, Found.hasFlag_withFlag_self]
  rfl

/-- What a command line that patches has been read from. -/
theorem readCommand_reconcile {name : String} {rest : List String} {before : Found}
    (h : readCommand name rest before = some (.run o (.reconcile r))) :
    name = "reconcile" ∧ ∃ after, reconcileGrammar.scan none {} rest = .finished after ∧
      reconcileCommand after = some (.reconcile r) ∧ (agrees before && agrees after) = true ∧
      o = options before after := by
  obtain ⟨⟨grammar, make⟩, hlookup, h⟩ := Option.bind_eq_some_iff.mp h
  dsimp only at h
  split at h
  · rename_i after hscan
    obtain ⟨command, hmake, h⟩ := Option.bind_eq_some_iff.mp h
    split at h
    · rename_i hagrees
      cases h
      obtain ⟨rfl, rfl, rfl⟩ := reconcile_of_lookup hlookup hmake
      exact ⟨rfl, after, hscan, hmake, hagrees, rfl⟩
    · cases h
  all_goals cases h

theorem readCommand_finished {rest : List String} {before after : Found} {command : Command}
    (hscan : reconcileGrammar.scan none {} rest = .finished after)
    (hmake : reconcileCommand after = some command)
    (hagrees : (agrees before && agrees after) = true) :
    readCommand "reconcile" rest before = some (.run (options before after) command) := by
  have hlookup : commands.lookup "reconcile" = some (reconcileGrammar, reconcileCommand) := rfl
  have hcommand : ((reconcileCommand after).bind fun command =>
      if agrees before && agrees after then
        some (Invocation.run (options before after) command) else none) =
      some (.run (options before after) command) :=
    Option.bind_eq_some_iff.mpr ⟨command, hmake, if_pos hagrees⟩
  simp only [readCommand, hlookup, Option.bind_eq_bind, Option.bind_some, hscan]
  exact hcommand

section WithFlag

variable {name : String} (before after : Found)

theorem agrees_withFlag (h : name ∉ ["json", "yaml", "toml"]) :
    agrees (after.withFlag name) = agrees after := by
  unfold agrees
  rw [List.filter_congr fun other hother => Found.hasFlag_withFlag_ne ?_]
  rintro rfl
  exact h hother

theorem options_withFlag (h : name ∉ ["yaml", "toml", "quiet"]) :
    options before (after.withFlag name) = options before after := by
  have hsame : ∀ other ∈ ["yaml", "toml", "quiet"],
      (after.withFlag name).hasFlag other = after.hasFlag other := by
    intro other hother
    refine Found.hasFlag_withFlag_ne ?_
    rintro rfl
    exact h hother
  have hyaml := hsame "yaml" (by decide)
  have htoml := hsame "toml" (by decide)
  have hquiet := hsame "quiet" (by decide)
  simp only [options, hyaml, htoml, hquiet]
  rfl

end WithFlag

theorem readCommand_dryRun {rest : List String} {before : Found}
    (h : readCommand "reconcile" rest before = some (.run o (.reconcile r)))
    (hwet : r.dryRun = false) :
    readCommand "reconcile" ("--dry-run" :: rest) before =
      some (.run o (.reconcile { r with dryRun := true })) := by
  obtain ⟨-, after, hscan, hmake, hagrees, rfl⟩ := readCommand_reconcile h
  have hnew : "dry-run" ∉ after.flags := by
    rw [← Found.hasFlag_eq_false, ← dryRun_of_reconcileCommand hmake, hwet]
  have hfirst : reconcileGrammar.scan none {} ("--dry-run" :: rest) =
      reconcileGrammar.scan none (Found.withFlag "dry-run" {}) rest := rfl
  have hname : "dry-run" ∉ ["json", "yaml", "toml", "quiet"] := by decide
  rw [← agrees_withFlag after fun h => hname (List.mem_append_left ["quiet"] h)] at hagrees
  rw [← options_withFlag before after fun h => hname (List.mem_cons_of_mem "json" h)]
  exact readCommand_finished (hfirst.trans (Grammar.scan_withFlag _ hscan hnew).2)
    (reconcileCommand_withFlag hmake) hagrees

/-- A command that patches is a dry run with one more word behind its name. -/
theorem parse?_dryRun (hwords : parse? words = some (.run o (.reconcile r)))
    (hwet : r.dryRun = false) :
    ∃ front rest, words = front ++ "reconcile" :: rest ∧
      parse? (front ++ "reconcile" :: "--dry-run" :: rest) =
        some (.run o (.reconcile { r with dryRun := true })) := by
  unfold parse? at hwords
  split at hwords
  · repeat' split at hwords
    all_goals cases hwords
  · rename_i name rest before _ hscan
    obtain ⟨rfl, -⟩ := readCommand_reconcile hwords
    obtain ⟨front, hfront, hother⟩ := Grammar.scan_command hscan
    refine ⟨front, rest, hfront, ?_⟩
    simp only [parse?, hother]
    exact readCommand_dryRun hwords hwet
  all_goals cases hwords

end CommandLine
end ResourceSearch
