import ResourceSearch.Proofs.Cache.Failing
import ResourceSearch.Proofs.Cache.Updating
import ResourceSearch.Proofs.CommandLine.Rendering

/-!
The command that patches a snapshot.  If it fails, whatever the reason, the disk is as it was; if it
comes out well, it has replaced at most the snapshot file; and a dry run changes nothing
(`runOn_reconcile`).  Nothing fails once the snapshot is replaced, since the answer can be printed,
unless a stream takes nothing: a note on standard error comes first, and the command fails if that
is refused (`runOn_refused`).
-/

namespace ResourceSearch
namespace CommandLine

open Cache

variable {d d' : Disk} {process : Nat} {usual? : Option String} {c : Config} {o : Options}
  {r : ReconcileRequest}

/-! ## Reading the settings -/

theorem load_run (d : Disk) (path : String) :
    ((Config.load Disk.files path : StateM Disk _).run d).2 = d := by
  generalize hrun : (Config.load Disk.files path : StateM Disk _).run d = out
  obtain ⟨there, next, hthere, hrun⟩ := exists_of_run_bind hrun
  cases hthere
  split at hrun
  · obtain ⟨contents, next, hread, hrun⟩ := exists_of_run_bind hrun
    cases hread
    split at hrun <;> exact hrun ▸ rfl
  · exact hrun ▸ rfl

theorem settings_run (d : Disk) (usual? : Option String) (o : Options) :
    ((settings Disk.files usual? o : StateM Disk _).run d).2 = d := by
  unfold settings
  split
  · exact load_run d _
  · rfl

/-- The snapshot file that a request means. -/
def snapshotPath? (d : Disk) (usual? : Option String) (o : Options) (r : ReconcileRequest) :
    Option String :=
  match ((settings Disk.files usual? o : StateM Disk _).run d).1 with
  | .error _ => none
  | .ok c => r.cache?.or c.cachePath?

/-! ## Patching -/

theorem resolve_path {path : String} {deletion : Deletion}
    (h : resolve r c = .ok (path, deletion)) : path ∈ r.cache?.or c.cachePath? := by
  unfold resolve at h
  split at h
  · rename_i hpath
    split at h
    · cases h
    · cases h
      exact hpath
  · cases h

section Request

variable {path : String} {deletion : Deletion}

theorem reconcileFile_unresolved {failure : Failure} (h : resolve r c = .error failure) :
    (reconcileFile Disk.files process c r : StateM Disk _).run d = (.error failure, d) := by
  simp only [reconcileFile, h]
  rfl

theorem reconcileFile_dry (h : resolve r c = .ok (path, deletion)) (hdry : r.dryRun = true) :
    (reconcileFile Disk.files process c r : StateM Disk _).run d =
      ((Snapshot.storesAt d path).map fun s =>
        ⟨dryRunAnswer path (reconcile deletion s).1, none⟩, d) := by
  generalize hrun : (reconcileFile Disk.files process c r : StateM Disk _).run d = out
  simp only [reconcileFile, h, hdry, ↓reduceIte] at hrun
  obtain ⟨loaded, next, hload, hrun⟩ := exists_of_run_bind hrun
  have hstores : Snapshot.storesAt d path = loaded.map Snapshot.stores := by
    rw [Snapshot.storesAt, hload]
  rw [Snapshot.loadOrEmpty_run] at hload
  cases hload
  rw [hstores]
  split at hrun <;> rename_i heq <;> cases hrun <;> rw [heq] <;> rfl

theorem reconcileFile_wet {updated : Except Failure Report} (h : resolve r c = .ok (path, deletion))
    (hwet : r.dryRun = false)
    (hupdate : (Snapshot.update Disk.files process path (fun s => pure (reconcile deletion s)) :
      StateM Disk _).run d = (updated, d')) :
    (reconcileFile Disk.files process c r : StateM Disk _).run d =
      (updated.map fun report =>
        ⟨reconcileAnswer path r.origin report, some ("Reconciled " ++ path)⟩, d') := by
  simp only [reconcileFile, h, hwet, Bool.false_eq_true, ↓reduceIte, StateT.run_bind, hupdate]
  cases updated <;> rfl

/-- A request changes the disk only by replacing the snapshot file, and is then answered with what
the stores of the file came to. -/
theorem reconcileFile_cases {result : Except Failure Answer}
    (hfree : ∀ path ∈ r.cache?.or c.cachePath?, Snapshot.Free d process path)
    (h : (reconcileFile Disk.files process c r : StateM Disk _).run d = (result, d')) :
    d' = d ∨ r.dryRun = false ∧ ∃ path ∈ r.cache?.or c.cachePath?, Disk.Replaced path d d' ∧
      ∃ deletion s note?, Snapshot.storesAt d path = .ok s ∧
        result = .ok ⟨reconcileAnswer path r.origin (reconcile deletion s).1, note?⟩ := by
  cases hresolve : resolve r c with
  | error failure =>
    cases (reconcileFile_unresolved hresolve).symm.trans h
    exact .inl rfl
  | ok target =>
    obtain ⟨path, deletion⟩ := target
    have hpath := resolve_path hresolve
    cases hdry : r.dryRun with
    | true =>
      cases (reconcileFile_dry hresolve hdry).symm.trans h
      exact .inl rfl
    | false =>
      have hclean := Snapshot.update_clean (reconcile deletion) (hfree path hpath)
      generalize hupdate : (Snapshot.update Disk.files process path
        (fun s => pure (reconcile deletion s)) : StateM Disk _).run d = out at hclean
      obtain ⟨updated, after⟩ := out
      cases (reconcileFile_wet hresolve hdry hupdate).symm.trans h
      cases updated with
      | error failure => exact .inl hclean
      | ok report =>
        obtain ⟨s, hs, rfl, -⟩ := Snapshot.update_ok hupdate
        exact hclean.imp_right fun hreplaced =>
          ⟨rfl, path, hpath, hreplaced, deletion, s, _, hs, rfl⟩

end Request

/-! ## Printing -/

/-- What a command line prints for the outcome of its command. -/
def shown (o : Options) : Except Failure Answer → Output
  | .error failure => failed o.quiet "" failure
  | .ok a => printed o a

/-- A console that takes what a command prints.  A quiet command leaves standard error alone. -/
structure Console.Serves (console : Console) (o : Options) : Prop where
  out : ∀ text, console.takesOut text = true
  error : o.quiet = true ∨ ∀ text, console.takesError text = true

/-- Whether a console takes all of an output. -/
def Console.takes (console : Console) (out : Output) : Bool :=
  (out.stderr = "" || console.takesError out.stderr) &&
    (out.stdout = "" || console.takesOut out.stdout)

variable {console : Console}

/-- Writing to a stream that is a value leaves the disk alone. -/
theorem write_pure (takes : String → Bool) (text : String) :
    (write (fun text => pure (takes text)) text : StateM Disk Bool) =
      pure (text = "" || takes text) := by
  unfold write
  split <;> simp [*]

theorem print_streams (console : Console) (out : Output) :
    (out.print console.streams : StateM Disk Bool) = pure (console.takes out) := by
  simp only [Output.print, Console.streams, write_pure, pure_bind, Console.takes]
  split <;> simp [*]

theorem printed_code {a : Answer} (h : ∃ text, o.format.render a.value = .ok text) :
    (printed o a).code = 0 := by
  obtain ⟨text, htext⟩ := h
  simp only [printed, htext]

theorem Console.Serves.takes_printed {a : Answer} (hserves : console.Serves o)
    (h : ∃ text, o.format.render a.value = .ok text) : console.takes (printed o a) = true := by
  obtain ⟨text, htext⟩ := h
  rw [Console.takes, hserves.out, Bool.or_true, Bool.and_true]
  rcases hserves.error with hquiet | herror
  · simp only [printed, htext, hquiet, ↓reduceIte, decide_true, Bool.true_or]
  · rw [herror, Bool.or_true]

/-- Where standard error takes nothing, an answer with a note beside it cannot be printed. -/
theorem takes_printed_eq_false {a : Answer} {note : String} (hquiet : o.quiet = false)
    (hnote : a.note? = some note) (hrefuses : ∀ text, console.takesError text = false) :
    console.takes (printed o a) = false := by
  have herror : (printed o a).stderr ≠ "" := by
    cases hrender : o.format.render a.value <;> simp [printed, failed, hrender, hquiet, hnote]
  simp [Console.takes, herror, hrefuses]

/-- A format can say the report of stores that list less than the largest number of TOML. -/
theorem canSay_reconcile {f : Format} {deletion : Deletion} {s : Stores}
    (h : f = .toml → s.listed < 2 ^ 63) : f.CanSay (reconcile deletion s).1 :=
  fun htoml _ hn => Nat.lt_of_le_of_lt (le_listed_of_patched hn) (h htoml)

/-! ## Running the command -/

section Run

variable {words : List String} {out : Output} {code : Nat}
  (hwords : parse? words = some (.run o (.reconcile r)))
  (hfree : ∀ path ∈ snapshotPath? d usual? o r, Snapshot.Free d process path)

include hwords

/-- A command runs in the settings that are loaded, and prints what it comes to. -/
theorem run_eq : (run Disk.files process usual? words : StateM Disk _).run d =
    match ((settings Disk.files usual? o : StateM Disk _).run d).1 with
    | .error failure => (shown o (.error failure), d)
    | .ok c =>
      let (result, after) := (reconcileFile Disk.files process c r : StateM Disk _).run d
      (shown o result, after) := by
  have hsettings := settings_run d usual? o
  generalize hrun : (run Disk.files process usual? words : StateM Disk _).run d = out
  unfold run at hrun
  rw [hwords] at hrun
  obtain ⟨loaded, next, hload, hexecute⟩ := exists_of_run_bind hrun
  rw [hload] at hsettings ⊢
  cases hsettings
  cases loaded with
  | error failure => exact hexecute.symm
  | ok c =>
    obtain ⟨result, after, hreconcile, hprint⟩ := exists_of_run_bind hexecute
    replace hreconcile : (reconcileFile Disk.files process c r : StateM Disk _).run next =
      (result, after) := hreconcile
    simp only [hreconcile]
    cases result <;> exact hprint.symm

/-- A command that cannot print has done all else that it does. -/
theorem runOn_eq
    (hrun : (run Disk.files process usual? words : StateM Disk _).run d = (out, d')) :
    (runOn Disk.files console.streams process usual? words : StateM Disk _).run d =
      (if console.takes out then out.code else refusedCode, d') := by
  simp only [runOn, StateT.run_bind, hrun, print_streams, hwords]
  rfl

/-- A command that has replaced the snapshot fails if standard error takes nothing, unless it is a
quiet one. -/
theorem runOn_refused {path : String} {deletion : Deletion} {report : Report}
    (hsettings : ((settings Disk.files usual? o : StateM Disk _).run d).1 = .ok c)
    (hresolve : resolve r c = .ok (path, deletion)) (hwet : r.dryRun = false)
    (hquiet : o.quiet = false) (hrefuses : ∀ text, console.takesError text = false)
    (hupdate : (Snapshot.update Disk.files process path (fun s => pure (reconcile deletion s)) :
      StateM Disk _).run d = (.ok report, d')) :
    (runOn Disk.files console.streams process usual? words : StateM Disk _).run d =
      (refusedCode, d') := by
  have hrun : (run Disk.files process usual? words : StateM Disk _).run d =
      (printed o ⟨reconcileAnswer path r.origin report, some ("Reconciled " ++ path)⟩, d') := by
    rw [run_eq hwords, hsettings]
    simp only [reconcileFile_wet hresolve hwet hupdate]
    rfl
  rw [runOn_eq hwords hrun, takes_printed_eq_false hquiet rfl hrefuses]
  rfl

include hfree

/-- The disk is another one only if an answer is to be printed, and not after a dry run. -/
theorem run_cases (hrun : (run Disk.files process usual? words : StateM Disk _).run d = (out, d')) :
    d' = d ∨ r.dryRun = false ∧ ∃ path ∈ snapshotPath? d usual? o r, Disk.Replaced path d d' ∧
      ∃ deletion s note?, Snapshot.storesAt d path = .ok s ∧
        out = printed o ⟨reconcileAnswer path r.origin (reconcile deletion s).1, note?⟩ := by
  rw [run_eq hwords] at hrun
  unfold snapshotPath? at hfree ⊢
  cases hsettings : ((settings Disk.files usual? o : StateM Disk _).run d).1 with
  | error failure =>
    rw [hsettings] at hrun
    cases hrun
    exact .inl rfl
  | ok c =>
    simp only [hsettings] at hrun hfree ⊢
    cases hrun
    refine (reconcileFile_cases hfree (Prod.eta _).symm).imp_right ?_
    rintro ⟨hwet, path, hpath, hreplaced, deletion, s, note?, hs, hresult⟩
    exact ⟨hwet, path, hpath, hreplaced, deletion, s, note?, hs, congrArg (shown o) hresult⟩

/-- A command that fails leaves the disk as it was, if the streams take what it prints and TOML is
not asked to say a number that it does not have.  A dry run leaves the disk as it was in any case;
any other command changes at most the snapshot file, and none leaves its lock or its temporary file
behind.  No format fails to print an answer, as long as TOML has the numbers in it. -/
theorem runOn_reconcile
    (hrun : (runOn Disk.files console.streams process usual? words : StateM Disk _).run d =
      (code, d')) :
    (console.Serves o →
      (o.format = .toml → ∀ path ∈ snapshotPath? d usual? o r, ∀ s,
        Snapshot.storesAt d path = .ok s → s.listed < 2 ^ 63) →
      code ≠ 0 → d' = d) ∧
      (r.dryRun = true → d' = d) ∧
      (d' = d ∨ ∃ path ∈ snapshotPath? d usual? o r, Disk.Replaced path d d') ∧
      (∀ path ∈ snapshotPath? d usual? o r, d'.at? (Snapshot.lockPath path) = none ∧
        d'.at? (Snapshot.temporaryPath process path) = none) ∧
      ∀ (f : Format) (report : Report), f.CanSay report → ∀ path origin,
        (∃ text, f.render (reconcileAnswer path origin report) = .ok text) ∧
          ∃ text, f.render (dryRunAnswer path report) = .ok text := by
  obtain ⟨out, after, hout⟩ : ∃ out after,
      (run Disk.files process usual? words : StateM Disk _).run d = (out, after) := ⟨_, _, rfl⟩
  obtain ⟨rfl, rfl⟩ := Prod.mk.inj ((runOn_eq hwords hout).symm.trans hrun)
  have hcases := run_cases hwords hfree hout
  refine ⟨fun hserves hlisted hfailed => ?_, fun hdry => ?_, ?_, fun path hpath => ?_,
    fun f report hsay path origin =>
      ⟨render_reconcileAnswer hsay path origin, render_dryRunAnswer hsay path⟩⟩
  · rcases hcases with hsame | ⟨-, path, hpath, -, deletion, s, note?, hs, rfl⟩
    · exact hsame
    · -- an answer that can be printed makes the code 0
      have hsay : o.format.CanSay (reconcile deletion s).1 :=
        canSay_reconcile fun htoml => hlisted htoml path hpath s hs
      have hrender := render_reconcileAnswer hsay path r.origin
      rw [if_pos (hserves.takes_printed hrender), printed_code hrender] at hfailed
      exact absurd rfl hfailed
  · rcases hcases with hsame | ⟨hwet, -⟩
    · exact hsame
    · rw [hdry] at hwet
      cases hwet
  · rcases hcases with hsame | ⟨-, path, hpath, hreplaced, -⟩
    · exact .inl hsame
    · exact .inr ⟨path, hpath, hreplaced⟩
  · have hfree := hfree path hpath
    rcases hcases with rfl | ⟨-, other, hother, hreplaced, -⟩
    · exact ⟨hfree.lock, hfree.temporary⟩
    · cases Option.mem_unique hpath hother
      exact ⟨hreplaced.at?_sibling Snapshot.isSuffix_lock hfree.lock,
        hreplaced.at?_sibling (Snapshot.isSuffix_temporary process) hfree.temporary⟩

end Run

/-- A quiet command in TOML that takes the only resource out of a snapshot file, with no standard
error to print to. -/
theorem runOn_reconcile_only_resource :
    let pod : Resource := { name := "a", kind := "Pod" }
    let s : Stores := { items := Store.empty.insert (.items {}) (.items [pod]) }
    let words := ["-q", "--toml", "reconcile", "--cache", "cache.json", "--resource",
      "\x7b\"name\":\"a\",\"kind\":\"Pod\"\x7d"]
    let console : Console := { takesError := fun _ => false }
    ∃ code d', (runOn Disk.files console.streams 7 none words : StateM Disk _).run
        (Snapshot.diskOf s) = (code, d') ∧
      (code ≠ 0 → d' = Snapshot.diskOf s) ∧
      (d' = Snapshot.diskOf s ∨ Disk.Replaced "cache.json" (Snapshot.diskOf s) d') ∧
      d'.at? "cache.json.lock" = none ∧ d'.at? "cache.json.tmp.7" = none := by
  intro pod s words console
  let request : ReconcileRequest :=
    { cache? := some "cache.json", resource := "\x7b\"name\":\"a\",\"kind\":\"Pod\"\x7d" }
  let quiet : Options := { format := .toml, quiet := true }
  have hwords : parse? words = some (.run quiet (.reconcile request)) := by decide +kernel
  have hserves : console.Serves quiet := ⟨fun _ => rfl, .inl rfl⟩
  have hpath : snapshotPath? (Snapshot.diskOf s) none quiet request = some "cache.json" := rfl
  have hfree : ∀ path ∈ snapshotPath? (Snapshot.diskOf s) none quiet request,
      Snapshot.Free (Snapshot.diskOf s) 7 path := by
    intro path h
    cases Option.mem_unique h hpath
    exact ⟨rfl, rfl, rfl, rfl⟩
  have hstorable : s.Storable := by
    have hresources : s.resources = [pod] := rfl
    refine Stores.storable_of_bare fun r hr => ?_
    rw [hresources, List.mem_singleton] at hr
    rw [hr]
    rfl
  have hlisted : ∀ path ∈ snapshotPath? (Snapshot.diskOf s) none quiet request, ∀ t,
      Snapshot.storesAt (Snapshot.diskOf s) path = .ok t → t.listed < 2 ^ 63 := by
    intro path h t ht
    cases Option.mem_unique h hpath
    cases (Snapshot.storesAt_file rfl rfl hstorable).symm.trans ht
    rw [show s.listed = 1 from rfl]
    decide
  obtain ⟨code, d', hrun⟩ : ∃ code d',
      (runOn Disk.files console.streams 7 none words : StateM Disk _).run (Snapshot.diskOf s) =
        (code, d') :=
    ⟨_, _, (Prod.eta _).symm⟩
  obtain ⟨hcode, -, hdisk, hgone, -⟩ := runOn_reconcile hwords hfree hrun
  obtain ⟨hlock, htemporary⟩ := hgone "cache.json" hpath
  refine ⟨code, d', hrun, hcode hserves fun _ => hlisted, ?_, hlock, htemporary⟩
  rcases hdisk with hsame | ⟨path, h, hreplaced⟩
  · exact .inl hsame
  · cases Option.mem_unique h hpath
    exact .inr hreplaced

/-- What a report that TOML cannot say, a standard error that takes nothing and a system that may
refuse removals come to: an answer that cannot be printed, a command that fails when it has replaced
the snapshot, one that fails and leaves its lock, and a temporary file that stays. -/
theorem report_unsaid_and_traces_left :
    (∀ text, Format.toml.render (reconcileAnswer "cache.json" .results
      { items := some (.patched (2 ^ 63)) }) ≠ .ok text) ∧
    (let words := ["reconcile", "--cache", "cache.json", "--resource",
        "\x7b\"name\":\"a\",\"kind\":\"Pod\"\x7d"]
      let s : Stores :=
        { items := Store.empty.insert (.items {}) (.items [{ name := "a", kind := "Pod" }]) }
      let d := Snapshot.diskOf s
      let console : Console := { takesError := fun _ => false }
      let after := (runOn Disk.files console.streams 7 none words : StateM Disk _).run d
      d.at? "cache.json.lock" = none ∧ d.at? "cache.json.tmp.7" = none ∧ after.1 ≠ 0 ∧
        after.2.at? "cache.json" ≠ d.at? "cache.json") ∧
    (let words := ["reconcile", "--cache", "cache.json", "--resource",
        "\x7b\"name\":\"a\",\"kind\":\"Pod\"\x7d"]
      let d : Disk := {
        entries := [(⟨.above 0, ["cache.json"]⟩, .folder)]
        refusal := fun request => if request = .remove "cache.json.lock" then some .busy else none }
      let console : Console := {}
      let after := (runOn Disk.files console.streams 7 none words : StateM Disk _).run d
      d.at? "cache.json.lock" = none ∧ d.at? "cache.json.tmp.7" = none ∧ after.1 = 1 ∧
        after.2.at? "cache.json.lock" ≠ none) ∧
    (let d : Disk := {
        refusal := fun request =>
          match request with
          | .rename .. => some .busy
          | .remove path => if path = "cache.json.tmp.7" then some .busy else none
          | _ => none }
      let after := (Snapshot.replace Disk.files 7 "cache.json" [] : StateM Disk _).run d
      d.at? "cache.json.tmp.7" = none ∧ after.1.isOk = false ∧
        after.2.at? "cache.json.tmp.7" ≠ none) := by
  refine ⟨fun text h => ?_, ?_, by decide +kernel, by decide +kernel⟩
  · cases h
  · intro words s d console after
    let pod : Resource := { name := "a", kind := "Pod" }
    let request : ReconcileRequest :=
      { cache? := some "cache.json", resource := "\x7b\"name\":\"a\",\"kind\":\"Pod\"\x7d" }
    have hwords : parse? words = some (.run {} (.reconcile request)) := by decide +kernel
    have hpatch : (match resolve request {} with
        | .ok (path, deletion) => path = "cache.json" && !(reconcile deletion s).2.same s
        | .error _ => false) = true := by decide +kernel
    have hs : s.Storable := by
      have hresources : s.resources = [pod] := rfl
      refine Stores.storable_of_bare fun r hr => ?_
      rw [hresources, List.mem_singleton] at hr
      rw [hr]
      rfl
    cases hresolve : resolve request {} with
    | error failure =>
      rw [hresolve] at hpatch
      cases hpatch
    | ok target =>
      obtain ⟨path, deletion⟩ := target
      simp only [hresolve, Bool.and_eq_true, decide_eq_true_eq, Bool.not_eq_true'] at hpatch
      obtain ⟨rfl, hchanged⟩ := hpatch
      have hafter : after = (refusedCode, Snapshot.diskOf (reconcile deletion s).2) :=
        runOn_refused hwords rfl hresolve rfl rfl (fun _ => rfl)
          (Snapshot.update_diskOf hs rfl hchanged)
      have hne : (reconcile deletion s).2 ≠ s := by
        intro heq
        rw [heq] at hchanged
        exact absurd hchanged (by decide)
      rw [hafter]
      exact ⟨rfl, rfl, (by decide : refusedCode ≠ 0),
        Snapshot.at?_diskOf_ne (hs.reconcile deletion) hs hne⟩

end CommandLine
end ResourceSearch
