import ResourceSearch.Cache.Snapshot
import ResourceSearch.Proofs.Cache.Contents
import ResourceSearch.Proofs.File.Requests

/-!
The snapshot file on a disk.  Loading depends on what the path names and on nothing else
(`loadOrEmpty_run`).  A writer that is done under the lock leaves what it made of the path, and a
writer that made nothing leaves what was there (`locked_ok`).
-/

namespace ResourceSearch

theorem Disk.change_ok {f : Disk → Except FileError Disk} {d d' : Disk}
    (h : (Disk.change f : StateM Disk _).run d = (.ok (), d')) : f d = .ok d' := by
  obtain ⟨_, _, hget, h⟩ := exists_of_run_bind h
  cases hget
  cases hf : f d with
  | error e => rw [hf] at h; cases h
  | ok next => rw [hf] at h; cases h; rfl

theorem Disk.change_run {f : Disk → Except FileError Disk} {d d' : Disk} (h : f d = .ok d') :
    (Disk.change f : StateM Disk _).run d = (.ok (), d') := by
  have hget : (get : StateM Disk Disk).run d = pure (d, d) := rfl
  simp only [Disk.change, StateT.run_bind, hget, pure_bind, h]
  rfl

theorem Disk.change_error {f : Disk → Except FileError Disk} {d d' : Disk} {e : FileError}
    (h : (Disk.change f : StateM Disk _).run d = (.error e, d')) : d' = d := by
  obtain ⟨_, _, hget, h⟩ := exists_of_run_bind h
  cases hget
  cases hf : f d with
  | error e' => rw [hf] at h; cases h; rfl
  | ok next => rw [hf] at h; cases h

namespace Cache
namespace Snapshot

variable {d d' : Disk} {process : Nat} {path : String}

/-- What loading makes of something that the path names. -/
def ofNode (path : String) (permission : Except FileError Unit) (n : Node) :
    Except Failure Snapshot :=
  match permission >>= fun _ => n.contents with
  | .error e => .error (.cache ("Failed to read " ++ path ++ ": " ++ e.message))
  | .ok contents => ofBytes path contents

theorem load_run (d : Disk) (path : String) :
    (load Disk.files path : StateM Disk (Except Failure Snapshot)).run d =
      match d.at? path with
      | none => (.error (.snapshotNotFound path), d)
      | some n => (ofNode path (d.permit (.read path)) n, d) := by
  have hthere := d.isThere_eq path
  cases hat : d.at? path with
  | none =>
    rw [hat] at hthere
    simp [load, Disk.files, hthere]
    rfl
  | some n =>
    rw [hat] at hthere
    simp only [ofNode, ← Disk.read_eq hat]
    cases hread : d.read path <;> simp [load, Disk.files, hthere, hread] <;> rfl

theorem load_file {contents : List UInt8} (hfile : d.at? path = some (.file contents))
    (hread : d.refusal (.read path) = none) :
    (load Disk.files path : StateM Disk _).run d = (ofBytes path contents, d) := by
  rw [load_run, hfile, Disk.permit, hread]
  rfl

/-- What loading makes of what a path names, where nothing is two empty stores. -/
def orEmpty (path : String) (permission : Except FileError Unit) :
    Option Node → Except Failure Snapshot
  | none => .ok empty
  | some n => ofNode path permission n

theorem ofNode_found (path : String) (permission : Except FileError Unit) (n : Node)
    (other : String) : ofNode path permission n ≠ .error (.snapshotNotFound other) := by
  unfold ofNode ofBytes
  split
  · rintro ⟨⟩
  · split
    · rintro ⟨⟩
    · split <;> rintro ⟨⟩

theorem loadOrEmpty_run (d : Disk) (path : String) :
    (loadOrEmpty Disk.files path : StateM Disk (Except Failure Snapshot)).run d =
      (orEmpty path (d.permit (.read path)) (d.at? path), d) := by
  have hload := load_run d path
  cases hat : d.at? path with
  | none =>
    rw [hat] at hload
    simp only [loadOrEmpty, StateT.run_bind, hload]
    rfl
  | some n =>
    rw [hat] at hload
    simp only [loadOrEmpty, StateT.run_bind, hload]
    have hfound := ofNode_found path (d.permit (.read path)) n
    cases hopened : ofNode path (d.permit (.read path)) n with
    | ok s => simp only [orEmpty, hopened]; rfl
    | error failure =>
      simp only [orEmpty, hopened]
      cases failure with
      | snapshotNotFound other => exact absurd hopened (hfound other)
      | _ => rfl

/-! ## Writers -/

theorem lock_ok (h : (lock Disk.files process path : StateM Disk _).run d = (.ok (), d')) :
    ∃ contents, d.create (lockPath path) contents = .ok d' := by
  obtain ⟨result, next, hcreate, h⟩ := exists_of_run_bind h
  cases result with
  | error e => cases e <;> cases h
  | ok done =>
    cases h
    exact ⟨_, Disk.change_ok hcreate⟩

theorem locked_ok {α : Type} {act : StateM Disk (Except Failure α)} {a : α}
    (h : (locked Disk.files process path act).run d = (.ok a, d')) :
    ∃ before after contents, d.create (lockPath path) contents = .ok before ∧
      act.run before = (.ok a, after) ∧
      (after.remove (lockPath path) = .ok d' ∨ d' = after) := by
  obtain ⟨result, before, hlock, h⟩ := exists_of_run_bind h
  cases result with
  | error failure => cases h
  | ok done =>
    obtain ⟨contents, hcreate⟩ := lock_ok hlock
    obtain ⟨result, after, hact, h⟩ := exists_of_run_bind h
    obtain ⟨removed, last, hremove, h⟩ := exists_of_run_bind h
    cases h
    refine ⟨before, after, contents, hcreate, hact, ?_⟩
    cases removed with
    | error e => exact .inr (Disk.change_error hremove)
    | ok done => exact .inl (Disk.change_ok hremove)

theorem replace_ok {contents : List UInt8}
    (h : (replace Disk.files process path contents : StateM Disk _).run d = (.ok (), d')) :
    d'.at? path = some (.file contents) ∧ d'.refusal = d.refusal := by
  obtain ⟨result, written, hwrite, h⟩ := exists_of_run_bind h
  cases result with
  | error e => cases h
  | ok done =>
    obtain ⟨result, renamed, hrename, h⟩ := exists_of_run_bind h
    cases result with
    | error e =>
      obtain ⟨_, _, _, h⟩ := exists_of_run_bind h
      cases h
    | ok done =>
      cases h
      have hwrite := Disk.change_ok hwrite
      have hrename := Disk.change_ok hrename
      exact ⟨Disk.at?_rename_write hwrite hrename,
        (Disk.rename_refusal hrename).trans (Disk.write_refusal hwrite)⟩

theorem isSuffix_lock : Path.IsSuffix ".lock" := ⟨by decide, by decide⟩

theorem at?_lock {contents : List UInt8} (h : d.create (lockPath path) contents = .ok d') :
    d'.at? path = d.at? path :=
  Disk.at?_create_sibling isSuffix_lock h

/-- A file that was put at the path stays there when the lock is given back. -/
theorem at?_unlock {contents : List UInt8} (h : d.remove (lockPath path) = .ok d' ∨ d' = d)
    (hfile : d.at? path = some (.file contents)) : d'.at? path = some (.file contents) := by
  rcases h with h | rfl
  · exact Disk.at?_remove_sibling isSuffix_lock h hfile
  · exact hfile

theorem refusal_unlock (h : d.remove (lockPath path) = .ok d' ∨ d' = d) :
    d'.refusal = d.refusal := by
  rcases h with h | rfl
  · exact Disk.remove_refusal h
  · rfl

theorem save_ok {s : Snapshot}
    (h : (save Disk.files process path s : StateM Disk _).run d = (.ok (), d')) :
    d'.at? path = some (.file s.bytes) ∧ d'.refusal = d.refusal := by
  obtain ⟨before, after, _, hcreate, hact, hunlock⟩ := locked_ok h
  obtain ⟨hfile, hrefusal⟩ := replace_ok hact
  refine ⟨at?_unlock hunlock hfile, ?_⟩
  rw [refusal_unlock hunlock, hrefusal, Disk.create_refusal hcreate]

/-! ## Stores in a file -/

/-- The stores that are loaded from a path. -/
def storesAt (d : Disk) (path : String) : Except Failure Stores :=
  ((loadOrEmpty Disk.files path : StateM Disk _).run d).1.map stores

theorem storesAt_eq (d : Disk) (path : String) :
    storesAt d path = (orEmpty path (d.permit (.read path)) (d.at? path)).map stores := by
  rw [storesAt, loadOrEmpty_run]

theorem storesAt_congr (hat : d'.at? path = d.at? path) (hrefusal : d'.refusal = d.refusal) :
    storesAt d' path = storesAt d path := by
  rw [storesAt_eq, storesAt_eq, hat, Disk.permit, Disk.permit, hrefusal]

theorem storesAt_file {s : Stores} (hat : d.at? path = some (.file (ofStores s).bytes))
    (hread : d.refusal (.read path) = none) (hs : s.Storable) : storesAt d path = .ok s := by
  rw [storesAt_eq, hat, Disk.permit, hread]
  show (ofBytes path (ofStores s).bytes).map stores = .ok s
  rw [ofBytes_ofStores path hs]
  exact congrArg Except.ok (stores_ofStores s)

/-- The outcome of a patch that does nothing else. -/
theorem update_ok {α : Type} {patch : Stores → α × Stores} {a : α}
    (h : (update Disk.files process path (fun s => pure (patch s)) : StateM Disk _).run d =
      (.ok a, d')) :
    ∃ s, storesAt d path = .ok s ∧ a = (patch s).1 ∧ d'.refusal = d.refusal ∧
      ((patch s).2.same s = true ∧ d'.at? path = d.at? path ∨
        (patch s).2.same s = false ∧ d'.at? path = some (.file (ofStores (patch s).2).bytes)) := by
  obtain ⟨before, after, _, hcreate, hact, hunlock⟩ := locked_ok h
  have hat := at?_lock hcreate
  have hrefusal := Disk.create_refusal hcreate
  have hstores := storesAt_congr hat hrefusal
  obtain ⟨result, loaded, hload, hact⟩ := exists_of_run_bind hact
  rw [storesAt, hload] at hstores
  rw [loadOrEmpty_run] at hload
  cases hload
  cases hopened : orEmpty path (before.permit (.read path)) (before.at? path) with
  | error failure => rw [hopened] at hact; cases hact
  | ok s =>
    rw [hopened] at hact hstores
    refine ⟨s.stores, hstores.symm, ?_⟩
    obtain ⟨pair, patched, hpatch, hact⟩ := exists_of_run_bind hact
    cases hpatch
    generalize patch s.stores = patched at hact ⊢
    obtain ⟨b, changed⟩ := patched
    dsimp only at hact ⊢
    by_cases hsame : changed.same s.stores = true
    · rw [if_pos hsame] at hact
      cases hact
      refine ⟨rfl, (refusal_unlock hunlock).trans hrefusal, .inl ⟨hsame, ?_⟩⟩
      rcases hunlock with hremove | rfl
      · rw [Disk.remove_create hcreate hremove]
      · exact hat
    · rw [if_neg hsame] at hact
      obtain ⟨result, replaced, hreplace, hact⟩ := exists_of_run_bind hact
      cases result with
      | error failure => cases hact
      | ok done =>
        cases hact
        obtain ⟨hfile, hrefused⟩ := replace_ok hreplace
        refine ⟨rfl, ?_, .inr ⟨Bool.eq_false_iff.mpr hsame, at?_unlock hunlock hfile⟩⟩
        rw [refusal_unlock hunlock, hrefused, hrefusal]

theorem locked_run {α : Type} {act : StateM Disk (Except Failure α)} {a : α} {before after : Disk}
    (hlock : (lock Disk.files process path : StateM Disk _).run d = (.ok (), before))
    (hact : act.run before = (.ok a, after)) (hremove : after.remove (lockPath path) = .ok d') :
    (locked Disk.files process path act).run d = (.ok a, d') := by
  have hchange : (Disk.files.remove (lockPath path) : StateM Disk _).run after = (.ok (), d') :=
    Disk.change_run hremove
  simp only [locked, StateT.run_bind, hlock]
  show ((act >>= _ : StateM Disk _).run before) = _
  simp only [StateT.run_bind, hact]
  show (_, ((Disk.files.remove (lockPath path) : StateM Disk _).run after).2) = _
  rw [hchange]

/-- A patch that changes the stores comes out well if the file can be loaded and replaced. -/
theorem update_run {α : Type} (patch : Stores → α × Stores) {s : Stores} {before after : Disk}
    (hlock : (lock Disk.files process path : StateM Disk _).run d = (.ok (), before))
    (hload : storesAt before path = .ok s) (hsame : (patch s).2.same s = false)
    (hreplace : (replace Disk.files process path (ofStores (patch s).2).bytes : StateM Disk _).run
      before = (.ok (), after)) (hremove : after.remove (lockPath path) = .ok d') :
    (update Disk.files process path (fun s => pure (patch s)) : StateM Disk _).run d =
      (.ok (patch s).1, d') := by
  refine locked_run hlock ?_ hremove
  rw [storesAt_eq] at hload
  obtain ⟨snapshot, hsnapshot, rfl⟩ := exists_of_map_ok hload
  simp only [StateT.run_bind, loadOrEmpty_run, hsnapshot]
  show StateT.run (if (patch snapshot.stores).2.same snapshot.stores then _ else _) before = _
  rw [hsame]
  show ((replace Disk.files process path _ >>= _ : StateM Disk _).run before) = _
  simp only [StateT.run_bind, hreplace]
  rfl

/-! ## Writers that write nothing -/

/-- Work under the lock that writes nothing leaves the file as it is. -/
theorem locked_idle {α : Type} {before : Disk} {contents : List UInt8}
    {act : StateM Disk (Except Failure α)} {result : Except Failure α}
    (hfile : d.at? path = some (.file contents))
    (hlock : (lock Disk.files process path : StateM Disk _).run d = (.ok (), before))
    (hact : act.run before = (result, before)) :
    ∃ d', (locked Disk.files process path act).run d = (result, d') ∧
      d'.at? path = some (.file contents) := by
  generalize hrun : (locked Disk.files process path act).run d = out
  obtain ⟨taken, next, hlock', hrun⟩ := exists_of_run_bind hrun
  cases hlock.symm.trans hlock'
  obtain ⟨result', after, hact', hrun⟩ := exists_of_run_bind hrun
  cases hact.symm.trans hact'
  obtain ⟨removed, last, hremove, hrun⟩ := exists_of_run_bind hrun
  cases hrun
  obtain ⟨_, hcreate⟩ := lock_ok hlock
  have hat := (at?_lock hcreate).trans hfile
  refine ⟨last, rfl, ?_⟩
  cases removed with
  | error e => exact at?_unlock (.inr (Disk.change_error hremove)) hat
  | ok done => exact at?_unlock (.inl (Disk.change_ok hremove)) hat

/-- A patch that leaves the stores of a file as they are leaves the file as it is. -/
theorem update_idle {α : Type} (patch : Stores → α × Stores) {before : Disk}
    {contents : List UInt8}
    (hfile : d.at? path = some (.file contents)) (hread : d.refusal (.read path) = none)
    (hlock : (lock Disk.files process path : StateM Disk _).run d = (.ok (), before))
    (hpatch : ∀ s, ofBytes path contents = .ok s → (patch s.stores).2.same s.stores = true) :
    ∃ d', (update Disk.files process path (fun s => pure (patch s)) : StateM Disk _).run d =
        ((ofBytes path contents).map fun s => (patch s.stores).1, d') ∧
      d'.at? path = some (.file contents) := by
  refine locked_idle hfile hlock ?_
  obtain ⟨_, hcreate⟩ := lock_ok hlock
  have hopened : orEmpty path (before.permit (.read path)) (before.at? path) =
      ofBytes path contents := by
    rw [at?_lock hcreate, hfile, Disk.permit, Disk.create_refusal hcreate, hread]
    rfl
  simp only [StateT.run_bind, loadOrEmpty_run, hopened]
  cases hloaded : ofBytes path contents with
  | error failure => rfl
  | ok s =>
    show StateT.run (if (patch s.stores).2.same s.stores then _ else _) before = _
    rw [if_pos (hpatch s hloaded)]
    rfl

end Snapshot
end Cache
end ResourceSearch
