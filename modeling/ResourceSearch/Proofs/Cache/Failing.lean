import ResourceSearch.Proofs.Cache.Replacing
import ResourceSearch.Proofs.File.Undoing

/-!
Writers that fail.  Where neither the lock nor the temporary file is there before, and a writer may
remove them, patching a snapshot file either fails and leaves the very disk that was there, or comes
out well and replaces at most the snapshot file (`update_clean`).
-/

namespace ResourceSearch
namespace Cache
namespace Snapshot

variable {d : Disk} {process : Nat} {path : String}

/-- Nothing stands where a writer puts its lock and its temporary file, and the writer may remove
both. -/
structure Free (d : Disk) (process : Nat) (path : String) : Prop where
  lock : d.at? (lockPath path) = none
  temporary : d.at? (temporaryPath process path) = none
  removesLock : d.refusal (.remove (lockPath path)) = none
  removesTemporary : d.refusal (.remove (temporaryPath process path)) = none

/-- A failure leaves the disk as it was.  A success replaces at most the file of a path. -/
def Clean {α : Type} (path : String) (d : Disk) : Except Failure α × Disk → Prop
  | (.error _, d') => d' = d
  | (.ok _, d') => d' = d ∨ Disk.Replaced path d d'

/-- What only passes on how a writer came out is as clean as the writer. -/
theorem Clean.bind {α β : Type} {x : StateM Disk (Except Failure α)}
    {f : Except Failure α → StateM Disk (Except Failure β)} (h : Clean path d (x.run d))
    (herror : ∀ failure s, (f (.error failure)).run s = (.error failure, s))
    (hok : ∀ a s, ∃ b, (f (.ok a)).run s = (.ok b, s)) : Clean path d ((x >>= f).run d) := by
  generalize hrun : (x >>= f).run d = out
  obtain ⟨result, after, hx, hf⟩ := exists_of_run_bind hrun
  rw [hx] at h
  cases result with
  | error failure =>
    rw [← hf, herror]
    exact h
  | ok a =>
    obtain ⟨b, hb⟩ := hok a after
    rw [← hf, hb]
    exact h

/-! ## The lock and the temporary file -/

theorem isSuffix_temporary (process : Nat) : Path.IsSuffix (".tmp." ++ toString process) where
  slash := by
    rw [String.toList_append, List.mem_append, not_or]
    refine ⟨by decide, fun h => ?_⟩
    have hdigit : '/' ∈ Nat.toDigits 10 process := by
      rwa [show toString process = String.ofList (Nat.toDigits 10 process) from rfl,
        String.toList_ofList] at h
    exact absurd (Nat.isDigit_of_mem_toDigits (by decide) (by decide) hdigit) (by decide)
  long := by
    have hlength : ".tmp.".toList.length = 5 := by decide
    rw [String.toList_append, List.length_append]
    omega

theorem lock_ne_temporary (process : Nat) : ".lock" ≠ ".tmp." ++ toString process := by
  intro h
  have htail := congrArg (fun s : String => s.toList[1]?) h
  rw [String.toList_append] at htail
  cases htail

theorem Free.node?_lock {place : Path.Location} (h : Free d process path)
    (hplace : d.reach (lockPath path) = .ok place) : d.node? place = none :=
  Disk.node?_of_at?_none (Path.endsInSlash_sibling isSuffix_lock path) h.lock hplace

theorem Free.node?_temporary {place : Path.Location} (h : Free d process path)
    (hplace : d.reach (temporaryPath process path) = .ok place) : d.node? place = none :=
  Disk.node?_of_at?_none (Path.endsInSlash_sibling (isSuffix_temporary process) path) h.temporary
    hplace

/-- The lock does not stand where the temporary file will. -/
theorem Free.node?_temporary_locked {lock place : Path.Location} {contents : List UInt8}
    (h : Free d process path) (hlock : d.reach (lockPath path) = .ok lock)
    (hplace : (d.withFile lock contents).reach (temporaryPath process path) = .ok place) :
    (d.withFile lock contents).node? place = none := by
  have hfolder := Disk.ne_folder_of_none (h.node?_lock hlock)
  have hreach := (Disk.reach_withFile contents hfolder).mp hplace
  have hne : lock ≠ place := Disk.reach_siblings_ne isSuffix_lock (isSuffix_temporary process)
    (lock_ne_temporary process) hlock hreach
  rw [Disk.node?_withFile hfolder, if_neg (Ne.symm hne), h.node?_temporary hreach]

/-! ## Replacing the file -/

/-- A file is replaced as a whole or not at all, and the temporary file is gone. -/
theorem replace_clean (contents : List UInt8)
    (htemporary : ∀ place, d.reach (temporaryPath process path) = .ok place →
      d.node? place = none)
    (hremoves : d.refusal (.remove (temporaryPath process path)) = none) :
    Clean path d ((replace Disk.files process path contents : StateM Disk _).run d) := by
  generalize hrun : (replace Disk.files process path contents : StateM Disk _).run d = out
  obtain ⟨written, next, hwrite, hrun⟩ := exists_of_run_bind hrun
  cases written with
  | error e =>
    cases hrun
    exact Disk.change_error hwrite
  | ok done =>
    obtain ⟨place, hplace, -, rfl⟩ := Disk.write_ok (Disk.change_ok hwrite)
    have hnone := htemporary place hplace
    obtain ⟨renamed, last, hrename, hrun⟩ := exists_of_run_bind hrun
    cases renamed with
    | error e =>
      rw [Disk.change_error hrename] at hrun
      obtain ⟨removed, rest, hremove, hrun⟩ := exists_of_run_bind hrun
      cases hrun
      have hundone : (d.withFile place contents).remove (temporaryPath process path) = .ok d :=
        Disk.remove_withFile hplace hnone hremoves
      cases hremove.symm.trans (Disk.change_run hundone)
      rfl
    | ok done =>
      cases hrun
      obtain ⟨stop, hstop, hkept, hslash, heq⟩ :=
        Disk.rename_withFile hplace hnone (Disk.change_ok hrename)
      exact .inr ⟨stop, contents, hstop, hkept, hslash, heq⟩

/-! ## Under the lock -/

theorem lock_error {d' : Disk} {failure : Failure}
    (h : (lock Disk.files process path : StateM Disk _).run d = (.error failure, d')) :
    d' = d := by
  obtain ⟨result, next, hcreate, h⟩ := exists_of_run_bind h
  cases result with
  | ok done => cases h
  | error e =>
    have hnext := Disk.change_error hcreate
    cases e <;> cases h <;> exact hnext

/-- Giving the lock back keeps a file that was replaced under the lock. -/
theorem Free.unlock_replaced {place : Path.Location} {contents : List UInt8} {after : Disk}
    (h : Free d process path) (hplace : d.reach (lockPath path) = .ok place)
    (hreplaced : Disk.Replaced path (d.withFile place contents) after) :
    ∃ d', after.remove (lockPath path) = .ok d' ∧ Disk.Replaced path d d' := by
  obtain ⟨stop, moved, hstop, hkept, hslash, rfl⟩ := hreplaced
  have hnone := h.node?_lock hplace
  have hfolder := Disk.ne_folder_of_none hnone
  have hlock := (Disk.reach_withFile contents hfolder).mpr hplace
  have hne := Disk.reach_sibling_ne isSuffix_lock hslash hstop hkept hlock
  have hstop := (Disk.reach_withFile contents hfolder).mp hstop
  have hkept := mt (Disk.node?_withFile_folder hfolder).mpr hkept
  exact ⟨d.withFile stop moved,
    Disk.remove_withFile_withFile hplace hnone (Ne.symm hne) hkept h.removesLock,
    stop, moved, hstop, hkept, hslash, rfl⟩

/-- Work that fails or comes out well under the lock does so with the lock given back. -/
theorem locked_clean {α : Type} {act : StateM Disk (Except Failure α)} (h : Free d process path)
    (hact : ∀ place contents, d.reach (lockPath path) = .ok place →
      Clean path (d.withFile place contents) (act.run (d.withFile place contents))) :
    Clean path d ((locked Disk.files process path act).run d) := by
  generalize hrun : (locked Disk.files process path act).run d = out
  obtain ⟨taken, before, hlock, hrun⟩ := exists_of_run_bind hrun
  cases taken with
  | error failure =>
    cases hrun
    exact lock_error hlock
  | ok done =>
    obtain ⟨contents, hcreate⟩ := lock_ok hlock
    obtain ⟨place, hplace, hnone, rfl⟩ := Disk.create_ok hcreate
    have hclean := hact place contents hplace
    obtain ⟨result, after, hrunAct, hrun⟩ := exists_of_run_bind hrun
    have hafter : act.run (d.withFile place contents) = (result, after) := hrunAct
    rw [hafter] at hclean
    obtain ⟨removed, last, hremove, hrun⟩ := exists_of_run_bind hrun
    cases hrun
    have hback : (d.withFile place contents).remove (lockPath path) = .ok d :=
      Disk.remove_withFile hplace hnone h.removesLock
    cases result with
    | error failure =>
      cases hclean
      cases hremove.symm.trans (Disk.change_run hback)
      rfl
    | ok a =>
      rcases hclean with rfl | hreplaced
      · cases hremove.symm.trans (Disk.change_run hback)
        exact .inl rfl
      · obtain ⟨d', hremoved, hreplaced⟩ := h.unlock_replaced hplace hreplaced
        cases hremove.symm.trans (Disk.change_run hremoved)
        exact .inr hreplaced

/-- Patching a snapshot file replaces it as a whole or leaves the disk as it was, and leaves it so
whenever it fails. -/
theorem update_clean {α : Type} (patch : Stores → α × Stores) (h : Free d process path) :
    Clean path d
      ((update Disk.files process path (fun s => pure (patch s)) : StateM Disk _).run d) := by
  refine locked_clean h fun place contents hplace => ?_
  have hreplace : ∀ written, Clean path (d.withFile place contents)
      ((replace Disk.files process path written : StateM Disk _).run
        (d.withFile place contents)) :=
    fun written => replace_clean written (fun _ => h.node?_temporary_locked hplace)
      h.removesTemporary
  generalize d.withFile place contents = before at hreplace ⊢
  generalize hrun : StateT.run _ before = out
  obtain ⟨result, loaded, hload, hrun⟩ := exists_of_run_bind hrun
  rw [loadOrEmpty_run] at hload
  cases hload
  cases hopened : orEmpty path (before.permit (.read path)) (before.at? path) with
  | error failure =>
    rw [hopened] at hrun
    cases hrun
    rfl
  | ok s =>
    rw [hopened] at hrun
    obtain ⟨pair, patched, hpatch, hrun⟩ := exists_of_run_bind hrun
    cases hpatch
    generalize patch s.stores = outcome at hrun
    obtain ⟨a, changed⟩ := outcome
    dsimp only at hrun
    by_cases hsame : changed.same s.stores = true
    · rw [if_pos hsame] at hrun
      cases hrun
      exact .inl rfl
    · rw [if_neg hsame] at hrun
      rw [← hrun]
      exact (hreplace _).bind (fun _ _ => rfl) fun _ _ => ⟨a, rfl⟩

end Snapshot
end Cache
end ResourceSearch
