import ResourceSearch.Proofs.File.Entries

/-!
What paths name on a disk, and what the requests that are granted make of it (`create_ok`,
`write_ok`, `rename_ok`, `remove_ok`).  A path and the one beside it name different things
(`at?_create_sibling`, `at?_remove_sibling`), and removing the file that was just created leaves the
disk as it was (`remove_create`).
-/

namespace ResourceSearch

/-- What reading finds where something stands. -/
def Node.contents : Node → Except FileError (List UInt8)
  | .file contents => .ok contents
  | .folder => .error .isFolder

namespace Disk

variable {d d' : Disk} {path : String} {place stop : Path.Location} {contents : List UInt8}

/-- What a path names.  A path that ends in a slash can name no file. -/
def at? (d : Disk) (path : String) : Option Node :=
  match d.reach path with
  | .error _ => none
  | .ok place =>
    match d.node? place with
    | some (.file contents) => if Path.endsInSlash path then none else some (.file contents)
    | other => other

theorem at?_eq_some {n : Node} (h : d.at? path = some n) :
    ∃ place, d.reach path = .ok place ∧ d.node? place = some n ∧
      (Path.endsInSlash path = true → n = .folder) := by
  unfold at? at h
  split at h
  · cases h
  · rename_i place hplace
    split at h
    · rename_i contents hnode
      split at h
      · cases h
      · rename_i hslash
        cases h
        exact ⟨place, hplace, hnode, fun h => absurd h hslash⟩
    · rename_i hfile
      refine ⟨place, hplace, h, fun _ => ?_⟩
      cases n with
      | file contents => exact absurd h (hfile contents)
      | folder => rfl

theorem at?_eq_file (h : d.at? path = some (.file contents)) :
    ∃ place, d.reach path = .ok place ∧ d.node? place = some (.file contents) ∧
      Path.endsInSlash path = false := by
  obtain ⟨place, hplace, hnode, hslash⟩ := at?_eq_some h
  refine ⟨place, hplace, hnode, Bool.eq_false_iff.mpr fun h => ?_⟩
  cases hslash h

theorem at?_of_file (hplace : d.reach path = .ok place)
    (hnode : d.node? place = some (.file contents)) (hslash : Path.endsInSlash path = false) :
    d.at? path = some (.file contents) := by
  simp [at?, hplace, hnode, hslash]

/-- Where a path that can name a file names nothing, nothing stands. -/
theorem node?_of_at?_none (hslash : Path.endsInSlash path = false) (h : d.at? path = none)
    (hplace : d.reach path = .ok place) : d.node? place = none := by
  simp only [at?, hplace, hslash] at h
  split at h
  · cases h
  · exact h

theorem isThere_eq (d : Disk) (path : String) : d.isThere path = (d.at? path).isSome := by
  cases hplace : d.reach path with
  | error e => simp only [isThere, at?, hplace, Option.isSome_none]
  | ok place =>
    simp only [isThere, at?, hplace]
    cases hnode : d.node? place with
    | none => rfl
    | some n =>
      cases n with
      | file contents => cases Path.endsInSlash path <;> rfl
      | folder => rfl

theorem read_eq {n : Node} (h : d.at? path = some n) :
    d.read path = d.permit (.read path) >>= fun _ => n.contents := by
  obtain ⟨place, hplace, hnode, hslash⟩ := at?_eq_some h
  show (d.reach path >>= fun place => _) = _
  rw [hplace]
  show (d.permit (.read path) >>= fun _ => _) = _
  congr 1
  funext _
  rw [hnode]
  cases n with
  | folder => rfl
  | file contents =>
    have hfile : Path.endsInSlash path = false := Bool.eq_false_iff.mpr fun h => by cases hslash h
    simp only [hfile]
    rfl

/-! ## Requests that are granted -/

theorem create_ok (h : d.create path contents = .ok d') :
    ∃ place, d.reach path = .ok place ∧ d.node? place = none ∧ d' = d.withFile place contents := by
  obtain ⟨place, hplace, h⟩ := exists_of_bind_ok h
  refine ⟨place, hplace, ?_⟩
  split at h
  · cases h
  · split at h
    · cases h
    · rename_i hnode
      obtain ⟨_, -, h⟩ := exists_of_bind_ok h
      exact ⟨hnode, (Except.ok.inj h).symm⟩

theorem write_ok (h : d.write path contents = .ok d') :
    ∃ place, d.reach path = .ok place ∧ d.node? place ≠ some .folder ∧
      d' = d.withFile place contents := by
  obtain ⟨place, hplace, h⟩ := exists_of_bind_ok h
  refine ⟨place, hplace, ?_⟩
  split at h
  · cases h
  · rename_i hnone
    obtain ⟨_, -, h⟩ := exists_of_bind_ok h
    exact ⟨(not_or.mp hnone).1, (Except.ok.inj h).symm⟩

theorem rename_ok {target : String} (h : d.rename path target = .ok d') :
    ∃ start stop contents, d.reach path = .ok start ∧ d.reach target = .ok stop ∧
      d.node? start = some (.file contents) ∧ d.node? stop ≠ some .folder ∧
      Path.endsInSlash target = false ∧ d' = (d.without start).withFile stop contents := by
  obtain ⟨start, hstart, h⟩ := exists_of_bind_ok h
  obtain ⟨stop, hstop, h⟩ := exists_of_bind_ok h
  refine ⟨start, stop, ?_⟩
  split at h
  · cases h
  · split at h
    · cases h
    · cases h
    · rename_i contents hnode
      split at h
      · cases h
      · rename_i hslash
        split at h
        · cases h
        · rename_i hfolder
          obtain ⟨_, -, h⟩ := exists_of_bind_ok h
          exact ⟨contents, hstart, hstop, hnode, hfolder, Bool.eq_false_iff.mpr hslash,
            (Except.ok.inj h).symm⟩

theorem remove_ok (h : d.remove path = .ok d') :
    ∃ place contents, d.reach path = .ok place ∧ d.node? place = some (.file contents) ∧
      d' = d.without place := by
  obtain ⟨place, hplace, h⟩ := exists_of_bind_ok h
  split at h
  · cases h
  · cases h
  · rename_i contents hnode
    obtain ⟨_, -, h⟩ := exists_of_bind_ok h
    exact ⟨place, contents, hplace, hnode, (Except.ok.inj h).symm⟩

theorem create_refusal (h : d.create path contents = .ok d') : d'.refusal = d.refusal := by
  obtain ⟨place, -, -, rfl⟩ := create_ok h
  exact refusal_withFile d place contents

theorem write_refusal (h : d.write path contents = .ok d') : d'.refusal = d.refusal := by
  obtain ⟨place, -, -, rfl⟩ := write_ok h
  exact refusal_withFile d place contents

theorem rename_refusal {target : String} (h : d.rename path target = .ok d') :
    d'.refusal = d.refusal := by
  obtain ⟨start, stop, moved, -, -, -, -, -, rfl⟩ := rename_ok h
  rw [refusal_withFile, refusal_without]

theorem remove_refusal (h : d.remove path = .ok d') : d'.refusal = d.refusal := by
  obtain ⟨place, removed, -, -, rfl⟩ := remove_ok h
  exact refusal_without d place

/-- Removing the file that was just created leaves the disk as it was. -/
theorem remove_create {d'' : Disk} (h : d.create path contents = .ok d')
    (h' : d'.remove path = .ok d'') : d'' = d := by
  obtain ⟨place, hplace, hnone, rfl⟩ := create_ok h
  obtain ⟨stop, old, hstop, -, rfl⟩ := remove_ok h'
  rw [reach_withFile contents (ne_folder_of_none hnone)] at hstop
  cases hplace.symm.trans hstop
  exact without_withFile hnone

/-! ## A path and the one beside it -/

section Sibling

variable {suffix : String} (hsuffix : Path.IsSuffix suffix)

include hsuffix

theorem at?_create_sibling (h : d.create (Path.sibling path suffix) contents = .ok d') :
    d'.at? path = d.at? path := by
  obtain ⟨stop, hstop, hnone, rfl⟩ := create_ok h
  have hfolder := ne_folder_of_none hnone
  cases hplace : d.reach path with
  | error e =>
    cases hplace' : (d.withFile stop contents).reach path with
    | error e' => simp only [at?, hplace, hplace']
    | ok place => cases hplace.symm.trans ((reach_withFile contents hfolder).mp hplace')
  | ok place =>
    have hplace' := (reach_withFile contents hfolder).mpr hplace
    by_cases hsame : stop = place
    · subst hsame
      have hslash : Path.endsInSlash path = true := by
        by_cases hslash : Path.endsInSlash path = true
        · exact hslash
        · exact absurd rfl (reach_sibling_ne hsuffix (Bool.eq_false_iff.mpr hslash) hplace hfolder
            hstop)
      simp [at?, hplace, hplace', node?_withFile hfolder, hnone, hslash]
    · simp only [at?, hplace, hplace', node?_withFile hfolder, if_neg (Ne.symm hsame)]

theorem at?_remove_sibling {old : List UInt8} (h : d.remove (Path.sibling path suffix) = .ok d')
    (hfile : d.at? path = some (.file old)) : d'.at? path = some (.file old) := by
  obtain ⟨place, hplace, hnode, hslash⟩ := at?_eq_file hfile
  obtain ⟨stop, removed, hstop, hremoved, rfl⟩ := remove_ok h
  have hkeeps := keepsFolders_without (ne_folder_of_file hremoved)
  have hne := reach_sibling_ne hsuffix hslash hplace (ne_folder_of_file hnode) hstop
  refine at?_of_file (reach_mono hkeeps hplace) ?_ hslash
  rw [node?_without_ne d (Ne.symm hne), hnode]

end Sibling

/-! ## Replacing a file -/

theorem at?_rename {source target : String} (h : d.rename source target = .ok d')
    (hplace : d.reach source = .ok place) (hnode : d.node? place = some (.file contents)) :
    d'.at? target = some (.file contents) := by
  obtain ⟨start, stop, moved, hstart, hstop, hmoved, hfolder, hslash, rfl⟩ := rename_ok h
  cases hplace.symm.trans hstart
  cases hnode.symm.trans hmoved
  have hfound : ∀ other, ((d.without place).withFile stop contents).node? other =
      if other = stop then some (.file contents) else (d.without place).node? other :=
    fun _ => node?_withFile_of_names (names_ne_nil hfolder)
  refine at?_of_file (reach_mono (fun other hother => ?_) hstop) ?_ hslash
  · have hstopped : other ≠ stop := by
      rintro rfl
      exact hfolder hother
    rw [hfound, if_neg hstopped]
    exact keepsFolders_without (ne_folder_of_file hnode) other hother
  · rw [hfound, if_pos rfl]

/-- A file that is written and renamed is found under its new path. -/
theorem at?_rename_write {target : String} {d'' : Disk} (hwrite : d.write path contents = .ok d')
    (hrename : d'.rename path target = .ok d'') : d''.at? target = some (.file contents) := by
  obtain ⟨place, hplace, hfolder, rfl⟩ := write_ok hwrite
  refine at?_rename hrename ((reach_withFile contents hfolder).mpr hplace) ?_
  rw [node?_withFile hfolder, if_pos rfl]

end Disk
end ResourceSearch
