import ResourceSearch.Proofs.File.Requests

/-!
Requests that take each other back.  Removing a file that was put where nothing stood gives back the
very disk that was there before (`remove_withFile`), also after another file was replaced in the
meantime (`remove_withFile_withFile`).  A file put where nothing stood and renamed leaves no trace
of its first path (`rename_withFile`).
-/

namespace ResourceSearch
namespace Disk

variable {d d' : Disk} {path : String} {place stop : Path.Location} {contents moved : List UInt8}

theorem remove_run (hplace : d.reach path = .ok place)
    (hnode : d.node? place = some (.file contents)) (hrefusal : d.refusal (.remove path) = none) :
    d.remove path = .ok (d.without place) := by
  have hpermit : d.permit (.remove path) = .ok () := by rw [permit, hrefusal]
  simp only [remove, hplace, bind, Except.bind, hnode, hpermit]
  rfl

section Put

variable (hplace : d.reach path = .ok place) (hnone : d.node? place = none)

include hplace hnone

theorem remove_withFile (hrefusal : d.refusal (.remove path) = none) :
    (d.withFile place contents).remove path = .ok d := by
  have hfolder := ne_folder_of_none hnone
  have hreach := (reach_withFile contents hfolder).mpr hplace
  have hnode : (d.withFile place contents).node? place = some (.file contents) := by
    rw [node?_withFile hfolder, if_pos rfl]
  rw [remove_run hreach hnode hrefusal, without_withFile hnone]

/-- Removing a file does not bring back another one that was replaced in the meantime. -/
theorem remove_withFile_withFile (hne : stop ≠ place) (hstop : d.node? stop ≠ some .folder)
    (hrefusal : d.refusal (.remove path) = none) :
    ((d.withFile place contents).withFile stop moved).remove path =
      .ok (d.withFile stop moved) := by
  have hfolder := ne_folder_of_none hnone
  have hkept : (d.withFile place contents).node? stop ≠ some .folder :=
    mt (node?_withFile_folder hfolder).mp hstop
  have hreach := (reach_withFile moved hkept).mpr ((reach_withFile contents hfolder).mpr hplace)
  have hnode : ((d.withFile place contents).withFile stop moved).node? place =
      some (.file contents) := by
    rw [node?_withFile hkept, if_neg (Ne.symm hne), node?_withFile hfolder, if_pos rfl]
  rw [remove_run hreach hnode hrefusal, without_withFile_withFile hne hnone]

theorem rename_withFile {target : String}
    (h : (d.withFile place contents).rename path target = .ok d') :
    ∃ stop, d.reach target = .ok stop ∧ d.node? stop ≠ some .folder ∧
      Path.endsInSlash target = false ∧ d' = d.withFile stop contents := by
  have hfolder := ne_folder_of_none hnone
  obtain ⟨start, stop, moved, hstart, hstop, hmoved, hkept, hslash, rfl⟩ := rename_ok h
  rw [reach_withFile contents hfolder] at hstart hstop
  cases hplace.symm.trans hstart
  rw [node?_withFile hfolder, if_pos rfl] at hmoved
  cases hmoved
  refine ⟨stop, hstop, mt (node?_withFile_folder hfolder).mpr hkept, hslash, ?_⟩
  rw [without_withFile hnone]

end Put

/-! ## One file replaced -/

/-- The disks differ in nothing but the file that a path names. -/
def Replaced (path : String) (d d' : Disk) : Prop :=
  ∃ place contents, d.reach path = .ok place ∧ d.node? place ≠ some .folder ∧
    Path.endsInSlash path = false ∧ d' = d.withFile place contents

/-- What stands beside a file stays when the file is replaced. -/
theorem Replaced.at?_sibling {suffix : String} (hsuffix : Path.IsSuffix suffix)
    (h : Replaced path d d') (hat : d.at? (Path.sibling path suffix) = none) :
    d'.at? (Path.sibling path suffix) = none := by
  obtain ⟨place, contents, hplace, hfolder, hslash, rfl⟩ := h
  have hbeside := Path.endsInSlash_sibling hsuffix path
  cases hstop : (d.withFile place contents).reach (Path.sibling path suffix) with
  | error e => simp only [at?, hstop]
  | ok stop =>
    have hreach := (reach_withFile contents hfolder).mp hstop
    have hne := reach_sibling_ne hsuffix hslash hplace hfolder hreach
    have hnode : (d.withFile place contents).node? stop = none := by
      rw [node?_withFile hfolder, if_neg hne, node?_of_at?_none hbeside hat hreach]
    simp only [at?, hstop, hnode]

end Disk
end ResourceSearch
