import ResourceSearch.File.Disk
import ResourceSearch.Proofs.File.Path
import ResourceSearch.Proofs.Outcomes

/-!
Where paths lead on a disk.  They go on leading there as long as no folder goes (`reach_mono`), and
the paths beside another lead elsewhere (`reach_sibling_ne`, `reach_siblings_ne`).
-/

namespace ResourceSearch
namespace Disk

variable {d d' : Disk} {path : String} {place stop : Path.Location}

/-! ## Where paths lead -/

theorem step_ok {name : String} (h : d.step place name = .ok stop) :
    d.node? place = some .folder ∧ place.enter name = stop := by
  unfold step at h
  split at h
  · cases h
  · cases h
  · rename_i hfolder
    split at h
    · cases h
    · exact ⟨hfolder, Except.ok.inj h⟩

/-- A disk with all the folders of another. -/
def KeepsFolders (d d' : Disk) : Prop :=
  ∀ place, d.node? place = some .folder → d'.node? place = some .folder

theorem step_mono {name : String} (h : KeepsFolders d d') (hstep : d.step place name = .ok stop) :
    d'.step place name = .ok stop := by
  have hfolder := (step_ok hstep).1
  simp only [step, hfolder, h place hfolder] at hstep ⊢
  exact hstep

theorem walk_mono {names : List String} (h : KeepsFolders d d')
    (hwalk : names.foldlM d.step place = .ok stop) : names.foldlM d'.step place = .ok stop := by
  induction names generalizing place with
  | nil => exact hwalk
  | cons name rest ih =>
    rw [List.foldlM_cons] at hwalk ⊢
    obtain ⟨next, hnext, hrest⟩ := exists_of_bind_ok hwalk
    rw [step_mono h hnext]
    exact ih hrest

theorem reach_walk (h : d.reach path = .ok place) :
    path ≠ "" ∧ (Path.names path).foldlM d.step (Path.start path) = .ok place := by
  unfold reach at h
  split at h
  · cases h
  · rename_i hne
    split at h
    · cases h
    · split at h
      · cases h
      · exact ⟨hne, h⟩

theorem reach_mono (h : KeepsFolders d d') (hreach : d.reach path = .ok place) :
    d'.reach path = .ok place := by
  have hwalk := walk_mono h (reach_walk hreach).2
  unfold reach at hreach ⊢
  rw [hwalk]
  split at hreach
  · cases hreach
  · rename_i hne
    split at hreach
    · cases hreach
    · rename_i hzero
      split at hreach
      · cases hreach
      · rename_i hsize
        rw [if_neg hne, if_neg hzero, if_neg hsize]

theorem reach_last {before : List String} {name : String}
    (hnames : Path.names path = before ++ [name]) (h : d.reach path = .ok place) :
    ∃ around, d.node? around = some .folder ∧ around.enter name = place := by
  have hwalk := (reach_walk h).2
  rw [hnames, List.foldlM_append] at hwalk
  obtain ⟨around, -, hlast⟩ := exists_of_bind_ok hwalk
  obtain ⟨next, hstep, hstop⟩ := exists_of_bind_ok hlast
  cases hstop
  exact ⟨around, step_ok hstep⟩

theorem start_append {suffix : String} (hne : path ≠ "") :
    Path.start (path ++ suffix) = Path.start path := by
  obtain ⟨c, cs, hpath⟩ := List.exists_cons_of_ne_nil (mt String.toList_eq_nil_iff.mp hne)
  have hhead : (path ++ suffix).toList.head? = path.toList.head? := by
    rw [String.toList_append, hpath, List.cons_append, List.head?_cons, List.head?_cons]
  rw [Path.start, Path.start, hhead]

/-- A path that goes on from another leads on from its place. -/
theorem reach_append {name : String} (hname : '/' ∉ name.toList) (hne : name ≠ "")
    (h : d.reach path = .ok place) (hstop : d.reach (path ++ "/" ++ name) = .ok stop) :
    place.enter name = stop := by
  have hwalk := (reach_walk hstop).2
  rw [Path.names_append, Path.names_of_not_mem hname hne, List.foldlM_append, String.append_assoc,
    start_append (reach_walk h).1] at hwalk
  obtain ⟨around, haround, hlast⟩ := exists_of_bind_ok hwalk
  obtain ⟨next, hstep, hnext⟩ := exists_of_bind_ok hlast
  cases hnext
  cases haround.symm.trans (reach_walk h).2
  exact (step_ok hstep).2

theorem enter_names {name : String} (hdot : name ≠ ".") (hdots : name ≠ "..") :
    (place.enter name).names = place.names ++ [name] := by
  rw [Path.Location.enter, if_neg hdot, if_neg hdots]

theorem reach_names {front name : List Char} (hpath : path.toList = front ++ name)
    (hfront : Path.IsFront front) (hname : '/' ∉ name) (hne : name ≠ []) (hdot : name ≠ ['.'])
    (hdots : name ≠ ['.', '.']) (h : d.reach path = .ok place) :
    place.names.getLast? = some (String.ofList name) := by
  obtain ⟨before, hnames⟩ := Path.names_last hpath hfront hname hne
  obtain ⟨around, -, hplace⟩ := reach_last hnames h
  have hone : String.ofList name ≠ "." :=
    fun heq => hdot (by simpa using congrArg String.toList heq)
  have htwo : String.ofList name ≠ ".." :=
    fun heq => hdots (by simpa using congrArg String.toList heq)
  rw [← hplace, enter_names hone htwo, List.getLast?_concat]

/-- A name of more than two characters is none of the special ones. -/
theorem reach_names_long {front name : List Char} (hpath : path.toList = front ++ name)
    (hfront : Path.IsFront front) (hname : '/' ∉ name) (hlong : 2 < name.length)
    (h : d.reach path = .ok place) : place.names.getLast? = some (String.ofList name) := by
  have hlength : ∀ cs : List Char, cs.length ≤ 2 → name ≠ cs := by
    rintro cs hcs rfl
    omega
  exact reach_names hpath hfront hname (hlength [] (by decide)) (hlength _ (by decide))
    (hlength _ (by decide)) h

/-- The path beside a path leads elsewhere, unless the path leads to a folder. -/
theorem reach_sibling_ne {suffix : String} (hsuffix : Path.IsSuffix suffix)
    (hslash : Path.endsInSlash path = false) (h : d.reach path = .ok place)
    (hnode : d.node? place ≠ some .folder) (hstop : d.reach (Path.sibling path suffix) = .ok stop) :
    stop ≠ place := by
  obtain ⟨hsuffix, hlong⟩ := hsuffix
  obtain ⟨front, name, hfront, hname, hpath⟩ := Path.exists_last path.toList
  have hne : name ≠ [] := by
    rintro rfl
    rw [List.append_nil] at hpath
    rcases hfront with rfl | ⟨before, rfl⟩
    · exact (reach_walk h).1 (String.toList_eq_nil_iff.mp hpath)
    · simp [Path.endsInSlash, hpath] at hslash
  by_cases hdot : name = ['.']
  · subst hdot
    obtain ⟨before, hnames⟩ := Path.names_last hpath hfront hname hne
    obtain ⟨around, hfolder, hplace⟩ := reach_last hnames h
    exact absurd (hplace ▸ hfolder) hnode
  by_cases hdots : name = ['.', '.']
  · subst hdots
    have hlength : ∀ other : String, other.toList.length ≤ 2 → suffix ≠ other := by
      rintro other hother rfl
      omega
    rw [Path.sibling_of_dots hpath hfront] at hstop
    rw [← reach_append hsuffix (hlength "" (by decide)) h hstop]
    intro heq
    have hnames := congrArg (·.names.length) heq
    simp [enter_names (hlength "." (by decide)) (hlength ".." (by decide))] at hnames
  · obtain ⟨first, hfirst, hsibling⟩ :=
      Path.sibling_of_name suffix hpath hfront hname hne hdot hdots
    have hmem : '/' ∉ name ++ suffix.toList := by
      rw [List.mem_append, not_or]
      exact ⟨hname, hsuffix⟩
    have hlonger : 2 < (name ++ suffix.toList).length := by
      rw [List.length_append]
      omega
    have hlast := reach_names_long hsibling hfirst hmem hlonger hstop
    rintro rfl
    rw [reach_names hpath hfront hname hne hdot hdots h] at hlast
    have hsame : name = name ++ suffix.toList := by
      simpa using congrArg (·.map String.toList) hlast
    have hlen := congrArg List.length hsame
    rw [List.length_append] at hlen
    omega

/-- Two paths beside a path lead to two places. -/
theorem reach_siblings_ne {suffix other : String} (hsuffix : Path.IsSuffix suffix)
    (hother : Path.IsSuffix other) (hne : suffix ≠ other)
    (h : d.reach (Path.sibling path suffix) = .ok place)
    (hstop : d.reach (Path.sibling path other) = .ok stop) : place ≠ stop := by
  obtain ⟨front, base, hfront, hbase, hsibling⟩ := Path.sibling_toList path
  have hlast : ∀ {s : String} {p : Path.Location}, Path.IsSuffix s →
      d.reach (Path.sibling path s) = .ok p →
      p.names.getLast? = some (String.ofList (base ++ s.toList)) := by
    intro s p hs hp
    have hmem : '/' ∉ base ++ s.toList := by
      rw [List.mem_append, not_or]
      exact ⟨hbase, hs.slash⟩
    have hlong : 2 < (base ++ s.toList).length := by
      have hlong := hs.long
      rw [List.length_append]
      omega
    exact reach_names_long (hsibling s) hfront hmem hlong hp
  rintro rfl
  have hsame := Option.some.inj ((hlast hsuffix h).symm.trans (hlast hother hstop))
  rw [String.ofList_inj, List.append_cancel_left_eq, String.toList_inj] at hsame
  exact hne hsame

end Disk
end ResourceSearch
