import ResourceSearch.Proofs.File.Places

/-!
Files that are put at a place and taken out again.  A file that was put where nothing stood is taken
out without a trace (`without_withFile`), also after another file was put somewhere else
(`without_withFile_withFile`).  No path leads elsewhere because of a file (`reach_withFile`).
-/

namespace ResourceSearch
namespace Disk

variable {d : Disk} {path : String} {place stop : Path.Location} {contents moved : List UInt8}

/-- A disk with a file at a place, over what stood there. -/
def withFile (d : Disk) (place : Path.Location) (contents : List UInt8) : Disk :=
  { d with entries := put place (.file contents) d.entries }

/-- A disk without what stood at a place. -/
def without (d : Disk) (place : Path.Location) : Disk :=
  { d with entries := d.entries.eraseP fun e => e.1 = place }

theorem refusal_withFile (d : Disk) (place : Path.Location) (contents : List UInt8) :
    (d.withFile place contents).refusal = d.refusal := rfl

theorem refusal_without (d : Disk) (place : Path.Location) :
    (d.without place).refusal = d.refusal := rfl

/-! ## Lists of entries -/

section Entries

variable {n m : Node} {entries : List (Path.Location × Node)}

theorem lookup_cons (other : Path.Location) (n : Node) (rest : List (Path.Location × Node)) :
    ((other, n) :: rest).lookup place = if place = other then some n else rest.lookup place := by
  by_cases h : place = other
  · rw [if_pos h, List.lookup_cons, beq_iff_eq.mpr h]
  · rw [if_neg h, List.lookup_cons, beq_false_of_ne h]

theorem lookup_put (n : Node) (entries : List (Path.Location × Node)) :
    (put place n entries).lookup stop = if stop = place then some n else entries.lookup stop := by
  induction entries with
  | nil => exact lookup_cons place n []
  | cons e rest ih =>
    obtain ⟨other, old⟩ := e
    by_cases hother : other = place
    · subst hother
      rw [put, if_pos rfl, lookup_cons, lookup_cons]
      split <;> rfl
    · rw [put, if_neg hother, lookup_cons, lookup_cons, ih]
      by_cases hstop : stop = other
      · subst hstop
        rw [if_pos rfl, if_pos rfl, if_neg hother]
      · rw [if_neg hstop, if_neg hstop]

theorem lookup_eraseP_ne (hne : stop ≠ place) (entries : List (Path.Location × Node)) :
    (entries.eraseP fun e => e.1 = place).lookup stop = entries.lookup stop := by
  induction entries with
  | nil => rfl
  | cons e rest ih =>
    obtain ⟨other, old⟩ := e
    by_cases hother : other = place
    · subst hother
      rw [List.eraseP_cons_of_pos (by simp), lookup_cons, if_neg hne]
    · rw [List.eraseP_cons_of_neg (by simpa using hother), lookup_cons, lookup_cons, ih]

theorem eraseP_put (h : entries.lookup place = none) :
    ((put place n entries).eraseP fun e => e.1 = place) = entries := by
  induction entries with
  | nil => exact List.eraseP_cons_of_pos (by simp)
  | cons e rest ih =>
    obtain ⟨other, old⟩ := e
    rw [lookup_cons] at h
    split at h
    · cases h
    · rename_i hne
      rw [put, if_neg (Ne.symm hne), List.eraseP_cons_of_neg (by simpa using Ne.symm hne), ih h]

theorem eraseP_put_put (hne : stop ≠ place) (h : entries.lookup place = none) :
    ((put stop n (put place m entries)).eraseP fun e => e.1 = place) = put stop n entries := by
  induction entries with
  | nil =>
    simp only [put, if_neg (Ne.symm hne)]
    exact List.eraseP_cons_of_pos (by simp)
  | cons e rest ih =>
    obtain ⟨other, old⟩ := e
    rw [lookup_cons] at h
    split at h
    · cases h
    · rename_i hother
      by_cases hstop : other = stop
      · subst hstop
        rw [put, if_neg (Ne.symm hother), put, if_pos rfl,
          List.eraseP_cons_of_neg (by simpa using hne), eraseP_put h, put, if_pos rfl]
      · rw [put, if_neg (Ne.symm hother), put, if_neg hstop,
          List.eraseP_cons_of_neg (by simpa using Ne.symm hother), ih h, put, if_neg hstop]

end Entries

theorem lookup_of_node?_none (h : d.node? place = none) : d.entries.lookup place = none := by
  unfold node? at h
  split at h
  · cases h
  · exact h

theorem without_withFile (h : d.node? place = none) :
    (d.withFile place contents).without place = d := by
  show { d with
    entries := (put place (.file contents) d.entries).eraseP fun e => e.1 = place } = d
  rw [eraseP_put (lookup_of_node?_none h)]

theorem without_withFile_withFile (hne : stop ≠ place) (h : d.node? place = none) :
    ((d.withFile place contents).withFile stop moved).without place = d.withFile stop moved := by
  show { d with
    entries := (put stop (.file moved) (put place (.file contents) d.entries)).eraseP
      fun e => e.1 = place } = _
  rw [eraseP_put_put hne (lookup_of_node?_none h)]
  rfl

/-! ## What stands where -/

theorem ne_folder_of_none (h : d.node? place = none) : d.node? place ≠ some .folder := by
  rw [h]
  rintro ⟨⟩

theorem ne_folder_of_file (h : d.node? place = some (.file contents)) :
    d.node? place ≠ some .folder := by
  rw [h]
  rintro ⟨⟩

/-- Where a file can be put there is no folder, so it is a place with a name. -/
theorem names_ne_nil (h : d.node? place ≠ some .folder) : place.names ≠ [] :=
  fun hnames => h (if_pos hnames)

theorem node?_withFile_of_names (h : place.names ≠ []) :
    (d.withFile place contents).node? stop =
      if stop = place then some (.file contents) else d.node? stop := by
  by_cases hnames : stop.names = []
  · have hne : stop ≠ place := by
      rintro rfl
      exact h hnames
    rw [if_neg hne, node?, node?, if_pos hnames, if_pos hnames]
  · rw [node?, node?, if_neg hnames, if_neg hnames, withFile, lookup_put]

theorem node?_withFile (h : d.node? place ≠ some .folder) :
    (d.withFile place contents).node? stop =
      if stop = place then some (.file contents) else d.node? stop :=
  node?_withFile_of_names (names_ne_nil h)

theorem node?_without_ne (d : Disk) (hne : stop ≠ place) :
    (d.without place).node? stop = d.node? stop := by
  rw [node?, node?, without, lookup_eraseP_ne hne]

theorem node?_withFile_folder (h : d.node? place ≠ some .folder) :
    (d.withFile place contents).node? stop = some .folder ↔ d.node? stop = some .folder := by
  rw [node?_withFile h]
  by_cases hstop : stop = place
  · subst hstop
    rw [if_pos rfl]
    constructor
    · rintro ⟨⟩
    · exact fun hfolder => absurd hfolder h
  · rw [if_neg hstop]

theorem reach_withFile (contents : List UInt8) (h : d.node? place ≠ some .folder) :
    (d.withFile place contents).reach path = .ok stop ↔ d.reach path = .ok stop := by
  constructor
  · exact reach_mono fun _ => (node?_withFile_folder h).mp
  · exact reach_mono fun _ => (node?_withFile_folder h).mpr

theorem keepsFolders_without (h : d.node? place ≠ some .folder) :
    KeepsFolders d (d.without place) := by
  intro other hother
  have hne : other ≠ place := by
    rintro rfl
    exact h hother
  rw [node?_without_ne d hne, hother]

end Disk
end ResourceSearch
