import ResourceSearch.Proofs.Cache.Replacing
import ResourceSearch.Proofs.Json.Given

/-!
What a snapshot file gives.  Whatever the file holds, the resources that are loaded from it keep no
property under a name of their own and none that is nested too deep to be written and read again
(`Snapshot.fits_of_storesAt`).
-/

namespace ResourceSearch

open Json

theorem required_ok {β : Type} {name : String} {known : Option β} {b : β}
    (h : required name known = .ok b) : known = some b := by
  cases known with
  | none => cases h
  | some b => cases h; rfl

theorem name_mem_canonicalMembers {ms : List (String × Json)} {m : String × Json}
    (h : m ∈ canonicalMembers ms) : ∃ n ∈ ms, n.1 = m.1 := by
  induction ms with
  | nil => cases h
  | cons first ms ih =>
    obtain ⟨name, v⟩ := first
    rcases name_mem_addMember h with hname | h
    · exact ⟨(name, v), List.mem_cons_self, hname.symm⟩
    · obtain ⟨n, hn, hname⟩ := ih h
      exact ⟨n, List.mem_cons_of_mem _ hn, hname⟩

namespace Resource

/-- A resource whose further properties can be told from its own and are nested no deeper than some
levels. -/
structure Fits (levels : Nat) (r : Resource) : Prop where
  names : ∀ m ∈ r.extra.members, m.1 ∉ ownNames
  depth : ∀ m ∈ r.extra.members, m.2.depth ≤ levels

/-- Some field takes every member with a name of the resource's own. -/
theorem field?_isSome {name : String} (h : name ∈ ownNames) : (record.field? name).isSome := by
  simp only [ownNames, List.mem_cons, List.not_mem_nil, or_false] at h
  rcases h with rfl | rfl | rfl | rfl | rfl | rfl | rfl <;> rfl

theorem keepsTo (levels : Nat) : record.KeepsTo levels (fun _ => True) (Fits levels) where
  start := trivial
  fields f _ := Field.keeps_true f levels
  finish s others r _ hothers hfinish := by
    obtain ⟨name, -, hfinish⟩ := exists_of_bind_ok hfinish
    obtain ⟨kind, -, hfinish⟩ := exists_of_bind_ok hfinish
    cases hfinish
    constructor
    · intro m hm hown
      obtain ⟨n, hn, hname⟩ := name_mem_canonicalMembers hm
      have hfield := field?_isSome hown
      rw [← hname, (hothers n hn).1] at hfield
      cases hfield
    · have hall : depthMembers others ≤ levels :=
        depthMembers_le_iff.mpr fun m hm => (hothers m hm).2
      exact depthMembers_le_iff.mp (Nat.le_trans (depthMembers_canonical_le others) hall)

end Resource

namespace Cache

theorem RelatedItems.keepsTo (levels : Nat) :
    RelatedItems.record.KeepsTo (levels + 2)
      (fun s => ∀ xs, s.items = some xs → ∀ r ∈ xs, r.Fits levels)
      fun g => ∀ r ∈ g.items, r.Fits levels where
  start xs hxs := by cases hxs
  fields f hf := by
    simp only [RelatedItems.record, List.mem_cons, List.not_mem_nil, or_false] at hf
    rcases hf with rfl | rfl
    · exact Field.keeps_of (Decoder.gives_true _ _) fun s b hs _ => hs
    · exact Field.keeps_set (Decoder.gives_list (Resource.keepsTo levels).gives) fun _ _ => rfl
  finish s others g hs _ hfinish := by
    obtain ⟨kind, -, hfinish⟩ := exists_of_bind_ok hfinish
    obtain ⟨items, hitems, hfinish⟩ := exists_of_bind_ok hfinish
    cases hfinish
    exact hs items (required_ok hitems)

namespace Entry

/-- An answer whose resources are those of a file. -/
def Fits : Entry → Prop
  | .items xs => ∀ r ∈ xs, r.Fits 121
  | .relatedItems groups => ∀ g ∈ groups, ∀ r ∈ g.items, r.Fits 119
  | .relatedCount _ => True

theorem listRecord_keepsTo {α : Type} (variant name : String) {d : Decoder α}
    {make : List α → Entry} {levels : Nat} {p : α → Prop} (hd : d.Gives levels p)
    (hmake : ∀ xs, (∀ x ∈ xs, p x) → (make xs).Fits) :
    (listRecord variant name d make).KeepsTo (levels + 1)
      (fun s => ∀ xs, s = some xs → ∀ x ∈ xs, p x) Fits where
  start xs hxs := by cases hxs
  fields f hf := by
    cases List.mem_singleton.mp hf
    exact Field.keeps_set (Decoder.gives_list hd) fun _ _ => rfl
  finish s others e hs _ hfinish := by
    obtain ⟨xs, hxs, hfinish⟩ := exists_of_bind_ok hfinish
    cases hfinish
    exact hmake xs (hs xs (required_ok hxs))

theorem gives_fits : decoder.Gives 124 Fits := by
  refine Tagged.gives ?_
  intro name rest hmem j e hdepth hrest
  simp only [tagged, List.mem_cons, Prod.mk.injEq, List.not_mem_nil, or_false] at hmem
  rcases hmem with ⟨-, rfl⟩ | ⟨-, rfl⟩ | ⟨-, rfl⟩
  · have hkeeps := listRecord_keepsTo "Items" "items" (Resource.keepsTo 121).gives fun xs h =>
      show (Entry.items xs).Fits from h
    exact hkeeps.variant hdepth hrest
  · have hkeeps := listRecord_keepsTo "RelatedItems" "related"
      (RelatedItems.keepsTo 119).gives fun xs h => show (Entry.relatedItems xs).Fits from h
    exact hkeeps.variant hdepth hrest
  · have hkeeps := listRecord_keepsTo "RelatedCount" "related"
      (Decoder.gives_true RelatedCount.decoder 122) fun xs _ =>
        show (Entry.relatedCount xs).Fits from trivial
    exact hkeeps.variant hdepth hrest

end Entry

theorem Record.keepsTo :
    Record.record.KeepsTo 124 (fun s => ∀ e, s.entry = some e → e.Fits) fun r => r.entry.Fits where
  start e he := by cases he
  fields f hf := by
    simp only [Record.record, List.mem_cons, List.not_mem_nil, or_false] at hf
    rcases hf with rfl | rfl
    · exact Field.keeps_of (Decoder.gives_true _ _) fun s b hs _ => hs
    · exact Field.keeps_set Entry.gives_fits fun _ _ => rfl
  finish s others r hs _ hfinish := by
    obtain ⟨key, -, hfinish⟩ := exists_of_bind_ok hfinish
    obtain ⟨entry, hentry, hfinish⟩ := exists_of_bind_ok hfinish
    cases hfinish
    exact hs entry (required_ok hentry)

namespace Snapshot

structure Fits (s : Snapshot) : Prop where
  items : ∀ r ∈ s.items, r.entry.Fits
  related : ∀ r ∈ s.related, r.entry.Fits

theorem keepsTo :
    record.KeepsTo 126 (fun s => (∀ rs, s.items = some rs → ∀ r ∈ rs, r.entry.Fits) ∧
      ∀ rs, s.related = some rs → ∀ r ∈ rs, r.entry.Fits) Fits where
  start := ⟨fun rs h => (by cases h), fun rs h => (by cases h)⟩
  fields f hf := by
    simp only [record, List.mem_cons, List.not_mem_nil, or_false] at hf
    rcases hf with rfl | rfl | rfl
    · exact Field.keeps_of (Decoder.gives_true _ _) fun s b hs _ => hs
    · refine Field.keeps_of (Decoder.gives_list Record.keepsTo.gives) ?_
      intro s b hs hb
      refine ⟨?_, hs.2⟩
      intro rs hrs
      cases hrs
      exact hb
    · refine Field.keeps_of (Decoder.gives_list Record.keepsTo.gives) ?_
      intro s b hs hb
      refine ⟨hs.1, ?_⟩
      intro rs hrs
      cases hrs
      exact hb
  finish s others snapshot hs _ hfinish := by
    obtain ⟨version, -, hfinish⟩ := exists_of_bind_ok hfinish
    cases hfinish
    constructor
    · intro r hr
      cases hitems : s.items with
      | none => rw [hitems] at hr; cases hr
      | some rs => rw [hitems] at hr; exact hs.1 rs hitems r hr
    · intro r hr
      cases hrelated : s.related with
      | none => rw [hrelated] at hr; cases hr
      | some rs => rw [hrelated] at hr; exact hs.2 rs hrelated r hr

theorem fits_empty : empty.Fits := ⟨fun r hr => (by cases hr), fun r hr => (by cases hr)⟩

theorem fits_ofBytes {path : String} {contents : List UInt8} {s : Snapshot}
    (h : ofBytes path contents = .ok s) : s.Fits := by
  unfold ofBytes at h
  split at h
  · cases h
  · split at h
    · cases h
    · rename_i loaded hparse
      cases h
      unfold current
      split
      · exact Decoder.Gives.parse keepsTo.gives hparse
      · exact fits_empty

theorem fits_orEmpty {path : String} {permission : Except FileError Unit} {n : Option Node}
    {s : Snapshot} (h : orEmpty path permission n = .ok s) : s.Fits := by
  cases n with
  | none =>
    cases h
    exact fits_empty
  | some n =>
    simp only [orEmpty, ofNode] at h
    split at h
    · cases h
    · exact fits_ofBytes h

end Snapshot

/-- Stores whose resources are those of a file. -/
structure Stores.Fits (s : Stores) : Prop where
  items : ∀ r ∈ s.items.records, r.entry.Fits
  related : ∀ r ∈ s.related.records, r.entry.Fits

theorem Entry.Fits.storable {e : Entry} (h : e.Fits)
    (hnumbers : ∀ r ∈ e.resources, ∀ m ∈ r.extra.members, m.2.NumbersReadBack) : e.Storable := by
  cases e with
  | items xs =>
    intro r hr
    exact ⟨(h r hr).names, fun m hm => ⟨(h r hr).depth m hm, hnumbers r hr m hm⟩⟩
  | relatedItems groups =>
    intro g hg r hr
    have hmem : r ∈ (Entry.relatedItems groups).resources := List.mem_flatMap.mpr ⟨g, hg, hr⟩
    exact ⟨(h g hg r hr).names, fun m hm => ⟨(h g hg r hr).depth m hm, hnumbers r hmem m hm⟩⟩
  | relatedCount groups => trivial

theorem Stores.Fits.storable {s : Stores} (h : s.Fits)
    (hnumbers : ∀ r ∈ s.resources, ∀ m ∈ r.extra.members, m.2.NumbersReadBack) : s.Storable where
  items t ht := (h.items t ht).storable fun r hr =>
    hnumbers r (List.mem_flatMap.mpr ⟨t, List.mem_append_left _ ht, hr⟩)
  related t ht := (h.related t ht).storable fun r hr =>
    hnumbers r (List.mem_flatMap.mpr ⟨t, List.mem_append_right _ ht, hr⟩)

/-- Stores that were loaded fit into a file again. -/
theorem Snapshot.fits_of_storesAt {d : Disk} {path : String} {s : Stores}
    (h : storesAt d path = .ok s) : s.Fits := by
  rw [storesAt_eq] at h
  obtain ⟨snapshot, hsnapshot, rfl⟩ := exists_of_map_ok h
  have hfits := fits_orEmpty hsnapshot
  constructor
  · exact fun r hr => hfits.items r (Store.mem_of_mem_ofList hr)
  · exact fun r hr => hfits.related r (Store.mem_of_mem_ofList hr)

end Cache
end ResourceSearch
