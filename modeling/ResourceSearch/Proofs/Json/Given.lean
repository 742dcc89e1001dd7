import ResourceSearch.Proofs.Json.Depth

/-!
What decoders give.  `d.Gives levels p` says that all that `d` makes of a text at so many levels, or
of a value nested no deeper, has the property `p`.  A record gives what its fields keep to
(`Record.KeepsTo.gives`) and a tagged union what its variants give (`Tagged.gives`).
-/

namespace ResourceSearch
namespace Json

/-! ## Decoders -/

/-- All that a decoder makes of a text at some levels, or of a value nested no deeper, has a
property. -/
structure Decoder.Gives {α : Type} (d : Decoder α) (levels : Nat) (p : α → Prop) : Prop where
  read : ∀ cs a rest, d.read levels cs = .ok (a, rest) → p a
  decode : ∀ origin j a, j.depth ≤ levels → d.decode origin j = .ok a → p a

/-- What a field adds to what is known of a record keeps an invariant. -/
structure Field.Keeps {σ : Type} (f : Field σ) (levels : Nat) (I : σ → Prop) : Prop where
  read : ∀ cs s t rest, I s → f.read levels s cs = .ok (t, rest) → I t
  decode : ∀ origin j s t, I s → j.depth ≤ levels → f.decode origin s j = .ok t → I t

namespace Decoder

variable {α : Type} {levels : Nat}

theorem gives_true (d : Decoder α) (levels : Nat) : d.Gives levels fun _ => True where
  read _ _ _ _ := trivial
  decode _ _ _ _ _ := trivial

theorem gives_list {d : Decoder α} {p : α → Prop} (h : d.Gives levels p) :
    (list d).Gives (levels + 1) fun xs => ∀ a ∈ xs, p a where
  read cs xs rest hread := by
    simp only [list] at hread
    obtain ⟨_, _, -, -, hread⟩ := exists_of_readFrom_ok hread
    obtain ⟨_, hread, -⟩ := closeArray_eq_ok_iff.mp hread
    exact readElements_forall h.read (by simp) hread
  decode origin j xs hdepth hdecode := by
    cases j with
    | array ys =>
      intro a ha
      obtain ⟨y, hy, hya⟩ := exists_of_mem_mapM_ok hdecode ha
      have hy := depthElements_le_iff.mp (Nat.le_of_succ_le_succ hdepth) y hy
      exact h.decode origin y a hy hya
    | _ => cases hdecode

theorem Gives.parse {d : Decoder α} {p : α → Prop} {text : String} {a : α}
    (h : d.Gives maxLevels p) (hparse : d.parse text = .ok a) : p a := by
  obtain ⟨rest, hread, -⟩ := exists_of_readAll_ok hparse
  exact h.read _ _ rest hread

end Decoder

theorem Field.keeps_true {σ : Type} (f : Field σ) (levels : Nat) :
    f.Keeps levels fun _ => True where
  read _ _ _ _ _ _ := trivial
  decode _ _ _ _ _ _ _ := trivial

theorem Field.keeps_of {σ β : Type} {levels : Nat} {name : String} {get : σ → Option β}
    {set : σ → β → σ} {d : Decoder β} {mayLack : Bool} {aliases : List String} {I : σ → Prop}
    {p : β → Prop} (h : d.Gives levels p) (hset : ∀ s b, I s → p b → I (set s b)) :
    (Field.of name get set d mayLack aliases).Keeps levels I where
  read cs s t rest hs hread := by
    obtain ⟨⟨b, _⟩, hb, heq⟩ := exists_of_map_ok hread
    cases heq
    exact hset s b hs (h.read cs b rest hb)
  decode origin j s t hs hdepth hdecode := by
    obtain ⟨b, hb, heq⟩ := exists_of_map_ok hdecode
    cases heq
    exact hset s b hs (h.decode origin j b hdepth hb)

/-- What is known of a field that is set is what its decoder gives. -/
theorem Field.keeps_set {σ β : Type} {levels : Nat} {name : String} {get : σ → Option β}
    {set : σ → β → σ} {d : Decoder β} {mayLack : Bool} {aliases : List String} {p : β → Prop}
    (h : d.Gives levels p) (hset : ∀ s b, get (set s b) = some b) :
    (Field.of name get set d mayLack aliases).Keeps levels
      fun s => ∀ b, get s = some b → p b := by
  refine Field.keeps_of h ?_
  intro s b _ hb c hc
  rw [hset] at hc
  cases hc
  exact hb

/-! ## Records -/

namespace Record

variable {σ α : Type} {levels : Nat} {r : Record σ α} {I : σ → Prop} {p : α → Prop}

/-- Members that no field takes, nested no deeper than some levels. -/
def LeftOver (r : Record σ α) (levels : Nat) (others : List (String × Json)) : Prop :=
  ∀ m ∈ others, r.field? m.1 = none ∧ m.2.depth ≤ levels

/-- An invariant of what is known of a record, and a property that it gives the whole record. -/
structure KeepsTo (r : Record σ α) (levels : Nat) (I : σ → Prop) (p : α → Prop) : Prop where
  start : I r.start
  fields : ∀ f ∈ r.fields, f.Keeps levels I
  finish : ∀ s others a, I s → r.LeftOver levels others → r.finish s others = .ok a → p a

theorem leftOver_nil (r : Record σ α) (levels : Nat) : r.LeftOver levels [] := by
  intro m hm
  cases hm

theorem leftOver_cons {name : String} {v : Json} {others : List (String × Json)}
    (hfield : r.field? name = none) (hv : v.depth ≤ levels) (h : r.LeftOver levels others) :
    r.LeftOver levels ((name, v) :: others) := by
  intro m hm
  rcases List.mem_cons.mp hm with rfl | hm
  · exact ⟨hfield, hv⟩
  · exact h m hm

theorem leftOver_reverse {others : List (String × Json)} (h : r.LeftOver levels others) :
    r.LeftOver levels others.reverse := fun m hm => h m (List.mem_reverse.mp hm)

namespace KeepsTo

variable (h : r.KeepsTo levels I p)

include h

theorem readMember {name : String} {cs rest : List Char} {known next : σ × List (String × Json)}
    (hknown : I known.1 ∧ r.LeftOver levels known.2)
    (hread : r.readMember levels name known cs = .ok (next, rest)) :
    I next.1 ∧ r.LeftOver levels next.2 := by
  unfold Record.readMember at hread
  split at hread
  · rename_i f hf
    split at hread
    · cases hread
    · obtain ⟨⟨s, _⟩, hs, heq⟩ := exists_of_map_ok hread
      cases heq
      obtain ⟨_, -, hs⟩ := exists_of_afterColon_ok hs
      exact ⟨(h.fields f (List.mem_of_find?_eq_some hf)).read _ _ _ _ hknown.1 hs, hknown.2⟩
  · rename_i hnone
    split at hread
    · obtain ⟨⟨v, _⟩, hv, heq⟩ := exists_of_map_ok hread
      cases heq
      obtain ⟨_, -, hv⟩ := exists_of_afterColon_ok hv
      exact ⟨hknown.1, leftOver_cons hnone (readValue_depth hv) hknown.2⟩
    · split at hread
      · cases hread
      · cases hread
        exact hknown

theorem readObject {cs rest : List Char} {a : α} (hread : r.readObject levels cs = .ok (a, rest)) :
    p a := by
  obtain ⟨_, hread, -⟩ := closeObject_eq_ok_iff.mp hread
  split at hread
  · cases hread
  · rename_i s others left hmembers
    have hknown := readMembers_invariant
      (I := fun known : σ × List (String × Json) => I known.1 ∧ r.LeftOver levels known.2)
      (fun _ _ _ _ _ hs hmember => h.readMember hs hmember) ⟨h.start, leftOver_nil r levels⟩
      hmembers
    split at hread
    · rename_i hb
      cases hread
      exact h.finish s _ _ hknown.1 (leftOver_reverse hknown.2) hb
    · cases hread

theorem readFields {fs : List (Field σ)} (hfs : ∀ f ∈ fs, f ∈ r.fields) {index : Nat} {s t : σ}
    {cs rest : List Char} (hs : I s) (hread : r.readFields levels index s fs cs = .ok (t, rest)) :
    I t := by
  induction fs generalizing index s cs with
  | nil =>
    cases hread
    exact hs
  | cons f fs ih =>
    have hrest : ∀ g ∈ fs, g ∈ r.fields := fun g hg => hfs g (List.mem_cons_of_mem f hg)
    rw [Record.readFields] at hread
    split at hread
    · cases hread
    · split at hread
      · cases hread
      · rename_i next left hnext
        exact ih hrest ((h.fields f (hfs f List.mem_cons_self)).read _ _ _ _ hs hnext) hread
    · split at hread
      · exact ih hrest hs hread
      · cases hread

theorem readArray {cs rest : List Char} {a : α} (hread : r.readArray levels cs = .ok (a, rest)) :
    p a := by
  obtain ⟨_, hread, -⟩ := closeArray_eq_ok_iff.mp hread
  split at hread
  · cases hread
  · rename_i s left hfields
    have hs := h.readFields (fun _ hf => hf) h.start hfields
    split at hread
    · rename_i hb
      cases hread
      exact h.finish s [] _ hs (leftOver_nil r levels) hb
    · cases hread

theorem decodeMembers {origin : Origin} {s : σ} {others ms : List (String × Json)} {a : α}
    (hs : I s) (hothers : r.LeftOver levels others) (hms : ∀ m ∈ ms, m.2.depth ≤ levels)
    (hdecode : r.decodeMembers origin s others ms = .ok a) : p a := by
  induction ms generalizing s others with
  | nil => exact h.finish s _ a hs (leftOver_reverse hothers) hdecode
  | cons m ms ih =>
    obtain ⟨name, v⟩ := m
    have hv : v.depth ≤ levels := hms (name, v) List.mem_cons_self
    have hrest : ∀ m ∈ ms, m.2.depth ≤ levels := fun m hm => hms m (List.mem_cons_of_mem _ hm)
    rw [Record.decodeMembers] at hdecode
    split at hdecode
    · rename_i f hf
      split at hdecode
      · cases hdecode
      · split at hdecode
        · cases hdecode
        · rename_i next hnext
          have hfield := h.fields f (List.mem_of_find?_eq_some hf)
          exact ih (hfield.decode origin v s next hs hv hnext) hothers hrest hdecode
    · rename_i hnone
      split at hdecode
      · exact ih hs (leftOver_cons hnone hv hothers) hrest hdecode
      · exact ih hs hothers hrest hdecode

theorem decodeFields {fs : List (Field σ)} (hfs : ∀ f ∈ fs, f ∈ r.fields) {origin : Origin}
    {length index : Nat} {s : σ} {xs : List Json} {a : α} (hs : I s)
    (hxs : ∀ x ∈ xs, x.depth ≤ levels)
    (hdecode : r.decodeFields origin length index s fs xs = .ok a) : p a := by
  induction fs generalizing index s xs with
  | nil =>
    cases xs with
    | nil => exact h.finish s [] a hs (leftOver_nil r levels) hdecode
    | cons x xs =>
      rw [Record.decodeFields] at hdecode
      split at hdecode <;> cases hdecode
  | cons f fs ih =>
    have hrest : ∀ g ∈ fs, g ∈ r.fields := fun g hg => hfs g (List.mem_cons_of_mem f hg)
    cases xs with
    | nil =>
      rw [Record.decodeFields] at hdecode
      split at hdecode
      · exact ih hrest hs hxs hdecode
      · cases hdecode
    | cons x xs =>
      rw [Record.decodeFields] at hdecode
      split at hdecode
      · cases hdecode
      · rename_i next hnext
        have hfield := h.fields f (hfs f List.mem_cons_self)
        exact ih hrest (hfield.decode origin x s next hs (hxs x List.mem_cons_self) hnext)
          (fun y hy => hxs y (List.mem_cons_of_mem x hy)) hdecode

theorem decodeObject {origin : Origin} {ms : List (String × Json)} {a : α}
    (hdepth : (Json.object ms).depth ≤ levels + 1) (hdecode : r.decodeObject origin ms = .ok a) :
    p a :=
  h.decodeMembers h.start (leftOver_nil r levels)
    (depthMembers_le_iff.mp (Nat.le_of_succ_le_succ hdepth)) hdecode

theorem decodeArray {origin : Origin} {xs : List Json} {a : α}
    (hdepth : (Json.array xs).depth ≤ levels + 1) (hdecode : r.decodeArray origin xs = .ok a) :
    p a :=
  h.decodeFields (fun _ hf => hf) h.start
    (depthElements_le_iff.mp (Nat.le_of_succ_le_succ hdepth)) hdecode

theorem gives : r.decoder.Gives (levels + 1) p where
  read cs a rest hread := by
    simp only [decoder] at hread
    obtain ⟨_, _, -, -, hread⟩ := exists_of_readFrom_ok hread
    split at hread
    · rename_i heq
      cases heq
    · rename_i heq _
      cases heq
      exact h.readArray hread
    · rename_i heq _
      cases heq
      exact h.readObject hread
  decode origin j a hdepth hdecode := by
    cases j with
    | object ms => exact h.decodeObject hdepth hdecode
    | array xs =>
      simp only [decoder] at hdecode
      split at hdecode
      · cases hdecode
      · exact h.decodeArray hdepth hdecode
    | _ => cases hdecode

/-- What is left of a tagged union gives what the record of the variant gives. -/
theorem variant {j : Json} {a : α} (hdepth : j.depth ≤ levels + 1)
    (hdecode : Tagged.fields r j = .ok a) : p a := by
  cases j with
  | object ms => exact h.decodeObject hdepth hdecode
  | array xs => exact h.decodeArray hdepth hdecode
  | _ => cases hdecode

end KeepsTo
end Record

/-! ## Tagged unions -/

namespace Tagged

variable {α : Type} {t : Tagged α} {levels : Nat}

/-- A variant that is known, and members that are nested no deeper than some levels. -/
def Found (t : Tagged α) (levels : Nat) (known : Option (Rest α) × List (String × Json)) : Prop :=
  (∀ rest ∈ known.1, ∃ name, (name, rest) ∈ t.variants) ∧ ∀ m ∈ known.2, m.2.depth ≤ levels

theorem mem_of_meaning {name : String} {rest : Rest α}
    (h : Decoder.meaning t.variants name = .ok rest) : ∃ name, (name, rest) ∈ t.variants := by
  unfold Decoder.meaning at h
  split at h
  · rename_i found hlookup
    cases h
    obtain ⟨before, after, hvariants, _⟩ := List.lookup_eq_some_iff.mp hlookup
    refine ⟨name, ?_⟩
    rw [hvariants]
    exact List.mem_append_right _ List.mem_cons_self
  · cases h

theorem mem_of_decodeTag {j : Json} {rest : Rest α} (h : t.decodeTag j = .ok rest) :
    ∃ name, (name, rest) ∈ t.variants := by
  cases j with
  | string s => exact mem_of_meaning h
  | _ => cases h

theorem mem_of_readName {cs left : List Char} {rest : Rest α}
    (h : Decoder.readName t.variants cs = .ok (rest, left)) :
    ∃ name, (name, rest) ∈ t.variants := by
  unfold Decoder.readName at h
  split at h
  · cases h
  · rename_i name after _
    cases hmeaning : Decoder.meaning t.variants name with
    | error cause => rw [hmeaning] at h; cases h
    | ok known =>
      rw [hmeaning] at h
      cases h
      exact mem_of_meaning hmeaning

theorem found_start : t.Found levels (none, []) := by
  constructor
  · rintro rest ⟨⟩
  · intro m hm
    cases hm

theorem found_cons {found : Option (Rest α)} {name : String} {v : Json}
    {others : List (String × Json)} (h : t.Found levels (found, others)) (hv : v.depth ≤ levels) :
    t.Found levels (found, (name, v) :: others) := by
  refine ⟨h.1, fun m hm => ?_⟩
  rcases List.mem_cons.mp hm with rfl | hm
  · exact hv
  · exact h.2 m hm

theorem found_variant {found : Option (Rest α)} {rest : Rest α} {others : List (String × Json)}
    (h : t.Found levels (found, others)) (hrest : ∃ name, (name, rest) ∈ t.variants) :
    t.Found levels (some rest, others) := by
  refine ⟨?_, h.2⟩
  intro other hother
  cases hother
  exact hrest

theorem found_depth {found : Option (Rest α)} {others : List (String × Json)}
    (h : t.Found levels (found, others)) : (Json.object others.reverse).depth ≤ levels + 1 :=
  Nat.succ_le_succ (depthMembers_le_iff.mpr fun m hm => h.2 m (List.mem_reverse.mp hm))

theorem readMember_found {name : String} {cs left : List Char}
    {known next : Option (Rest α) × List (String × Json)} (hknown : t.Found levels known)
    (h : t.readMember levels name known cs = .ok (next, left)) : t.Found levels next := by
  unfold readMember at h
  split at h
  · split at h
    · cases h
    · obtain ⟨⟨rest, _⟩, hrest, heq⟩ := exists_of_map_ok h
      cases heq
      obtain ⟨_, -, hrest⟩ := exists_of_afterColon_ok hrest
      exact found_variant hknown (mem_of_readName hrest)
  · obtain ⟨⟨v, _⟩, hv, heq⟩ := exists_of_map_ok h
    cases heq
    obtain ⟨_, -, hv⟩ := exists_of_afterColon_ok hv
    exact found_cons hknown (readValue_depth hv)

theorem readObject_found {cs left : List Char} {rest : Rest α} {j : Json}
    (h : t.readObject levels cs = .ok ((rest, j), left)) :
    (∃ name, (name, rest) ∈ t.variants) ∧ j.depth ≤ levels + 1 := by
  obtain ⟨_, h, -⟩ := closeObject_eq_ok_iff.mp h
  split at h
  · cases h
  · rename_i variant others after hmembers
    cases h
    have hfound := readMembers_invariant (I := t.Found levels)
      (fun _ _ _ _ _ hs hmember => readMember_found hs hmember) found_start hmembers
    exact ⟨hfound.1 rest rfl, found_depth hfound⟩
  · cases h

theorem readArray_found {cs left : List Char} {rest : Rest α} {j : Json}
    (h : t.readArray levels cs = .ok ((rest, j), left)) :
    (∃ name, (name, rest) ∈ t.variants) ∧ j.depth ≤ levels + 1 := by
  obtain ⟨_, h, -⟩ := closeArray_eq_ok_iff.mp h
  split at h
  · cases h
  · cases h
  · split at h
    · cases h
    · rename_i variant after hname
      obtain ⟨⟨xs, _⟩, hxs, heq⟩ := exists_of_map_ok h
      cases heq
      have hall := readElements_forall (p := fun j => j.depth ≤ levels)
        (fun _ _ _ hx => readValue_depth hx) (by simp) hxs
      exact ⟨mem_of_readName hname, Nat.succ_le_succ (depthElements_le_iff.mpr hall)⟩

theorem findTag_found {found : Option (Rest α)} {others ms : List (String × Json)}
    {rest : Rest α} {j : Json} (hfound : t.Found levels (found, others))
    (hms : ∀ m ∈ ms, m.2.depth ≤ levels) (h : t.findTag found others ms = .ok (rest, j)) :
    (∃ name, (name, rest) ∈ t.variants) ∧ j.depth ≤ levels + 1 := by
  induction ms generalizing found others with
  | nil =>
    cases found with
    | none => cases h
    | some variant =>
      cases h
      exact ⟨hfound.1 rest rfl, found_depth hfound⟩
  | cons m ms ih =>
    obtain ⟨name, v⟩ := m
    have hrest : ∀ m ∈ ms, m.2.depth ≤ levels := fun m hm => hms m (List.mem_cons_of_mem _ hm)
    rw [findTag] at h
    split at h
    · split at h
      · cases h
      · split at h
        · cases h
        · rename_i variant htag
          exact ih (found_variant hfound (mem_of_decodeTag htag)) hrest h
    · exact ih (found_cons hfound (hms (name, v) List.mem_cons_self)) hrest h

theorem gives {p : α → Prop}
    (h : ∀ {name : String} {rest : Rest α}, (name, rest) ∈ t.variants →
      ∀ {j : Json} {a : α}, j.depth ≤ levels + 1 → rest j = .ok a → p a) :
    t.decoder.Gives (levels + 1) p where
  read cs a left hread := by
    simp only [decoder] at hread
    split at hread
    · cases hread
    · rename_i rest j left hwhole
      obtain ⟨_, _, -, -, hwhole⟩ := exists_of_readFrom_ok hwhole
      have hfound : (∃ name, (name, rest) ∈ t.variants) ∧ j.depth ≤ levels + 1 := by
        split at hwhole
        · rename_i heq
          cases heq
        · rename_i heq _
          cases heq
          exact readArray_found hwhole
        · rename_i heq _
          cases heq
          exact readObject_found hwhole
      obtain ⟨⟨name, hmem⟩, hdepth⟩ := hfound
      split at hread
      · rename_i a ha
        cases hread
        exact h hmem hdepth ha
      · cases hread
  decode origin j a hdepth hdecode := by
    cases j with
    | object ms =>
      simp only [decoder] at hdecode
      split at hdecode
      · rename_i rest j hfind
        obtain ⟨⟨name, hmem⟩, hdepth⟩ := findTag_found found_start
          (depthMembers_le_iff.mp (Nat.le_of_succ_le_succ hdepth)) hfind
        exact h hmem hdepth hdecode
      · cases hdecode
    | array xs =>
      cases xs with
      | nil => cases hdecode
      | cons x xs =>
        simp only [decoder] at hdecode
        split at hdecode
        · rename_i rest htag
          obtain ⟨name, hmem⟩ := mem_of_decodeTag htag
          have hxs : (Json.array xs).depth ≤ (Json.array (x :: xs)).depth :=
            Nat.succ_le_succ (Nat.le_max_right _ _)
          exact h hmem (Nat.le_trans hxs hdepth) hdecode
        · cases hdecode
    | _ => cases hdecode

end Tagged

end Json
end ResourceSearch
