import ResourceSearch.Json.Decoder
import ResourceSearch.Proofs.Json.Values
import ResourceSearch.Proofs.Outcomes

/-!
Decoding text is decoding the value that it writes.  A decoder agrees with itself on a value
(`Decoder.Agrees`) if it reads from every text of the value what it decodes from the value.  The
combinators preserve agreement: lists, options, records and tagged unions agree where their parts
do.
-/

namespace ResourceSearch
namespace Json

theorem readFrom_text {α : Type} {wanted : String} {start : Char → Bool}
    {read : List Char → Reading α} {blanks cs rest : List Char} {c : Char} (hb : Blank blanks)
    (hblank : isBlank c = false) (hc : start c = true) :
    readFrom wanted start read (blanks ++ (c :: cs ++ rest)) = read (c :: cs ++ rest) := by
  rw [readFrom, skipBlank_append hb, List.cons_append, skipBlank_cons hblank]
  simp only [hc, if_true]

namespace Decoder

variable {α β : Type}

/-- Whatever a decoder makes of a value, it makes it of every text of the value too. -/
def Agrees (d : Decoder α) (j : Json) : Prop :=
  ∀ ⦃origin : Origin⦄ ⦃a : α⦄, d.decode origin j = .ok a → ∀ ⦃layout : Layout⦄, layout.IsBlank →
    ∀ depth levels, j.depth ≤ levels → j.NumbersReadBack →
      Reads (d.read levels) (write layout depth j) a

/-! ## Scalars -/

theorem readText_write (wanted : String) (layout : Layout) (depth : Nat) (s : String) :
    Reads (readText wanted) (write layout depth (.string s)) s := by
  intro blanks rest hb hrest
  have htext : write layout depth (.string s) = '"' :: (s.toList.flatMap escape ++ ['"']) := by
    rw [write, writeString]
  rw [htext, readText, readFrom_text hb rfl rfl]
  simp [readChars_writeString]

theorem agrees_string (j : Json) : string.Agrees j := by
  intro origin a h layout hl depth levels _ _
  cases j with
  | string s =>
    obtain rfl := Except.ok.inj h
    exact readText_write "a string" layout depth s
  | _ => cases h

theorem agrees_count (limit : Nat) (name : String) (j : Json) : (count limit name).Agrees j := by
  intro origin a h layout hl depth levels _ hnumbers blanks rest hb hrest
  cases j with
  | number n =>
    have hread := readNumber_append hnumbers hrest
    obtain ⟨c, cs, hcs, hc⟩ := writeNumber_starts hnumbers
    have hcount : countOf limit name n = .ok a := h
    rw [write, hcs]
    simp only [count]
    rw [readFrom_text hb (startsNumber_not hc).1 hc, ← hcs, hread]
    simp [hcount, check]
  | _ => cases h

theorem readName_write (known : List (String × α)) {a : α} {s : String}
    (h : meaning known s = .ok a) (layout : Layout) (depth : Nat) :
    Reads (readName known) (write layout depth (.string s)) a := by
  intro blanks rest hb hrest
  simp [readName, readText_write _ layout depth s hb hrest, h, check]

theorem agrees_choice (known : List (String × α)) (s : String) :
    (choice known).Agrees (.string s) := by
  intro origin a h layout hl depth levels _ _ blanks rest hb hrest
  have hname := (readName_write known h layout depth).here hrest
  rw [write, writeString_append] at *
  simp only [choice]
  rw [skipBlank_append hb, skipBlank_cons rfl]
  exact hname

/-! ## Options, maps and lists -/

theorem agrees_map {f : α → β} {d : Decoder α} {j : Json} (h : d.Agrees j) :
    (d.map f).Agrees j := by
  intro origin b hdecode layout hl depth levels hdepth hnumbers blanks rest hb hrest
  obtain ⟨a, ha, rfl⟩ := exists_of_map_ok hdecode
  have hread := h ha hl depth levels hdepth hnumbers hb hrest
  show (d.read levels _).map _ = _
  rw [hread]
  rfl

/-- Only `null` starts like `null`. -/
theorem write_ne_null {layout : Layout} {depth : Nat} {j : Json} (h : j ≠ .null)
    (hnumbers : j.NumbersReadBack) (cs : List Char) : write layout depth j ≠ 'n' :: cs := by
  cases j with
  | null => exact absurd rfl h
  | bool b => cases b <;> simp [write]
  | number n =>
    obtain ⟨c, ds, hds, hc⟩ := writeNumber_starts hnumbers
    have hn := (startsNumber_not hc).2.2.1
    simp [write, hds, hn]
  | string s => simp [write, writeString]
  | array xs =>
    obtain ⟨ds, hds⟩ := write_array_cons layout depth xs
    simp [hds]
  | object ms =>
    obtain ⟨ds, hds⟩ := write_object_cons layout depth ms
    simp [hds]

theorem agrees_optional {d : Decoder α} {j : Json} (h : d.Agrees j) : (optional d).Agrees j := by
  intro origin a hdecode layout hl depth levels hdepth hnumbers blanks rest hb hrest
  by_cases hnull : j = .null
  · subst hnull
    obtain rfl := Except.ok.inj hdecode
    rw [write]
    simp only [optional]
    rw [skipBlank_append hb]
    rfl
  · have hsome : (d.decode origin j).map some = .ok a := by
      cases j with
      | null => exact absurd rfl hnull
      | _ => exact hdecode
    obtain ⟨b, hb', rfl⟩ := exists_of_map_ok hsome
    have hread := (h hb' hl depth levels hdepth hnumbers).here hrest
    have hstart := startsValue_write layout depth hnumbers
    simp only [optional]
    rw [skipBlank_text hb hstart]
    split
    next cs hcs =>
      obtain ⟨c, ds, hds, _⟩ := hstart
      rw [hds, List.cons_append] at hcs
      rw [(List.cons.inj hcs).1] at hds
      exact absurd hds (write_ne_null hnull hnumbers ds)
    next =>
      rw [hread]
      rfl

theorem readsElements_of_mapM {d : Decoder α} {origin : Origin} {layout : Layout}
    (hl : layout.IsBlank) {xs : List Json} {values : List α} (h : ∀ x ∈ xs, d.Agrees x)
    (hdecode : xs.mapM (d.decode origin) = .ok values) (depth levels : Nat)
    (hdepth : depthElements xs ≤ levels) (hnumbers : NumbersReadBackElements xs) :
    ReadsElements (d.read levels) layout depth xs values := by
  induction xs generalizing values with
  | nil =>
    obtain rfl := Except.ok.inj hdecode
    exact .nil
  | cons x xs ih =>
    have hmax : max x.depth (depthElements xs) ≤ levels := hdepth
    rw [List.mapM_cons] at hdecode
    obtain ⟨a, ha, hdecode⟩ := exists_of_bind_ok hdecode
    obtain ⟨others, hothers, hdecode⟩ := exists_of_bind_ok hdecode
    cases hdecode
    have hx := h x List.mem_cons_self ha hl depth levels (by omega) hnumbers.1
    have hxs := ih (fun y hy => h y (List.mem_cons_of_mem x hy)) hothers (by omega) hnumbers.2
    exact .cons (startsValue_write layout depth hnumbers.1) hx hxs

theorem agrees_list {d : Decoder α} {xs : List Json} (h : ∀ x ∈ xs, d.Agrees x) :
    (list d).Agrees (.array xs) := by
  intro origin values hdecode layout hl depth levels hdepth hnumbers blanks rest hb hrest
  cases levels with
  | zero => exact absurd hdepth (Nat.not_succ_le_zero _)
  | succ levels =>
    have helements := readsElements_of_mapM hl h hdecode (depth + 1) levels
      (Nat.le_of_succ_le_succ hdepth) hnumbers
    obtain ⟨cs, hcs, hread⟩ := readElements_array hl helements rest
    simp only [list]
    rw [hcs, readFrom_text hb rfl rfl, List.cons_append]
    show closeArray
      (readElements (d.read levels) ((cs ++ rest).length + 1) true [] (cs ++ rest)) = _
    rw [hread, closeArray_ok]

end Decoder

/-! ## Records -/

/-- A field makes of every text of a value what it makes of the value. -/
def Field.Agrees {σ : Type} (f : Field σ) (j : Json) : Prop :=
  ∀ ⦃origin : Origin⦄ ⦃s t : σ⦄, f.decode origin s j = .ok t → ∀ ⦃layout : Layout⦄,
    layout.IsBlank → ∀ depth levels, j.depth ≤ levels → j.NumbersReadBack →
      Reads (f.read levels s) (write layout depth j) t

theorem Field.agrees_of {σ β : Type} {name : String} {get : σ → Option β} {set : σ → β → σ}
    {d : Decoder β} {mayLack : Bool} {aliases : List String} {j : Json} (h : d.Agrees j) :
    (Field.of name get set d mayLack aliases).Agrees j := by
  intro origin s t hdecode layout hl depth levels hdepth hnumbers blanks rest hb hrest
  obtain ⟨b, hv, rfl⟩ := exists_of_map_ok hdecode
  have hread := h hv hl depth levels hdepth hnumbers hb hrest
  show (d.read levels _).map _ = _
  rw [hread]
  rfl

namespace Record

variable {σ α : Type}

/-- A member of a record that its field agrees on, or that is kept as it is. -/
def AgreesOn (r : Record σ α) (m : String × Json) : Prop :=
  match r.field? m.1 with
  | some f => f.Agrees m.2
  | none => r.keepsOthers = true

/-- Reading members one after the other comes to the state in which decoding them finishes. -/
theorem readsMembers_of_decodeMembers {r : Record σ α} {origin : Origin} {layout : Layout}
    (hl : layout.IsBlank) {ms : List (String × Json)} {s : σ} {others : List (String × Json)}
    {a : α} (h : ∀ m ∈ ms, r.AgreesOn m) (hdecode : r.decodeMembers origin s others ms = .ok a)
    (depth levels : Nat) (hdepth : depthMembers ms ≤ levels)
    (hnumbers : NumbersReadBackMembers ms) :
    ∃ known, ReadsMembers (r.readMember levels) layout depth (s, others) ms known ∧
      r.finish known.1 known.2.reverse = .ok a := by
  induction ms generalizing s others with
  | nil => exact ⟨(s, others), .nil _, hdecode⟩
  | cons m ms ih =>
    obtain ⟨name, v⟩ := m
    have hmax : max v.depth (depthMembers ms) ≤ levels := hdepth
    have hms : ∀ m ∈ ms, r.AgreesOn m := fun m hm => h m (List.mem_cons_of_mem _ hm)
    have hm := h (name, v) List.mem_cons_self
    unfold AgreesOn at hm
    rw [decodeMembers] at hdecode
    cases hfield : r.field? name with
    | some f =>
      simp only [hfield] at hm hdecode
      split at hdecode
      next => cases hdecode
      next hknown =>
        cases hv : f.decode origin s v with
        | error cause => simp [hv] at hdecode
        | ok t =>
          simp only [hv] at hdecode
          obtain ⟨known, hreads, hfinish⟩ := ih hms hdecode (by omega) hnumbers.2
          refine ⟨known, .cons ?_ hreads, hfinish⟩
          intro rest hrest
          have hread := hm hv hl depth levels (by omega) hnumbers.1
          simp only [readMember, hfield]
          rw [if_neg hknown, afterColon_text hread hl.gap hrest]
          rfl
    | none =>
      simp only [hfield] at hm hdecode
      rw [if_pos hm] at hdecode
      obtain ⟨known, hreads, hfinish⟩ := ih hms hdecode (by omega) hnumbers.2
      refine ⟨known, .cons ?_ hreads, hfinish⟩
      intro rest hrest
      have hread := readValue_write hl v depth levels (by omega) hnumbers.1
      simp only [readMember, hfield]
      rw [if_pos hm, afterColon_text hread hl.gap hrest]
      rfl

theorem agrees_object {r : Record σ α} {ms : List (String × Json)} (h : ∀ m ∈ ms, r.AgreesOn m) :
    r.decoder.Agrees (.object ms) := by
  intro origin a hdecode layout hl depth levels hdepth hnumbers blanks rest hb hrest
  cases levels with
  | zero => exact absurd hdepth (Nat.not_succ_le_zero _)
  | succ levels =>
    obtain ⟨known, hreads, hfinish⟩ := readsMembers_of_decodeMembers hl h hdecode (depth + 1)
      levels (Nat.le_of_succ_le_succ hdepth) hnumbers
    obtain ⟨cs, hcs, hread⟩ := readMembers_object hl hreads rest
    simp only [decoder]
    rw [hcs, readFrom_text hb rfl rfl, List.cons_append]
    show r.readObject levels (cs ++ rest) = _
    rw [readObject, hread]
    simp only [hfinish, closeObject_ok]

end Record

/-! ## Tagged unions -/

namespace Tagged

variable {α : Type}

/-- A member of a tagged union that is not the tag, or is a tag that can be read on its own. -/
def AgreesOn (t : Tagged α) (m : String × Json) : Prop := m.1 = t.tag → ∃ s, m.2 = .string s

theorem readsMembers_of_findTag {t : Tagged α} {layout : Layout} (hl : layout.IsBlank)
    {ms : List (String × Json)} {found : Option (Rest α)} {others : List (String × Json)}
    {rest : Rest α} {j : Json} (h : ∀ m ∈ ms, t.AgreesOn m)
    (hfind : t.findTag found others ms = .ok (rest, j)) (depth levels : Nat)
    (hdepth : depthMembers ms ≤ levels) (hnumbers : NumbersReadBackMembers ms) :
    ∃ left, ReadsMembers (t.readMember levels) layout depth (found, others) ms (some rest, left) ∧
      j = .object left.reverse := by
  induction ms generalizing found others with
  | nil =>
    cases found with
    | none => cases hfind
    | some known =>
      obtain ⟨rfl, rfl⟩ := Prod.mk.inj (Except.ok.inj hfind)
      exact ⟨others, .nil _, rfl⟩
  | cons m ms ih =>
    obtain ⟨name, v⟩ := m
    have hmax : max v.depth (depthMembers ms) ≤ levels := hdepth
    have hms : ∀ m ∈ ms, t.AgreesOn m := fun m hm => h m (List.mem_cons_of_mem _ hm)
    rw [findTag] at hfind
    by_cases htag : name = t.tag
    · obtain ⟨s, rfl⟩ : ∃ s, v = .string s := h (name, v) List.mem_cons_self htag
      rw [if_pos htag] at hfind
      split at hfind
      next => cases hfind
      next hfound =>
        cases hmeaning : t.decodeTag (.string s) with
        | error cause => simp [hmeaning] at hfind
        | ok variant =>
          simp only [hmeaning] at hfind
          obtain ⟨left, hreads, hj⟩ := ih hms hfind (by omega) hnumbers.2
          refine ⟨left, .cons ?_ hreads, hj⟩
          intro others' hends
          have hread := Decoder.readName_write t.variants hmeaning layout depth
          rw [readMember, if_pos htag, if_neg hfound, afterColon_text hread hl.gap hends]
          rfl
    · rw [if_neg htag] at hfind
      obtain ⟨left, hreads, hj⟩ := ih hms hfind (by omega) hnumbers.2
      refine ⟨left, .cons ?_ hreads, hj⟩
      intro others' hends
      have hread := readValue_write hl v depth levels (by omega) hnumbers.1
      rw [readMember, if_neg htag, afterColon_text hread hl.gap hends]
      rfl

theorem agrees_object {t : Tagged α} {ms : List (String × Json)} (h : ∀ m ∈ ms, t.AgreesOn m) :
    t.decoder.Agrees (.object ms) := by
  intro origin a hdecode layout hl depth levels hdepth hnumbers blanks rest hb hrest
  cases levels with
  | zero => exact absurd hdepth (Nat.not_succ_le_zero _)
  | succ levels =>
    simp only [decoder] at hdecode
    cases hfind : t.findTag none [] ms with
    | error cause => simp [hfind] at hdecode
    | ok found =>
      obtain ⟨variant, j⟩ := found
      simp only [hfind] at hdecode
      obtain ⟨left, hreads, rfl⟩ := readsMembers_of_findTag hl h hfind (depth + 1) levels
        (Nat.le_of_succ_le_succ hdepth) hnumbers
      obtain ⟨cs, hcs, hread⟩ := readMembers_object hl hreads rest
      have hobject : t.readObject levels (cs ++ rest) =
          .ok ((variant, .object left.reverse), rest) := by
        rw [readObject, hread]
        simp only [closeObject_ok]
      simp only [decoder]
      rw [hcs, readFrom_text hb rfl rfl, List.cons_append]
      simp [hobject, hdecode]

end Tagged

/-! ## Whole texts -/

theorem Decoder.parse_write {α : Type} {d : Decoder α} {origin : Origin} {j : Json} {a : α}
    {layout : Layout} (hl : layout.IsBlank) (h : d.Agrees j) (hdecode : d.decode origin j = .ok a)
    (hdepth : j.depth ≤ maxLevels) (hnumbers : j.NumbersReadBack) :
    d.parse (String.ofList (write layout 0 j)) = .ok a := by
  have hread := (h hdecode hl 0 maxLevels hdepth hnumbers).here ends_nil
  rw [List.append_nil] at hread
  rw [Decoder.parse, readAll, String.toList_ofList]
  simp [hread, skipBlank]

end Json
end ResourceSearch
