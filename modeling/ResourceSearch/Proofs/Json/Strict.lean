import ResourceSearch.Proofs.Json.Faithful

/-!
Text that is read as a type is the text of a value.  A decoder is strict (`Decoder.Strict`) if it
accepts nothing but values, so that what it reads from a text it decodes from the value of the text
(`Decoder.Strict.parse_eq_ok_iff`).  A record is strict if its fields are and no member is passed
over, for members that are passed over may be less than values.
-/

namespace ResourceSearch
namespace Json

section Readers

variable {cs rest : List Char}

theorem readValue_of_chars {s : String} {after : List Char} (levels : Nat)
    (hquote : skipBlank cs = '"' :: after) (h : readChars [] after = .ok (s, rest)) :
    readValue levels cs = .ok (.string s, rest) := by
  cases levels <;> simp only [readValue, readDatum, hquote, h, Except.map]

theorem readValue_of_members {levels : Nat} {after left : List Char} {ms : List (String × Json)}
    (hopen : skipBlank cs = '{' :: after)
    (h : readMembers (readMemberBefore (readValue levels)) (after.length + 1) true [] after =
      .ok (ms, left)) (hend : skipBlank left = '}' :: rest) :
    readValue (levels + 1) cs = .ok (.object ms.reverse, rest) := by
  have hclose : closeObject (.ok (ms.reverse, left)) = .ok (ms.reverse, rest) :=
    closeObject_eq_ok_iff.mpr ⟨left, rfl, hend⟩
  rw [readValue, readDatum, hopen]
  simp [readAllMembers, h, hclose, Except.map]

end Readers

/-- A decoder that accepts nothing but values. -/
def Decoder.Strict {α : Type} (d : Decoder α) : Prop :=
  ∀ ⦃levels : Nat⦄ ⦃cs rest : List Char⦄ ⦃a : α⦄, d.read levels cs = .ok (a, rest) →
    ∃ j, readValue levels cs = .ok (j, rest)

def Field.Strict {σ : Type} (f : Field σ) : Prop :=
  ∀ ⦃levels : Nat⦄ ⦃s t : σ⦄ ⦃cs rest : List Char⦄, f.read levels s cs = .ok (t, rest) →
    ∃ j, readValue levels cs = .ok (j, rest)

@[simp] theorem Decoder.strict_string : string.Strict := by
  intro levels cs rest s h
  simp only [string, readText] at h
  obtain ⟨c, after, hcs, hquote, hchars⟩ := exists_of_readFrom_ok h
  cases beq_iff_eq.mp hquote
  exact ⟨.string s, readValue_of_chars levels hcs hchars⟩

@[simp] theorem Field.strict_of {σ β : Type} {name : String} {get : σ → Option β}
    {set : σ → β → σ} {d : Decoder β} {mayLack : Bool} {aliases : List String} (h : d.Strict) :
    (Field.of name get set d mayLack aliases).Strict := by
  intro levels s t cs rest hread
  obtain ⟨⟨b, _⟩, hb, heq⟩ := exists_of_map_ok hread
  cases heq
  exact h hb

namespace Record

variable {σ α : Type} {r : Record σ α} {levels : Nat} {cs rest : List Char}

/-- What follows the name of a member is a value, whether a field takes it or not. -/
theorem value_of_readMember (hfields : ∀ f ∈ r.fields, f.Strict) (hkeeps : r.keepsOthers = true)
    {name : String} {known next : σ × List (String × Json)}
    (h : r.readMember levels name known cs = .ok (next, rest)) :
    ∃ v, afterColon (readValue levels) cs = .ok (v, rest) := by
  unfold readMember at h
  split at h
  next f hfield =>
    split at h
    · cases h
    · obtain ⟨⟨s, _⟩, hread, heq⟩ := exists_of_map_ok h
      cases heq
      obtain ⟨value, hcolon, hread⟩ := exists_of_afterColon_ok hread
      obtain ⟨v, hv⟩ := hfields f (List.mem_of_find?_eq_some hfield) hread
      exact ⟨v, by rw [afterColon, hcolon]; exact hv⟩
  · rw [if_pos hkeeps] at h
    obtain ⟨⟨v, _⟩, hv, heq⟩ := exists_of_map_ok h
    cases heq
    exact ⟨v, hv⟩

theorem members_of_readMembers (hfields : ∀ f ∈ r.fields, f.Strict)
    (hkeeps : r.keepsOthers = true) {fuel : Nat} {first : Bool}
    {known out : σ × List (String × Json)} {before : List (String × Json)}
    (h : readMembers (r.readMember levels) fuel first known cs = .ok (out, rest)) :
    ∃ ms, readMembers (readMemberBefore (readValue levels)) fuel first before cs =
      .ok (ms, rest) := by
  induction fuel generalizing first known before cs with
  | zero =>
    cases h
    exact ⟨before, rfl⟩
  | succ fuel ih =>
    rw [readMembers] at h
    rw [readMembers]
    split at h
    · cases h
    · cases h
      exact ⟨before, rfl⟩
    next name after hname =>
      split at h
      · cases h
      next next behind hmember =>
        obtain ⟨v, hv⟩ := value_of_readMember hfields hkeeps hmember
        have hrest : ∃ ms, readMembers (readMemberBefore (readValue levels)) fuel false
            ((name, v) :: before) behind = .ok (ms, rest) := ih h
        simpa only [readMemberBefore, hv, Except.map] using hrest

theorem strict (hfields : ∀ f ∈ r.fields, f.Strict) (hkeeps : r.keepsOthers = true) :
    r.decoder.Strict := by
  intro levels cs rest a h
  simp only [decoder] at h
  obtain ⟨c, after, hcs, hstart, h⟩ := exists_of_readFrom_ok h
  have hbrace : c = '{' := by simpa [hkeeps] using hstart
  subst hbrace
  cases levels with
  | zero => cases h
  | succ levels =>
    obtain ⟨left, h, hend⟩ := closeObject_eq_ok_iff.mp h
    split at h
    · cases h
    next s others behind hmembers =>
      obtain ⟨ms, hms⟩ : ∃ ms, readMembers (readMemberBefore (readValue levels))
          (after.length + 1) true [] after = .ok (ms, behind) :=
        members_of_readMembers hfields hkeeps hmembers
      have hleft : behind = left := by
        split at h
        · cases h
          rfl
        · cases h
      exact ⟨_, readValue_of_members hcs hms (hleft ▸ hend)⟩

end Record

/-- A strict and faithful decoder reads from a text what it decodes from the value of the text. -/
theorem Decoder.Strict.parse_eq_ok_iff {α : Type} {d : Decoder α} (hstrict : d.Strict)
    (hfaithful : d.Faithful) {text : String} {a : α} (origin : Origin) :
    d.parse text = .ok a ↔ ∃ j, Json.parse text = .ok j ∧ d.decode origin j = .ok a := by
  constructor
  · intro h
    obtain ⟨rest, hread, hend⟩ := exists_of_readAll_ok h
    obtain ⟨j, hj⟩ := hstrict hread
    have hparse : Json.parse text = .ok j := by
      rw [Json.parse, readAll]
      simp only [hj, hend]
    exact ⟨j, hparse, (hfaithful.parse_eq_ok_iff hparse origin).mp h⟩
  · rintro ⟨j, hparse, hdecode⟩
    exact (hfaithful.parse_eq_ok_iff hparse origin).mpr hdecode

end Json
end ResourceSearch
