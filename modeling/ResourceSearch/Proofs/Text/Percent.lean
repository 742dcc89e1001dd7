import ResourceSearch.Text.Percent

/-!
Percent coded text inside other text.  A coded text is inert: it holds no character that a link, a
list of kinds or a JSON string gives a meaning (`inert_of_mem_encode`).  Decoding a text that is not
empty leaves a text that is not empty (`decode_ne_empty`), whether or not it was coded.
-/

namespace ResourceSearch
namespace Text
namespace Percent

/-- A character without a meaning in links, in lists with commas and in JSON strings. -/
def Inert (c : Char) : Prop := c ∉ ['#', '?', '&', '=', ',', '"', '\\'] ∧ 32 ≤ c.toNat

instance (c : Char) : Decidable (Inert c) := inferInstanceAs (Decidable (_ ∧ _))

theorem inert_encodeByte :
    ∀ b : Fin 256, (encodeByte (UInt8.ofNat b)).all fun c => decide (Inert c) := by
  decide +kernel

theorem inert_of_mem_encode {cs : List Char} {c : Char} (h : c ∈ encode cs) : Inert c := by
  obtain ⟨b, -, hc⟩ := List.mem_flatMap.mp h
  have hall := inert_encodeByte ⟨b.toNat, b.toNat_lt⟩
  rw [show UInt8.ofNat b.toNat = b from UInt8.ofNat_toNat] at hall
  exact of_decide_eq_true (List.all_eq_true.mp hall c hc)

theorem encode_cons (c : Char) (cs : List Char) :
    encode (c :: cs) = (String.utf8EncodeChar c).flatMap encodeByte ++ encode cs := by
  rw [encode, bytes, List.flatMap_cons, List.flatMap_append]
  rfl

theorem decode?_encode (cs : List Char) : decode? (encode cs) = some (String.ofList cs) := by
  have h := decodeBytes_encode_append cs []
  rw [List.append_nil, show decodeBytes [] = [] from rfl, List.append_nil] at h
  rw [decode?, h, ofBytes?_bytes]

theorem encode_eq_nil_iff {cs : List Char} : encode cs = [] ↔ cs = [] := by
  constructor
  · intro h
    have hdecode := decode_encode cs
    rw [h, show decode [] = String.ofList [] from rfl] at hdecode
    exact (String.ofList_inj.mp hdecode).symm
  · rintro rfl
    rfl

/-! ## Texts that may not be coded -/

theorem decodeBytes_ne_nil {cs : List Char} (h : cs ≠ []) : decodeBytes cs ≠ [] := by
  unfold decodeBytes
  split
  · exact absurd rfl h
  · split
    · exact List.cons_ne_nil _ _
    · exact List.append_ne_nil_of_left_ne_nil String.utf8EncodeChar_ne_nil _
  · exact List.append_ne_nil_of_left_ne_nil String.utf8EncodeChar_ne_nil _

theorem decode_ne_empty {cs : List Char} (h : cs ≠ []) : decode cs ≠ "" := by
  cases hdecode : decode? cs with
  | none =>
    rw [decode, hdecode]
    exact mt String.ofList_eq_empty_iff.mp h
  | some s =>
    rw [decode, hdecode]
    intro hs
    rw [Option.getD_some] at hs
    have hbytes := bytes_of_ofBytes? hdecode
    rw [hs] at hbytes
    exact decodeBytes_ne_nil h hbytes.symm

end Percent
end Text
end ResourceSearch
