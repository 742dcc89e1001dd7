import ResourceSearch.Text.Hex
import ResourceSearch.Text.Utf8

/-!
Percent coding.  `encode` leaves letters, digits and `-`, `.`, `_`, `~` as they are and writes every
other byte as `%` and two hexadecimal digits.  `decodeBytes` is its left inverse
(`decodeBytes_encode_append`) and leaves a `%` that starts no such triple alone.
-/

namespace ResourceSearch
namespace Text
namespace Percent

/-- The bytes that need no coding: ASCII letters, digits and `-`, `.`, `_`, `~`. -/
def unreserved (b : UInt8) : Bool :=
  let c := Char.ofNat b.toNat
  c.isAlphanum || c == '-' || c == '.' || c == '_' || c == '~'

def encodeByte (b : UInt8) : List Char :=
  if unreserved b then [Char.ofNat b.toNat]
  else ['%', Hex.upper (b.toNat / 16), Hex.upper (b.toNat % 16)]

/-- The coded form of a text, all ASCII. -/
def encode (cs : List Char) : List Char := (bytes cs).flatMap encodeByte

def hexByte? (high low : Char) : Option UInt8 :=
  match Hex.value? high, Hex.value? low with
  | some h, some l => some (UInt8.ofNat (16 * h + l))
  | _, _ => none

/-- The bytes that a coded text stands for.  A `%` without two hexadecimal digits stands for itself.
-/
def decodeBytes : List Char → List UInt8
  | [] => []
  | '%' :: high :: low :: rest =>
    match hexByte? high low with
    | some b => b :: decodeBytes rest
    | none => String.utf8EncodeChar '%' ++ decodeBytes (high :: low :: rest)
  | c :: cs => String.utf8EncodeChar c ++ decodeBytes cs

/-- The text that a coded text stands for, unless its bytes are not UTF-8. -/
def decode? (cs : List Char) : Option String := ofBytes? (decodeBytes cs)

/-- As `decode?`, but a text whose bytes are not UTF-8 stands for itself. -/
def decode (cs : List Char) : String := (decode? cs).getD (String.ofList cs)

theorem hexByte?_upper (b : UInt8) :
    hexByte? (Hex.upper (b.toNat / 16)) (Hex.upper (b.toNat % 16)) = some b := by
  have hlt := b.toNat_lt
  have hhigh := Hex.value?_upper ⟨b.toNat / 16, by omega⟩
  have hlow := Hex.value?_upper ⟨b.toNat % 16, by omega⟩
  simp only at hhigh hlow
  simp only [hexByte?, hhigh, hlow]
  rw [show 16 * (b.toNat / 16) + b.toNat % 16 = b.toNat by omega, UInt8.ofNat_toNat]

theorem decodeBytes_cons_ne {c : Char} (h : c ≠ '%') (rest : List Char) :
    decodeBytes (c :: rest) = String.utf8EncodeChar c ++ decodeBytes rest := by
  rw [decodeBytes]
  intros
  exact h ‹_›

theorem unreserved_bytes : ∀ b : Fin 256, unreserved (UInt8.ofNat b) = true →
    Char.ofNat b ≠ '%' ∧ String.utf8EncodeChar (Char.ofNat b) = [UInt8.ofNat b] := by
  decide +kernel

theorem decodeBytes_encodeByte_append (b : UInt8) (rest : List Char) :
    decodeBytes (encodeByte b ++ rest) = b :: decodeBytes rest := by
  have hb : UInt8.ofNat b.toNat = b := UInt8.ofNat_toNat
  unfold encodeByte
  split
  next h =>
    obtain ⟨hne, henc⟩ := unreserved_bytes ⟨b.toNat, b.toNat_lt⟩ (by simpa [hb] using h)
    rw [List.singleton_append, decodeBytes_cons_ne hne, henc, hb]
    rfl
  next h =>
    simp only [List.cons_append, List.nil_append]
    rw [decodeBytes, hexByte?_upper]

/-- Decoding undoes encoding, whatever follows. -/
theorem decodeBytes_encode_append (cs rest : List Char) :
    decodeBytes (encode cs ++ rest) = bytes cs ++ decodeBytes rest := by
  unfold encode
  induction bytes cs with
  | nil => rfl
  | cons b bs ih =>
    rw [List.flatMap_cons, List.append_assoc, decodeBytes_encodeByte_append, ih]
    rfl

theorem decode_encode (cs : List Char) : decode (encode cs) = String.ofList cs := by
  have h := decodeBytes_encode_append cs []
  simp only [List.append_nil] at h
  simp [decode, decode?, h, show decodeBytes [] = [] from rfl, ofBytes?_bytes]

end Percent
end Text
end ResourceSearch
