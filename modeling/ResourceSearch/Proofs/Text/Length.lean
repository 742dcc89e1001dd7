import ResourceSearch.Text.Percent

/-!
How long texts are in bytes.  Percent decoding makes no text longer (`Percent.length_decode_le`):
three characters become a byte, and every other character stands for its own bytes.
-/

namespace ResourceSearch
namespace Text

theorem length_bytes_cons (c : Char) (cs : List Char) :
    (bytes (c :: cs)).length = c.utf8Size + (bytes cs).length := by
  rw [bytes, List.flatMap_cons, List.length_append, String.length_utf8EncodeChar, bytes]

theorem length_bytes_append (cs ds : List Char) :
    (bytes (cs ++ ds)).length = (bytes cs).length + (bytes ds).length := by
  rw [bytes, List.flatMap_append, List.length_append, bytes, bytes]

theorem length_le_length_bytes (cs : List Char) : cs.length ≤ (bytes cs).length := by
  induction cs with
  | nil => exact Nat.le_refl 0
  | cons c cs ih =>
    have hpos := c.utf8Size_pos
    rw [length_bytes_cons, List.length_cons]
    omega

namespace Percent

theorem length_decodeBytes_le (cs : List Char) : (decodeBytes cs).length ≤ (bytes cs).length := by
  fun_induction decodeBytes cs with
  | case1 => exact Nat.le_refl 0
  | case2 high low rest b _ ih =>
    have hhigh := high.utf8Size_pos
    rw [length_bytes_cons, length_bytes_cons, length_bytes_cons, List.length_cons]
    omega
  | case3 high low rest _ ih =>
    rw [length_bytes_cons, List.length_append, String.length_utf8EncodeChar]
    exact Nat.add_le_add_left ih _
  | case4 c cs _ ih =>
    rw [length_bytes_cons, List.length_append, String.length_utf8EncodeChar]
    exact Nat.add_le_add_left ih _

theorem length_decode_le (cs : List Char) :
    (bytes (decode cs).toList).length ≤ (bytes cs).length := by
  cases h : decode? cs with
  | none =>
    refine Nat.le_of_eq ?_
    rw [decode, h, Option.getD_none, String.toList_ofList]
  | some s =>
    rw [decode, h, Option.getD_some, bytes_of_ofBytes? h]
    exact length_decodeBytes_le cs

end Percent
end Text
end ResourceSearch
