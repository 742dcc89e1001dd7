import Mathlib.Tactic.SplitIfs
import ResourceSearch.Text.Utf8

/-!
The order of texts.  Character by character or byte by byte, texts come in the same order
(`bytes_lt_bytes_iff`): the bytes of a character tell where it stands among all characters, whatever
follows.
-/

namespace ResourceSearch
namespace Text

theorem val_toNat_lt (c : Char) : c.val.toNat < 0x110000 := by
  rcases c.valid with h | h
  · omega
  · exact h.2

theorem ofNat_lt_ofNat {m n : Nat} (hm : m < 256) (hn : n < 256) :
    UInt8.ofNat m < UInt8.ofNat n ↔ m < n := by
  rw [UInt8.lt_iff_toNat_lt, UInt8.toNat_ofNat', UInt8.toNat_ofNat', Nat.mod_eq_of_lt hm,
    Nat.mod_eq_of_lt hn]

theorem ofNat_eq_ofNat {m n : Nat} (hm : m < 256) (hn : n < 256) :
    UInt8.ofNat m = UInt8.ofNat n ↔ m = n := by
  rw [← UInt8.toNat_inj, UInt8.toNat_ofNat', UInt8.toNat_ofNat', Nat.mod_eq_of_lt hm,
    Nat.mod_eq_of_lt hn]

/-- The first of two characters already decides between two texts in bytes. -/
theorem utf8EncodeChar_append_lt {c d : Char} (h : c < d) (xs ys : List UInt8) :
    String.utf8EncodeChar c ++ xs < String.utf8EncodeChar d ++ ys := by
  have hlt : c.val.toNat < d.val.toNat := UInt32.lt_iff_toNat_lt.mp h
  have hmax := val_toNat_lt d
  unfold String.utf8EncodeChar
  generalize c.val.toNat = m at hlt ⊢
  generalize d.val.toNat = n at hlt hmax ⊢
  -- of two numbers, the first digit to the base 64 that differs decides
  have hlow : m / 64 < n / 64 ∨ m / 64 = n / 64 ∧ m % 64 < n % 64 := by omega
  have hmiddle : m / 64 < n / 64 →
      m / 4096 < n / 4096 ∨ m / 4096 = n / 4096 ∧ m / 64 % 64 < n / 64 % 64 := by omega
  have hhigh : m / 4096 < n / 4096 →
      m / 262144 < n / 262144 ∨ m / 262144 = n / 262144 ∧ m / 4096 % 64 < n / 4096 % 64 := by omega
  have htop : m / 262144 % 8 = m / 262144 ∧ n / 262144 % 8 = n / 262144 := by omega
  dsimp only
  -- one case for each pair of lengths; the shorter form has the smaller first byte
  split_ifs
  all_goals
    simp (disch := omega) only [List.cons_append, List.nil_append, List.cons_lt_cons_iff,
      ofNat_lt_ofNat, ofNat_eq_ofNat]
    omega

theorem bytes_lt_of_lt {cs ds : List Char} (h : cs < ds) : bytes cs < bytes ds := by
  induction h with
  | @nil d ds =>
    obtain ⟨b, bs, hb⟩ := List.exists_cons_of_ne_nil (String.utf8EncodeChar_ne_nil (c := d))
    rw [bytes, bytes, List.flatMap_nil, List.flatMap_cons, hb, List.cons_append]
    exact List.nil_lt_cons b _
  | rel hcd =>
    rw [bytes, bytes, List.flatMap_cons, List.flatMap_cons]
    exact utf8EncodeChar_append_lt hcd _ _
  | cons _ ih =>
    rw [bytes, bytes, List.flatMap_cons, List.flatMap_cons]
    exact List.append_left_lt ih

/-- Texts come in the order of their bytes. -/
theorem bytes_lt_bytes_iff {s t : String} : bytes s.toList < bytes t.toList ↔ s < t := by
  refine ⟨fun h => ?_, fun h => bytes_lt_of_lt (String.lt_iff.mp h)⟩
  by_cases hst : s < t
  · exact hst
  · -- otherwise the bytes are the same, or in the order the other way round
    by_cases hts : t < s
    · exact absurd (bytes_lt_of_lt (String.lt_iff.mp hts)) (List.lt_asymm h)
    · obtain rfl := String.le_antisymm (String.not_lt.mp hts) (String.not_lt.mp hst)
      exact absurd h (List.lt_irrefl _)

end Text
end ResourceSearch
