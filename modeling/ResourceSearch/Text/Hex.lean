/-!
Hexadecimal digits.  Both cases are read.
-/

namespace ResourceSearch
namespace Text
namespace Hex

def upper (n : Nat) : Char := if n < 10 then Char.ofNat (48 + n) else Char.ofNat (55 + n)

def lower (n : Nat) : Char := if n < 10 then Char.ofNat (48 + n) else Char.ofNat (87 + n)

def value? (c : Char) : Option Nat :=
  if '0' ≤ c ∧ c ≤ '9' then some (c.toNat - 48)
  else if 'A' ≤ c ∧ c ≤ 'F' then some (c.toNat - 55)
  else if 'a' ≤ c ∧ c ≤ 'f' then some (c.toNat - 87)
  else none

def number (base : Nat) (digits : List Char) : Nat :=
  digits.foldl (fun n c => base * n + (value? c).getD 0) 0

/-- A number with so many digits in upper case, whatever stands before them left out. -/
def padded : Nat → Nat → List Char
  | 0, _ => []
  | count + 1, n => padded count (n / 16) ++ [upper (n % 16)]

theorem value?_upper : ∀ n : Fin 16, value? (upper n) = some n.val := by decide

end Hex
end Text
end ResourceSearch
