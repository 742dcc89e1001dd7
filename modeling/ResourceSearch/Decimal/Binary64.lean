/-!
Finite binary floating-point numbers of 64 bits.  A number is its sign and the bit pattern of its
magnitude; patterns are ordered as the magnitudes are.  Every magnitude is a whole number of units
of `2^-1074`, so arithmetic is exact on natural numbers and rounds once, to nearest with ties to
even.
-/

namespace ResourceSearch

/-- A finite binary64 number: 11 exponent bits over 52 fraction bits, and a sign. -/
structure Binary64 where
  negative : Bool
  pattern : Nat
  finite : pattern < 0x7FF <<< 52
  deriving DecidableEq, Repr

namespace Binary64

def zero (negative : Bool) : Binary64 := ⟨negative, 0, by decide⟩

instance : Inhabited Binary64 := ⟨zero false⟩

/-- The doublings between the significand's unit and `2^-1074`. -/
def scale (x : Binary64) : Nat := x.pattern >>> 52 - 1

/-- The magnitude in units of `2 ^ scale` times `2^-1074`. -/
def significand (x : Binary64) : Nat := x.pattern - x.scale <<< 52

/-- The magnitude in units of `2^-1074`. -/
def units (x : Binary64) : Nat := x.significand <<< x.scale

def isZero (x : Binary64) : Bool := x.pattern = 0

/-- Numeric equality, under which the two zeros are one number. -/
def same (x y : Binary64) : Bool := x.pattern = y.pattern && (x.negative = y.negative || x.isZero)

/-- A quotient rounded to the nearest whole number, a tie to the even one. -/
def roundQuotient (num den : Nat) : Nat :=
  let q := num / den
  let r := num % den
  if 2 * r < den then q else if den < 2 * r then q + 1 else q + q % 2

/-- The pattern of the number nearest to a quotient of units.  It may lie past the finite ones. -/
def patternOfUnits (num den : Nat) : Nat :=
  let whole := num / den
  let scale := if whole < 1 <<< 53 then 0 else whole.log2 - 52
  scale <<< 52 + roundQuotient num (den <<< scale)

def ofPattern? (negative : Bool) (pattern : Nat) : Option Binary64 :=
  if h : pattern < 0x7FF <<< 52 then some ⟨negative, pattern, h⟩ else none

/-- The number nearest to a whole number, unless it is too large. -/
def ofNat? (negative : Bool) (n : Nat) : Option Binary64 :=
  ofPattern? negative (patternOfUnits (n <<< 1074) 1)

/-- The number nearest to a power of ten, up to the largest such number. -/
def pow10 (n : Nat) : Binary64 := (ofNat? false (Nat.pow 10 (min n 308))).getD (zero false)

/-- The product with a positive number, rounded, unless it is too large. -/
def mul? (x y : Binary64) : Option Binary64 :=
  ofPattern? x.negative (patternOfUnits (x.units * y.units) (1 <<< 1074))

/-- The quotient by a positive number that is at least one, rounded. -/
def div (x y : Binary64) : Binary64 :=
  (ofPattern? x.negative (patternOfUnits (x.units <<< 1074) y.units)).getD (zero x.negative)

/-- Whether a decimal is too large for a finite number, after rounding.  Its length tells, unless it
is near the bound. -/
def overflows (digits : Nat) (exponent : Int) : Bool :=
  let places : Int := (Nat.toDigits 10 digits).length + exponent
  let bound := 1 <<< 1024 - 1 <<< 970
  if digits = 0 ∨ places < 300 then false
  else if 320 < places then true
  else if 0 ≤ exponent then bound ≤ digits * Nat.pow 10 exponent.toNat
  else bound * Nat.pow 10 (-exponent).toNat ≤ digits

theorem same_refl (x : Binary64) : x.same x = true := by simp [same]

end Binary64
end ResourceSearch
