import ResourceSearch.Decimal.Binary64

/-!
The decimal text of binary floating-point numbers.  A number is written with the fewest digits that
no other number is nearer to, and with the nearest of those.  For 1, 2, … digits the two neighbours
of the number on that decimal grid are tested against the interval of reals that round to the
number.
-/

namespace ResourceSearch

/-- `digits` times ten to the power of `exponent`. -/
structure Decimal where
  digits : Nat
  exponent : Int
  deriving DecidableEq, Repr, Inhabited

namespace Decimal

/-- The quotient `num / den` as one fraction with a power of ten moved into either side. -/
def scaled (num den : Nat) (power : Int) : Nat × Nat :=
  if 0 ≤ power then (num * Nat.pow 10 power.toNat, den)
  else (num, den * Nat.pow 10 (-power).toNat)

def digitCount (n : Nat) : Nat := (Nat.toDigits 10 n).length

/-- The power of ten of the leading digit of a positive quotient. -/
def leadingPower (num den : Nat) : Int :=
  if den ≤ num then digitCount (num / den) - 1
  else
    let n := digitCount (den / num)
    if num * Nat.pow 10 (n - 1) = den then -((n : Int) - 1) else -(n : Int)

def trim (fuel : Nat) (d : Decimal) : Decimal :=
  match fuel with
  | 0 => d
  | fuel + 1 =>
    if d.digits ≠ 0 ∧ d.digits % 10 = 0 then trim fuel ⟨d.digits / 10, d.exponent + 1⟩ else d

/-- The reals that round to a number, in quarters of its significand's unit: the number itself, the
ends of the interval and whether the ends belong to it. -/
structure Interval where
  center : Nat
  low : Nat
  high : Nat
  closed : Bool

def Interval.of (x : Binary64) : Interval :=
  let m := x.significand
  let lowGap := if m = 1 <<< 52 ∧ 0 < x.scale then 1 else 2
  { center := 4 * m, low := 4 * m - lowGap, high := 4 * m + 2, closed := m % 2 = 0 }

/-- Whether `candidate / one` of these quarters lies in the interval. -/
def Interval.holds (i : Interval) (candidate one : Nat) : Bool :=
  if i.closed then i.low * one ≤ candidate && candidate ≤ i.high * one
  else i.low * one < candidate && candidate < i.high * one

inductive Tie where
  /-- The one whose last digit is even. -/
  | even
  /-- The one that is farther from zero. -/
  | away
  deriving DecidableEq, Repr

/-- Whether the lower one of two equally near decimals is taken. -/
def Tie.takesBelow (tie : Tie) (below : Nat) : Bool :=
  match tie with
  | .even => below % 2 == 0
  | .away => false

/-- The neighbour of a number on the grid of `count` digits that rounds to the number, if there is
one; of two, the nearer one. -/
def onGrid (tie : Tie) (i : Interval) (quarterNum quarterDen : Nat) (leading : Int) (count : Nat) :
    Option Decimal :=
  let exponent := leading - (count - 1)
  -- in grid steps the number is `center * quarterNum / quarterDen` over ten to the `exponent`
  let (num, den) := scaled quarterNum quarterDen (-exponent)
  let below := i.center * num / den
  let test (k : Nat) : Bool := i.holds (k * den) num
  let toBelow := i.center * num - below * den
  let toAbove := (below + 1) * den - i.center * num
  match test below, test (below + 1) with
  | false, false => none
  | true, false => some ⟨below, exponent⟩
  | false, true => some ⟨below + 1, exponent⟩
  | true, true =>
    if toBelow < toAbove ∨ (toBelow = toAbove ∧ tie.takesBelow below) then some ⟨below, exponent⟩
    else some ⟨below + 1, exponent⟩

/-- The shortest decimal that rounds to the magnitude of a number. -/
def shortest (tie : Tie) (x : Binary64) : Decimal :=
  if x.isZero then ⟨0, 0⟩
  else
    let quarterNum := 1 <<< x.scale
    let quarterDen := 4 <<< 1074
    let i := Interval.of x
    let leading := leadingPower (i.center * quarterNum) quarterDen
    let grids := (List.range 17).map (· + 1)
    let found := grids.findSome? (onGrid tie i quarterNum quarterDen leading)
    trim 20 (found.getD ⟨0, 0⟩)

structure Style where
  /-- The powers of ten of the leading digit between which no exponent is written, if it is limited.
  -/
  positional : Option (Int × Int)
  plus : Bool
  /-- Which of two shortest decimals is written if both are equally near. -/
  tie : Tie

def isPositional (style : Style) (leading : Int) : Bool :=
  match style.positional with
  | none => true
  | some (least, greatest) => least ≤ leading && leading ≤ greatest

/-- A decimal without an exponent, with at least one digit on each side of the point. -/
def positionalText (d : Decimal) : List Char :=
  let ds := Nat.toDigits 10 d.digits
  let point : Int := ds.length + d.exponent
  if 0 ≤ d.exponent then ds ++ List.replicate d.exponent.toNat '0' ++ ['.', '0']
  else if 0 < point then ds.take point.toNat ++ '.' :: ds.drop point.toNat
  else '0' :: '.' :: (List.replicate (-point).toNat '0' ++ ds)

/-- A decimal with one digit before the point and an exponent. -/
def exponentText (plus : Bool) (d : Decimal) : List Char :=
  let ds := Nat.toDigits 10 d.digits
  let leading : Int := ds.length - 1 + d.exponent
  let fraction := match ds.drop 1 with
    | [] => []
    | rest => '.' :: rest
  let sign := if leading < 0 then ['-'] else if plus then ['+'] else []
  ds.take 1 ++ fraction ++ 'e' :: (sign ++ Nat.toDigits 10 leading.natAbs)

def text (style : Style) (x : Binary64) : List Char :=
  let d := shortest style.tie x
  let body :=
    if isPositional style ((digitCount d.digits : Int) - 1 + d.exponent) then positionalText d
    else exponentText style.plus d
  if x.negative then '-' :: body else body

end Decimal
end ResourceSearch
