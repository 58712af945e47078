/-!
# The shortest decimal that reads back

A positive binary number is a mantissa times a power of two, and between its neighbours lies the
interval of numbers that read as it. `shortest` looks for the coarsest decimal grid with a point in
that interval and takes the point nearest to the number, the upper one of two that are equally near.
All arithmetic is exact: a scale clears the fractions first.
-/

namespace ClassCatalog.Decimal

/-- A positive number `mantissa · 2 ^ exponent` and its distance, in quarters of the last place, to
the ends of the interval that reads as it; the ends belong to it if `closed`. -/
structure Binary where
  mantissa : Nat
  exponent : Int
  below : Nat
  above : Nat
  closed : Bool

/-- The decimal numeral `digits · 10 ^ exponent`. -/
structure Numeral where
  digits : Nat
  exponent : Int
  deriving DecidableEq, Repr

/-- A number and the ends of its interval as multiples of one unit, `den` of which make one. -/
structure Scaled where
  low : Nat
  value : Nat
  high : Nat
  den : Nat
  closed : Bool

/-- Clears the fractions. -/
def Binary.scaled (b : Binary) : Scaled :=
  let up := 1 <<< b.exponent.toNat
  let down := 1 <<< (-b.exponent).toNat
  { low := (4 * b.mantissa - b.below) * up
    value := 4 * b.mantissa * up
    high := (4 * b.mantissa + b.above) * up
    den := 4 * down
    closed := b.closed }

/-- Whether `n` units lie in the interval. -/
def Scaled.holds (s : Scaled) (n : Nat) : Bool :=
  if s.closed then s.low ≤ n && n ≤ s.high else s.low < n && n < s.high

/-- The point of the grid of multiples of `10 ^ exponent` that reads as the number and is nearest to
it, if there is one. -/
def Scaled.onGrid? (s : Scaled) (exponent : Int) : Option Nat :=
  let up := Nat.pow 10 exponent.toNat
  let down := Nat.pow 10 (-exponent).toNat
  -- One grid step is `step` units once all numbers are multiplied by `down`.
  let step := s.den * up
  let value := s.value * down
  let t : Scaled :=
    { s with low := s.low * down, value := value, high := s.high * down }
  let lower := value / step
  let upper := lower + 1
  let lowerOk := 0 < lower && t.holds (lower * step)
  let upperOk := t.holds (upper * step)
  if lowerOk && (!upperOk || value - lower * step < upper * step - value) then some lower
  else if upperOk then some upper
  else none

/-- The first hit on the grids from `exponent` downwards. -/
def Scaled.search (s : Scaled) : Nat → Int → Numeral
  | 0, exponent => ⟨0, exponent⟩
  | fuel + 1, exponent =>
    match s.onGrid? exponent with
    | some digits => ⟨digits, exponent⟩
    | none => s.search fuel (exponent - 1)

/-- An exponent of ten above every number of this size. -/
def Binary.topExponent (b : Binary) : Int :=
  -- 2 ^ k is below 10 ^ (k / 3 + 1), and for negative k below 10 ^ (k / 4 + 1).
  let k : Int := b.exponent + (Nat.log2 b.mantissa + 1 : Nat)
  (if 0 ≤ k then k / 3 else k / 4) + 1

/-- The shortest decimal in the interval of a number, and of the shortest the nearest. -/
def Binary.shortest (b : Binary) : Numeral :=
  b.scaled.search (b.topExponent.toNat + b.exponent.natAbs + 4) b.topExponent

/-- A numeral in positional notation, with no more zeros than its value needs. -/
def Numeral.positional (d : Numeral) : List Char :=
  let digits := Nat.toDigits 10 d.digits
  if 0 ≤ d.exponent then digits ++ List.replicate d.exponent.toNat '0'
  else
    let places := (-d.exponent).toNat
    if places < digits.length then
      digits.take (digits.length - places) ++ '.' :: digits.drop (digits.length - places)
    else '0' :: '.' :: List.replicate (places - digits.length) '0' ++ digits

end ClassCatalog.Decimal
