import ClassCatalog.Decimal.Shortest

/-!
# Binary interchange numbers

A number of the standard's 32- or 64-bit formats is kept as its bits. Here are the comparison of two
such numbers, in which a NaN equals nothing and the two zeros are one, and their decimal text: the
fewest digits that read back, always in positional notation.
-/

namespace ClassCatalog.Decimal

/-- The widths of the fields of a format. -/
structure Format where
  mantissaBits : Nat
  exponentBits : Nat

namespace Format

def single : Format := ⟨23, 8⟩

def double : Format := ⟨52, 11⟩

variable (f : Format)

/-- The stored mantissa, without the implied bit. -/
def mantissa (bits : Nat) : Nat := bits % (1 <<< f.mantissaBits)

/-- The stored exponent, with its bias. -/
def biasedExponent (bits : Nat) : Nat := (bits >>> f.mantissaBits) % (1 <<< f.exponentBits)

def isNegative (bits : Nat) : Bool := bits.testBit (f.mantissaBits + f.exponentBits)

/-- Whether the exponent is the largest, that of the infinities and NaNs. -/
def isSpecial (bits : Nat) : Bool := f.biasedExponent bits == (1 <<< f.exponentBits) - 1

/-- Whether these bits are no number. -/
def isNaN (bits : Nat) : Bool := f.isSpecial bits && f.mantissa bits != 0

/-- Whether these bits are a zero of either sign. -/
def isZero (bits : Nat) : Bool := f.biasedExponent bits == 0 && f.mantissa bits == 0

/-- Equality of numbers: a NaN equals nothing, the two zeros equal each other. -/
def same (a b : Nat) : Bool :=
  !f.isNaN a && !f.isNaN b && (a == b || (f.isZero a && f.isZero b))

/-- The magnitude of finite bits other than zero. The interval below a power of two is half as wide
as the one above. -/
def toBinary (bits : Nat) : Binary :=
  let m := f.mantissa bits
  let e := f.biasedExponent bits
  let bias : Int := ((1 <<< (f.exponentBits - 1)) - 1 + f.mantissaBits : Nat)
  if e = 0 then
    { mantissa := m, exponent := 1 - bias, below := 2, above := 2, closed := true }
  else
    { mantissa := (1 <<< f.mantissaBits) + m, exponent := e - bias
      below := if m = 0 then 1 else 2, above := 2, closed := m % 2 == 0 }

/-- The text of a number: the fewest digits that read back, in positional notation. -/
def text (bits : Nat) : String :=
  if f.isNaN bits then "NaN"
  else
    let magnitude :=
      if f.isSpecial bits then ['i', 'n', 'f']
      else if f.isZero bits then ['0']
      else (f.toBinary bits).shortest.positional
    String.ofList (if f.isNegative bits then '-' :: magnitude else magnitude)

end Format

end ClassCatalog.Decimal
