import TensorGraph.Binary.Basic
import TensorGraph.Text.Numeral

namespace TensorGraph.Binary

-- Nearest whole number to `num / den`; a half goes to the even neighbour.
def roundQuotient (num den : Nat) : Nat :=
  let k := num / den
  let r := num % den
  if 2 * r < den then k else if den < 2 * r then k + 1 else k + k % 2

-- The `e` with `2 ^ e ≤ num / den < 2 ^ (e + 1)`, both positive.
def log2Quotient (num den : Nat) : Int :=
  let e : Int := (num.log2 : Int) - den.log2
  if num * Nat.pow 2 (-e).toNat < den * Nat.pow 2 e.toNat then e - 1 else e

-- To nearest, ties to even, with gradual underflow, and overflow to infinity. Integers, decimals
-- and other formats all go through this one function.
def round (f : Format) (negative : Bool) (num den : Nat) (scale : Int) : Binary :=
  if num = 0 then .finite negative 0 0
  else
    let q := max f.minExponent (log2Quotient num den + scale - f.precision + 1)
    let m := roundQuotient (num * Nat.pow 2 (scale - q).toNat) (den * Nat.pow 2 (q - scale).toNat)
    if f.maxExponent < q || (q == f.maxExponent && m == Nat.pow 2 f.precision) then .infinite negative
    else ofScaled negative m q

def ofInt (f : Format) (i : Int) : Binary := round f (decide (i < 0)) i.natAbs 1 0

def convert (f : Format) : Binary → Binary
  | finite s m q => round f s m 1 q
  | x => x

-- Decimal exponents past this bound overflow or underflow every format.
def decimalBound : Int := 1000

def ofDecimal (f : Format) (negative : Bool) (coefficient : Nat) (exponent : Int) : Binary :=
  let magnitude : Int := (coefficient.log2 : Int) * 3 / 10 + exponent
  if coefficient = 0 then .finite negative 0 0
  else if decimalBound < magnitude then .infinite negative
  else if magnitude < -decimalBound then .finite negative 0 0
  else round f negative (coefficient * Nat.pow 10 exponent.toNat) (Nat.pow 10 (-exponent).toNat) 0

def ofNumeral (f : Format) : Text.Numeral → Binary
  | .nan => nan
  | .infinity s => infinite s
  | .decimal s c e => ofDecimal f s c e

end TensorGraph.Binary
