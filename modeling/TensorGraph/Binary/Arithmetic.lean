import TensorGraph.Binary.Rounding

namespace TensorGraph.Binary

-- The exact integer `i`, counted in units of `2 ^ q`. A sum that cancels is a positive zero.
def roundScaled (f : Format) (i : Int) (q : Int) : Binary :=
  if i = 0 then zero else round f (decide (i < 0)) i.natAbs 1 q

def add (f : Format) : Binary → Binary → Binary
  | nan,_ => nan
  | _,nan => nan
  | infinite s,infinite t => if s = t then infinite s else nan
  | infinite s,finite .. => infinite s
  | finite ..,infinite t => infinite t
  | finite s m q,finite t n r =>
    if m = 0 && n = 0 then finite (s && t) 0 0
    else roundScaled f (scaledInt s m q (min q r) + scaledInt t n r (min q r)) (min q r)

def sub (f : Format) (x y : Binary) : Binary := add f x y.neg

def mul (f : Format) : Binary → Binary → Binary
  | nan,_ => nan
  | _,nan => nan
  | infinite s,infinite t => infinite (s != t)
  | infinite s,finite t n _ => if n = 0 then nan else infinite (s != t)
  | finite s m _,infinite t => if m = 0 then nan else infinite (s != t)
  | finite s m q,finite t n r => round f (s != t) (m * n) 1 (q + r)

def div (f : Format) : Binary → Binary → Binary
  | nan,_ => nan
  | _,nan => nan
  | infinite _,infinite _ => nan
  | infinite s,finite t _ _ => infinite (s != t)
  | finite s _ _,infinite t => finite (s != t) 0 0
  | finite s m q,finite t n r =>
    if n = 0 then (if m = 0 then nan else infinite (s != t))
    else round f (s != t) m n (q - r)

-- Largest `r` with `r * r ≤ n`, two bits of `n` at each step; `steps` covers half its bits.
def floorSqrt : Nat → Nat → Nat
  | 0,_ => 0
  | steps + 1,n =>
    let r := 2 * floorSqrt steps (n / 4)
    if (r + 1) * (r + 1) ≤ n then r + 1 else r

-- Square root. The root is taken with more bits than the format holds; a last bit marks a
-- remainder, which is all that rounding can see of it.
def sqrt (f : Format) : Binary → Binary
  | nan => nan
  | infinite s => if s then nan else infinite false
  | finite s m q =>
    if m = 0 then finite s 0 0
    else if s then nan
    else
      let (m,q) := if q % 2 = 0 then (m,q) else (2 * m,q - 1)
      let n := m * Nat.pow 4 (f.precision + 2)
      let r := floorSqrt (n.log2 / 2 + 1) n
      let r := 2 * r + (if r * r = n then 0 else 1)
      round f false r 1 (q / 2 - (f.precision + 2 : Nat) - 1)

def reciprocal (f : Format) (x : Binary) : Binary := div f one x

-- Remainder of the truncated quotient; it has the sign of the dividend.
def truncatedRem : Binary → Binary → Binary
  | nan,_ => nan
  | _,nan => nan
  | infinite _,_ => nan
  | finite s m q,infinite _ => finite s m q
  | finite s m q,finite _ n r =>
    if n = 0 then nan
    else
      let base := min q r
      ofScaled s (m * Nat.pow 2 (q - base).toNat % (n * Nat.pow 2 (r - base).toNat)) base

-- Remainder of the floored quotient: zero or of the divisor's sign.
def flooredRem (f : Format) (x y : Binary) : Binary :=
  match truncatedRem x y with
  | nan => nan
  | r =>
    if r.isZero then (if y.isNegative then zero.neg else zero)
    else if r.isNegative != y.isNegative then add f r y
    else r

-- The larger number; a value that is no number prevails, and on equality `tie` decides.
def maxWith (tie : Binary → Binary → Binary) (x y : Binary) : Binary :=
  if x.isNan then x else if y.isNan then y
  else if lt y x then x else if lt x y then y else tie x y

def minWith (tie : Binary → Binary → Binary) (x y : Binary) : Binary :=
  if x.isNan then x else if y.isNan then y
  else if lt x y then x else if lt y x then y else tie x y

-- Which of two equal operands a selection returns: the first in the half format, else the second.
-- It matters for zeros of opposite sign.
def selectEqual (f : Format) (x y : Binary) : Binary :=
  if f.precision < Format.single.precision then x else y

def maximum (f : Format) (x y : Binary) : Binary := maxWith (selectEqual f) x y
def minimum (f : Format) (x y : Binary) : Binary := minWith (selectEqual f) x y

-- Largest whole number not above. The sign of a zero result is the operand's.
def floor : Binary → Binary
  | finite s m q =>
    let d := Nat.pow 2 (-q).toNat
    if 0 ≤ q then finite s m q
    else ofScaled s (if s then (m + d - 1) / d else m / d) 0
  | x => x

def ceil (x : Binary) : Binary := (floor x.neg).neg

end TensorGraph.Binary
