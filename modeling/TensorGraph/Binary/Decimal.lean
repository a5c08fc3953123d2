import TensorGraph.Binary.Rounding

namespace TensorGraph.Binary

def compareDecimal (a : Nat) (s : Int) (d : Nat) (t : Int) : Ordering :=
  compare (a * Nat.pow 2 s.toNat * Nat.pow 10 (-t).toNat)
    (d * Nat.pow 10 t.toNat * Nat.pow 2 (-s).toNat)

-- The `e` with `10 ^ e ≤ m · 2 ^ q < 10 ^ (e + 1)`, for positive `m`.
def log10 (m : Nat) (q : Int) : Int :=
  let e := (m.log2 + q) * 30103 / 100000
  if compareDecimal m q 1 e == .lt then e - 1
  else if compareDecimal m q 1 (e + 1) != .lt then e + 1
  else e

def decimalQuotient (m : Nat) (q t : Int) : Nat × Nat :=
  (m * Nat.pow 2 q.toNat * Nat.pow 10 (-t).toNat,Nat.pow 2 (-q).toNat * Nat.pow 10 t.toNat)

-- The numbers that round to a given one: `center`, `low` and `high` in units of `2 ^ unit`, with
-- the ends included when `closed`.
structure Cell where
  low : Nat
  center : Nat
  high : Nat
  unit : Int
  closed : Bool

-- Cell of `m · 2 ^ q`. Below a power of two the neighbour is half as far.
def Format.cell (f : Format) (m : Nat) (q : Int) : Cell :=
  let place := max f.minExponent (m.log2 + q - f.precision + 1)
  let k := m * Nat.pow 2 (q - place).toNat
  let low := if k = Nat.pow 2 (f.precision - 1) && f.minExponent < place then 4 * k - 1 else 4 * k - 2
  ⟨low,4 * k,4 * k + 2,place - 2,k % 2 = 0⟩

def Cell.holds (c : Cell) (d : Nat) (t : Int) : Bool :=
  let below := compareDecimal c.low c.unit d t
  let above := compareDecimal c.high c.unit d t
  (below == .lt || (below == .eq && c.closed)) && (above == .gt || (above == .eq && c.closed))

-- The grid point of `10 ^ t` next to the center that lies in the cell; of two, the nearer one.
def Cell.point? (c : Cell) (t : Int) : Option Nat :=
  let (num,den) := decimalQuotient c.center c.unit t
  let d := num / den
  match c.holds d t,c.holds (d + 1) t with
  | true,true => some (roundQuotient num den)
  | true,false => some d
  | false,true => some (d + 1)
  | false,false => none

-- First of `count` ever finer grids, from `10 ^ t` on, with a point in the cell.
def Cell.coarsest (c : Cell) : Nat → Int → Nat × Int
  | 0,t => (c.center,t)
  | count + 1,t =>
    match c.point? t with
    | some d => (d,t)
    | none => Cell.coarsest c count (t - 1)

-- Decimal text has the fewest digits that read back as the same number of the format, or a fixed
-- count of digits. All comparisons on the way are between exact integers.
def Format.shortest (f : Format) (m : Nat) (q : Int) : Nat × Int :=
  (f.cell m q).coarsest 20 (log10 m q)

-- Where positional notation ends, and the least count of digits of an exponent.
structure DecimalStyle where
  lowest : Int
  limit : Int
  exponentDigits : Nat

-- Positional from `10 ^ -4` up to below `10 ^ 16`; exponents have at least two digits.
def DecimalStyle.plain : DecimalStyle := ⟨-4,16,2⟩

def padLeft (n : Nat) (cs : List Char) : List Char := List.replicate (n - cs.length) '0' ++ cs

def exponentText (width : Nat) (e : Int) : List Char :=
  'e' :: (if e < 0 then '-' else '+') :: padLeft width (Nat.toDigits 10 e.natAbs)

def significant (ds : List Char) : List Char :=
  match (ds.reverse.dropWhile (· == '0')).reverse with
  | [] => ['0']
  | kept => kept

-- Digits of a number whose first digit stands at `10 ^ e`. A positional number always shows a digit
-- after the point.
def DecimalStyle.layout (style : DecimalStyle) (ds : List Char) (e : Int) : List Char :=
  if style.lowest ≤ e && e < style.limit then
    if 0 ≤ e then
      let n := e.toNat + 1
      let whole := ds.take n ++ List.replicate (n - ds.length) '0'
      whole ++ '.' :: (if ds.length ≤ n then ['0'] else ds.drop n)
    else '0' :: '.' :: List.replicate ((-e).toNat - 1) '0' ++ ds
  else match ds with
    | [d] => d :: exponentText style.exponentDigits e
    | d :: rest => d :: '.' :: rest ++ exponentText style.exponentDigits e
    | [] => []

def signed (negative : Bool) (cs : List Char) : String :=
  String.ofList (if negative then '-' :: cs else cs)

def text (f : Format) : Binary → String
  | nan => "nan"
  | infinite s => signed s "inf".toList
  | finite s m q =>
    if m = 0 then signed s (DecimalStyle.plain.layout ['0'] 0)
    else
      let (d,t) := f.shortest m q
      let ds := Nat.toDigits 10 d
      signed s (DecimalStyle.plain.layout (significant ds) (t + ds.length - 1))

def scientific (places : Nat) : Binary → String
  | nan => "nan"
  | infinite s => signed s "inf".toList
  | finite s m q =>
    let (d,e) :=
      if m = 0 then (0,0)
      else
        let e := log10 m q
        let (num,den) := decimalQuotient m q (e - places)
        let d := roundQuotient num den
        if d = Nat.pow 10 (places + 1) then (d / 10,e + 1) else (d,e)
    let ds := padLeft (places + 1) (Nat.toDigits 10 d)
    let tail := exponentText DecimalStyle.plain.exponentDigits e
    match ds with
    | c :: [] => signed s (c :: tail)
    | c :: rest => signed s (c :: '.' :: rest ++ tail)
    | [] => ""

end TensorGraph.Binary
