namespace TensorGraph

-- A format holds the numbers `m · 2 ^ q` with `m < 2 ^ precision` and `minExponent ≤ q ≤
-- maxExponent`.
structure Binary.Format where
  precision : Nat
  minExponent : Int
  maxExponent : Int
  deriving DecidableEq, Repr

namespace Binary.Format

def half : Format := ⟨11,-24,5⟩
def single : Format := ⟨24,-149,104⟩
def double : Format := ⟨53,-1074,971⟩

-- Format in which longer computations on `f` are carried out before the result is rounded.
def working (f : Format) : Format := if f.precision < single.precision then single else f

end Binary.Format

-- A number is kept as a sign, a significand and an exponent in lowest terms, so a number that
-- several formats share has one form, and two numbers are equal as data exactly when they are the
-- same datum of the format. All values that are not numbers are one.
inductive Binary where
  | nan
  | infinite (negative : Bool)
  | finite (negative : Bool) (significand : Nat) (exponent : Int)
  deriving DecidableEq, Repr, Inhabited

namespace Binary

def halveEven : Nat → Nat → Int → Nat × Int
  | 0,m,q => (m,q)
  | steps + 1,m,q => if m % 2 = 0 then halveEven steps (m / 2) (q + 1) else (m,q)

def ofScaled (negative : Bool) (m : Nat) (q : Int) : Binary :=
  if m = 0 then .finite negative 0 0
  else
    let (m,q) := halveEven m.log2 m q
    .finite negative m q

def zero : Binary := .finite false 0 0
def one : Binary := .finite false 1 0

def isNan : Binary → Bool
  | nan => true
  | _ => false

def isFinite : Binary → Bool
  | finite .. => true
  | _ => false

def isZero : Binary → Bool
  | finite _ 0 _ => true
  | _ => false

def isNegative : Binary → Bool
  | nan => false
  | infinite s => s
  | finite s _ _ => s

def neg : Binary → Binary
  | nan => nan
  | infinite s => infinite !s
  | finite s m q => finite (!s) m q

def abs : Binary → Binary
  | nan => nan
  | infinite _ => infinite false
  | finite _ m q => finite false m q

-- `± m · 2 ^ (q - base)`, exact when `base ≤ q`.
def scaledInt (negative : Bool) (m : Nat) (q base : Int) : Int :=
  let n : Int := Int.ofNat (m * Nat.pow 2 (q - base).toNat)
  if negative then -n else n

-- Order of two numbers; a value that is no number has none. The two zeros are equal.
def order? : Binary → Binary → Option Ordering
  | nan,_ => none
  | _,nan => none
  | infinite s,infinite t => some (compare t.toNat s.toNat)
  | infinite s,finite .. => some (if s then .lt else .gt)
  | finite ..,infinite t => some (if t then .gt else .lt)
  | finite s m q,finite t n r =>
    some (compare (scaledInt s m q (min q r)) (scaledInt t n r (min q r)))

def eq (x y : Binary) : Bool := order? x y == some .eq
def lt (x y : Binary) : Bool := order? x y == some .lt
def le (x y : Binary) : Bool := lt x y || eq x y

-- Whole part, toward zero; nothing for an infinity or a value that is no number.
def truncate? : Binary → Option Int
  | finite s m q =>
    let n : Int := Int.ofNat (m * Nat.pow 2 q.toNat / Nat.pow 2 (-q).toNat)
    some (if s then -n else n)
  | _ => none

end Binary

end TensorGraph
