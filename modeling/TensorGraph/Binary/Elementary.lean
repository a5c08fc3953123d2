import TensorGraph.Binary.Arithmetic

namespace TensorGraph.Binary

-- Evaluated in binary64 and rounded to the working format and then to the format. The last digits
-- are those of the machine's own routines.
def toMachine : Binary → Float
  | nan => 0.0 / 0.0
  | infinite s => if s then -1.0 / 0.0 else 1.0 / 0.0
  | finite s m q =>
    let x := Float.scaleB (Float.ofNat m) q
    if s then -x else x

def ofMachine (x : Float) : Binary :=
  let bits := x.toBits.toNat
  let s := decide (bits / Nat.pow 2 63 = 1)
  let e : Nat := bits / Nat.pow 2 52 % Nat.pow 2 11
  let m := bits % Nat.pow 2 52
  if e = 2047 then (if m = 0 then .infinite s else .nan)
  else if e = 0 then ofScaled s m (-1074)
  else ofScaled s (m + Nat.pow 2 52) ((e : Int) - 1075)

def elementary (f : Format) (g : Float → Float) (x : Binary) : Binary :=
  convert f (convert f.working (ofMachine (g (toMachine x))))

def exp (f : Format) : Binary → Binary := elementary f Float.exp
def log (f : Format) : Binary → Binary := elementary f Float.log
def tanh (f : Format) : Binary → Binary := elementary f Float.tanh

def pow (f : Format) (x y : Binary) : Binary :=
  elementary f (fun a => Float.pow a (toMachine y)) x

end TensorGraph.Binary
