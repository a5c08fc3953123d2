import TensorGraph.Text.Blank
import TensorGraph.Text.Case

namespace TensorGraph.Text

-- The zero digits of Unicode; the other nine digits of a script follow its zero.
def zeroDigits : List Nat :=
  [0x30,0x660,0x6F0,0x7C0,0x966,0x9E6,0xA66,0xAE6,0xB66,0xBE6,0xC66,0xCE6,0xD66,0xDE6,
   0xE50,0xED0,0xF20,0x1040,0x1090,0x17E0,0x1810,0x1946,0x19D0,0x1A80,0x1A90,0x1B50,
   0x1BB0,0x1C40,0x1C50,0xA620,0xA8D0,0xA900,0xA9D0,0xA9F0,0xAA50,0xABF0,0xFF10,0x104A0,
   0x10D30,0x11066,0x110F0,0x11136,0x111D0,0x112F0,0x11450,0x114D0,0x11650,0x116C0,
   0x11730,0x118E0,0x11950,0x11C50,0x11D50,0x11DA0,0x16A60,0x16AC0,0x16B50,0x1D7CE,
   0x1D7D8,0x1D7E2,0x1D7EC,0x1D7F6,0x1E140,0x1E2F0,0x1E950,0x1FBF0]

def digit? (c : Char) : Option Nat :=
  (zeroDigits.find? fun z => z ≤ c.toNat && c.toNat < z + 10).map (c.toNat - ·)

def isDigit (c : Char) : Bool := (digit? c).isSome

-- Underscores between two digits carry no meaning; any other one stays and spoils the numeral.
def joinDigits : List Char → List Char
  | a :: '_' :: b :: r =>
    if isDigit a && isDigit b then a :: joinDigits (b :: r) else a :: joinDigits ('_' :: b :: r)
  | a :: r => a :: joinDigits r
  | [] => []

def ofDigits (cs : List Char) : Nat := cs.foldl (fun n c => 10 * n + (digit? c).getD 0) 0

def sign : List Char → Bool × List Char
  | '-' :: r => (true,r)
  | '+' :: r => (false,r)
  | r => (false,r)

-- Blanks around a numeral are allowed, single underscores may stand between digits, and a digit may
-- come from any script.
def integer? (s : String) : Option Int :=
  let (negative,ds) := sign (joinDigits (trim s.toList))
  if ds.isEmpty || !ds.all isDigit then none
  else some (if negative then -(ofDigits ds : Int) else ofDigits ds)

inductive Numeral where
  | nan
  | infinity (negative : Bool)
  | decimal (negative : Bool) (coefficient : Nat) (exponent : Int)
  deriving DecidableEq, Repr

def exponent? : List Char → Option Int
  | [] => some 0
  | e :: r =>
    if e = 'e' || e = 'E' then
      let (negative,ds) := sign r
      if ds.isEmpty || !ds.all isDigit then none
      else some (if negative then -(ofDigits ds : Int) else ofDigits ds)
    else none

def fraction? (negative : Bool) (cs : List Char) : Option Numeral :=
  let whole := cs.takeWhile isDigit
  let rest := cs.dropWhile isDigit
  let (part,tail) := match rest with
    | '.' :: r => (r.takeWhile isDigit,r.dropWhile isDigit)
    | r => ([],r)
  if whole.isEmpty && part.isEmpty then none
  else (exponent? tail).map fun e =>
    .decimal negative (ofDigits (whole ++ part)) (e - part.length)

def real? (s : String) : Option Numeral :=
  let (negative,cs) := sign (joinDigits (trim s.toList))
  let word := String.ofList (cs.map Char.toLower)
  if word = "inf" || word = "infinity" then some (.infinity negative)
  else if word = "nan" then some .nan
  else fraction? negative cs

end TensorGraph.Text
