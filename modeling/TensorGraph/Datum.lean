import TensorGraph.Binary.Decimal
import TensorGraph.Fault
import TensorGraph.Text.Utf8

namespace TensorGraph

inductive Datum where
  | null
  | bool (b : Bool)
  | int (i : Int)
  | float (x : Binary)
  -- A float that is no number. The mark tells one such item of a list from another.
  | nan (mark : Nat)
  | text (s : String)
  | bytes (bs : List Nat)
  | list (items : List Datum)
  deriving Repr, Inhabited

namespace Datum

def boolText (b : Bool) : String := if b then "True" else "False"

def bytesText (bs : List Nat) : String :=
  let mark := Text.quoteMark (String.ofList (bs.map Char.ofNat))
  let byte (n : Nat) : List Char :=
    if 127 ≤ n then ['\\','x',Text.hexDigit (n / 16),Text.hexDigit (n % 16)]
    else Text.escapeChar mark (Char.ofNat n)
  String.ofList ('b' :: mark :: bs.flatMap byte ++ [mark])

mutual
def written : Datum → String
  | null => "None"
  | bool b => boolText b
  | int i => toString i
  | float x => x.text .double
  | nan _ => Binary.nan.text .double
  | text s => Text.quote s
  | bytes bs => bytesText bs
  | list items => Text.bracketed (writtenItems items)
def writtenItems : List Datum → List String
  | [] => []
  | d :: ds => written d :: writtenItems ds
end

def shown : Datum → String
  | text s => s
  | d => written d

-- The number a value stands for. Truth values are the numbers 0 and 1.
inductive Number where
  | int (i : Int)
  | float (x : Binary)

def number? : Datum → Option Number
  | bool b => some (.int b.toNat)
  | int i => some (.int i)
  | float x => some (.float x)
  | nan _ => some (.float .nan)
  | _ => none

-- Whether two items are one and the same: such items need not be equal to themselves.
def identical : Datum → Datum → Bool
  | nan m,nan n => m == n
  | float x,float y => x.isNan && y.isNan
  | _,_ => false

def Number.same : Number → Number → Bool
  | .int i,.int j => i == j
  | .float x,.float y => Binary.eq x y
  | .int i,.float y => Binary.eq (Binary.ofScaled (decide (i < 0)) i.natAbs 0) y
  | .float x,.int j => Binary.eq x (Binary.ofScaled (decide (j < 0)) j.natAbs 0)

mutual
-- Equality of values: numbers by what they stand for, so a value that is no number differs from
-- itself; lists item by item, where one and the same item counts as equal.
def same : Datum → Datum → Bool
  | null,e => match e with | null => true | _ => false
  | text s,e => match e with | text t => s == t | _ => false
  | bytes s,e => match e with | bytes t => s == t | _ => false
  | list xs,e => match e with | list ys => sameItems xs ys | _ => false
  | bool b,e => match number? e with | some n => Number.same (.int b.toNat) n | none => false
  | int i,e => match number? e with | some n => Number.same (.int i) n | none => false
  | float x,e => match number? e with | some n => Number.same (.float x) n | none => false
  | nan _,_ => false
def sameItems : List Datum → List Datum → Bool
  | [],ys => ys.isEmpty
  | x :: xs,ys =>
    match ys with | y :: ys => (identical x y || same x y) && sameItems xs ys | [] => false
end

def truthy : Datum → Bool
  | null => false
  | bool b => b
  | int i => i != 0
  | float x => !x.isZero
  | nan _ => true
  | text s => !s.isEmpty
  | bytes bs => !bs.isEmpty
  | list items => !items.isEmpty

-- Text of bytes read as a numeral; bytes outside ASCII spoil it.
def ofBytes (bs : List Nat) : String := (Text.decodeAscii? bs).getD "?"

def toInt : Datum → Outcome Int
  | null | list _ => fail (.unworded .type)
  | bool b => .ok b.toNat
  | int i => .ok i
  | float x =>
    match x with
    | .nan => fail (.unworded .value)
    | .infinite _ => fail (.unworded .overflow)
    | _ => .ok (x.truncate?.getD 0)
  | nan _ => fail (.unworded .value)
  | text s => match Text.integer? s with | some i => .ok i | none => fail (.unworded .value)
  | bytes bs =>
    match Text.integer? (ofBytes bs) with | some i => .ok i | none => fail (.unworded .value)

def toDouble : Datum → Outcome Binary
  | null | list _ => fail (.unworded .type)
  | bool b => .ok (if b then .one else .zero)
  | int i =>
    match Binary.ofInt .double i with
    | .infinite _ => fail (.unworded .overflow)
    | x => .ok x
  | float x => .ok x
  | nan _ => .ok .nan
  | text s => ofText s
  | bytes bs => ofText (ofBytes bs)
where
  ofText (s : String) : Outcome Binary :=
    match Text.real? s with
    | some n => .ok (Binary.ofNumeral .double n)
    | none => fail (.unworded .value)

def items : Datum → Outcome (List Datum)
  | list xs => .ok xs
  | text s => .ok (s.toList.map fun c => text (String.singleton c))
  | bytes bs => .ok (bs.map fun b => int (Int.ofNat b))
  | _ => fail (.unworded .type)

end Datum

end TensorGraph
