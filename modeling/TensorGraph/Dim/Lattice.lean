import TensorGraph.Datum
import TensorGraph.Text.Case

namespace TensorGraph

namespace Dim

-- An open extent is below every other, and all others are incomparable: a stream is not a number.
def unify (a b : Dim) : Outcome Dim :=
  if a = b || b.isUnknown then .ok a
  else if a.isUnknown then .ok b
  else fail (.dimConflict a b)

def ofInt (i : Int) : Outcome Dim :=
  if 0 ≤ i then .ok (.known i.toNat) else fail (.negativeExtent (toString i))

def knownOf (d : Datum) : Outcome Dim := do ofInt (← d.toInt)

-- An extent as callers write it: nothing or a mark for an open one, a word for a stream.
def ofDatum : Datum → Outcome Dim
  | .null => .ok .unknown
  | .text s =>
    if Text.upper s ∈ ["S","STREAMING"] then .ok .streaming
    else if s ∈ ["?","_"] then .ok .unknown
    else fail (.unreadableDim (Text.quote s))
  | d => knownOf d

def make (kind : String) (value : Datum) : Outcome Dim :=
  if kind = "known" then
    match value with
    | .bool b => .ok (.known b.toNat)
    | .int i => ofInt i
    | d => fail (.negativeExtent d.written)
  else if kind = "streaming" || kind = "unknown" then
    match value with
    | .null => .ok (if kind = "streaming" then .streaming else .unknown)
    | _ => fail (.extentOnOpenDim kind)
  else fail (.unworded .value)

end Dim

namespace ShapeFact

def ofDatum (d : Datum) : Outcome (Option ShapeFact) :=
  match d with
  | .null => .ok none
  | d => do return some (← (← d.items).mapM Dim.ofDatum)

-- The shape that agrees with both; unknown ones agree with everything.
def unify (a b : Option ShapeFact) : Outcome (Option ShapeFact) :=
  match a,b with
  | none,b => .ok b
  | a,none => .ok a
  | some s,some t =>
    if s.length ≠ t.length then fail (.rankConflict s t)
    else match (s.zip t).mapM fun (x,y) => x.unify y with
    | .ok dims => .ok (some dims)
    | .error _ => fail (.shapeConflict s t)

end ShapeFact

end TensorGraph
