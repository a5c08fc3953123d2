namespace TensorGraph

inductive Dim where
  | known (extent : Nat)
  | streaming
  | unknown
  deriving DecidableEq, Repr, Inhabited

abbrev Shape := List Nat
abbrev ShapeFact := List Dim

namespace Dim

def isKnown : Dim → Bool
  | known _ => true
  | _ => false

def isStreaming : Dim → Bool
  | streaming => true
  | _ => false

def isUnknown : Dim → Bool
  | unknown => true
  | _ => false

def extent? : Dim → Option Nat
  | known n => some n
  | _ => none

-- Whether an extent met at run time is allowed. A stream may have any length.
def accepts (d : Dim) (n : Nat) : Bool :=
  match d with
  | known k => k == n
  | _ => true

def text : Dim → String
  | known n => toString n
  | streaming => "S"
  | unknown => "?"

end Dim

namespace ShapeFact

def ofShape (s : Shape) : ShapeFact := s.map .known

def extents? (s : ShapeFact) : Option Shape := s.mapM Dim.extent?

def accepts (s : ShapeFact) (shape : Shape) : Bool :=
  s.length == shape.length && (s.zip shape).all fun (d,n) => d.accepts n

def text (s : ShapeFact) : String := "[" ++ ",".intercalate (s.map Dim.text) ++ "]"

def text? : Option ShapeFact → String
  | none => "[..]"
  | some s => text s

end ShapeFact

end TensorGraph
