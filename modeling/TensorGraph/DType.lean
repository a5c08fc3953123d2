import TensorGraph.Binary.Basic

namespace TensorGraph

inductive DType where
  | f16 | f32 | f64
  | i8 | i16 | i32 | i64
  | u8 | u16 | u32 | u64
  | bool | string | object
  deriving DecidableEq, Repr, Inhabited

inductive Layout where
  | float (format : Binary.Format)
  | integer (signed : Bool) (bits : Nat)
  | bool
  | text
  | object
  deriving DecidableEq, Repr

namespace DType

def all : List DType :=
  [f16,f32,f64,i8,i16,i32,i64,u8,u16,u32,u64,bool,string,object]

def name : DType → String
  | f16 => "F16" | f32 => "F32" | f64 => "F64"
  | i8 => "I8" | i16 => "I16" | i32 => "I32" | i64 => "I64"
  | u8 => "U8" | u16 => "U16" | u32 => "U32" | u64 => "U64"
  | bool => "BOOL" | string => "STRING" | object => "OPAQUE"

def longName : DType → String
  | f16 => "float16" | f32 => "float32" | f64 => "float64"
  | i8 => "int8" | i16 => "int16" | i32 => "int32" | i64 => "int64"
  | u8 => "uint8" | u16 => "uint16" | u32 => "uint32" | u64 => "uint64"
  | bool => "bool" | string => "str" | object => "object"

def layout : DType → Layout
  | f16 => .float .half | f32 => .float .single | f64 => .float .double
  | i8 => .integer true 8 | i16 => .integer true 16 | i32 => .integer true 32 | i64 => .integer true 64
  | u8 => .integer false 8 | u16 => .integer false 16 | u32 => .integer false 32
  | u64 => .integer false 64
  | bool => .bool | string => .text | object => .object

def letter (t : DType) : String :=
  match t.layout with
  | .float _ => "f"
  | .integer true _ => "i"
  | .integer false _ => "u"
  | .bool => "b"
  | .text => "U"
  | .object => "O"

def isFloat (t : DType) : Bool := match t.layout with | .float _ => true | _ => false
def isInteger (t : DType) : Bool := match t.layout with | .integer .. => true | _ => false
def isNumeric (t : DType) : Bool := t.isFloat || t.isInteger
def isSigned (t : DType) : Bool :=
  match t.layout with
  | .float _ => true
  | .integer s _ => s
  | _ => false

def ofName? (s : String) : Option DType := all.find? (·.name == s)
def ofLongName? (s : String) : Option DType := all.find? (·.longName == s)

theorem ofName?_name (t : DType) : ofName? t.name = some t := by cases t <;> decide
theorem ofLongName?_longName (t : DType) : ofLongName? t.longName = some t := by cases t <;> decide

def signed (bits : Nat) : DType := if bits = 8 then i8 else if bits = 16 then i16 else if bits = 32 then i32 else i64
def unsigned (bits : Nat) : DType := if bits = 8 then u8 else if bits = 16 then u16 else if bits = 32 then u32 else u64

-- Least float type that holds every integer of the width, or nearly so for the widest.
def floatFor (bits : Nat) : DType := if bits = 8 then f16 else if bits = 16 then f32 else f64

def widerFloat (a b : DType) : DType :=
  match a.layout,b.layout with
  | .float f,.float g => if f.precision < g.precision then b else a
  | _,_ => a

-- Least type two numeric types promote to; truth values promote to anything. A signed and an
-- unsigned type meet in the signed type that holds both, or in binary64 when there is none.
def promote (a b : DType) : DType :=
  match a.layout,b.layout with
  | .bool,_ => b
  | _,.bool => a
  | .float _,.float _ => widerFloat a b
  | .float _,.integer _ n => widerFloat a (floatFor n)
  | .integer _ n,.float _ => widerFloat b (floatFor n)
  | .integer s n,.integer t k =>
    if s = t then (if s then signed (max n k) else unsigned (max n k))
    else
      let whole := if s then n else k
      let natural := if s then k else n
      if natural < whole then signed whole
      else if natural < 64 then signed (2 * natural)
      else f64
  | _,_ => a

-- Common promotion of several types. Once a float takes part, every integer meets the floats on its
-- own, and the widest float that comes out is the answer.
def promoteAll (first : DType) (rest : List DType) : DType :=
  let types := first :: rest
  match types.filter isFloat with
  | [] => rest.foldl promote first
  | f :: floats => types.foldl (fun acc t => widerFloat acc (promote f t)) (floats.foldl widerFloat f)

-- Least type that every given type promotes to. Types without numeric meaning promote only to
-- themselves.
def superType? : List DType → Option DType
  | [] => none
  | t :: rest =>
    if rest.all (· == t) then some t
    else if (t :: rest).all fun u => u.isNumeric || u == .bool then some (promoteAll t rest)
    else none

end DType

end TensorGraph
