import TensorGraph.Fault
import TensorGraph.Text.Case
import TensorGraph.Text.Numeral

namespace TensorGraph.DType

-- What a type string stands for. Arrays know more types than tensors do.
inductive Stringed where
  | supported (dtype : DType)
  | unsupported (name : String)
  deriving DecidableEq, Repr

def customary : List (String × Stringed) :=
  let group (t : Stringed) (names : List String) := names.map (·,t)
  List.flatten [
    group (.supported .f16) ["half","e"],
    group (.supported .f32) ["single","f"],
    group (.supported .f64) ["double","float","d"],
    group (.supported .i8) ["byte","b"],
    group (.supported .i16) ["short","h"],
    group (.supported .i32) ["intc","i"],
    group (.supported .i64) ["int","int_","long","intp","longlong","l","q","p","n"],
    group (.supported .u8) ["ubyte","B"],
    group (.supported .u16) ["ushort","H"],
    group (.supported .u32) ["uintc","I"],
    group (.supported .u64) ["uint","ulong","uintp","ulonglong","L","Q","P","N"],
    group (.supported .bool) ["bool_","?"],
    group (.supported .string) ["str_","bytes","bytes_","U","S","c"],
    group (.supported .object) ["object_","O"],
    group (.unsupported "float128") ["longdouble","float128","g"],
    group (.unsupported "complex64") ["complex64","csingle","F"],
    group (.unsupported "complex128") ["complex128","complex","cdouble","D"],
    group (.unsupported "complex256") ["complex256","clongdouble","G"],
    group (.unsupported "datetime64") ["datetime64","M"],
    group (.unsupported "timedelta64") ["timedelta64","m"],
    group (.unsupported "|V0") ["void","V"]]

def ofLetterWidth? (letter : Char) (width : Nat) : Option Stringed :=
  match letter,width with
  | 'f',2 => some (.supported .f16)
  | 'f',4 => some (.supported .f32)
  | 'f',8 => some (.supported .f64)
  | 'f',16 => some (.unsupported "float128")
  | 'i',1 => some (.supported .i8)
  | 'i',2 => some (.supported .i16)
  | 'i',4 => some (.supported .i32)
  | 'i',8 => some (.supported .i64)
  | 'u',1 => some (.supported .u8)
  | 'u',2 => some (.supported .u16)
  | 'u',4 => some (.supported .u32)
  | 'u',8 => some (.supported .u64)
  | 'b',1 => some (.supported .bool)
  | 'O',8 => some (.supported .object)
  | 'c',8 => some (.unsupported "complex64")
  | 'c',16 => some (.unsupported "complex128")
  | 'c',32 => some (.unsupported "complex256")
  | 'M',8 => some (.unsupported "datetime64")
  | 'm',8 => some (.unsupported "timedelta64")
  | 'U',_ => some (.supported .string)
  | 'S',_ => some (.supported .string)
  | 'V',n => some (.unsupported s!"|V{n}")
  | _,_ => none

-- The meaning of a type string. A byte order mark in front does not change the type.
def stringed? (s : String) : Option Stringed :=
  match ofLongName? s with
  | some t => some (.supported t)
  | none =>
    match customary.lookup s with
    | some t => some t
    | none =>
      let cs := match s.toList with
        | c :: r => if c ∈ ['<','>','=','|'] && !r.isEmpty then r else c :: r
        | [] => []
      match cs with
      | [c] => if s.length = 2 then customary.lookup (String.singleton c) else none
      | c :: ds => if ds.all Char.isDigit then ofLetterWidth? c (Text.ofDigits ds) else none
      | [] => none

def ofTypeString (s : String) : Outcome DType :=
  match stringed? s with
  | some (.supported t) => .ok t
  | some (.unsupported name) => fail (.unsupportedElementType name)
  | none => fail (.unworded .type)

-- Short names in any case come first, then long names, then array type strings.
def read (s : String) : Outcome DType :=
  match ofName? (Text.upper s) with
  | some t => .ok t
  | none =>
    match ofLongName? s with
    | some t => .ok t
    | none => ofTypeString s

theorem read_name (t : DType) : read t.name = .ok t := by cases t <;> rfl

end TensorGraph.DType
