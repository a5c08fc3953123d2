namespace TensorGraph.Text

def continuation? (b : Nat) : Option Nat := if 0x80 ≤ b && b < 0xC0 then some (b - 0x80) else none

-- A scalar value within bounds, as a character; surrogates are none.
def scalar? (low n : Nat) : Option Char :=
  if h : n.isValidChar then if low ≤ n then some (Char.ofNatAux n h) else none else none

def charAt? : List Nat → Option (Char × Nat)
  | [] => none
  | b :: r =>
    if b < 0x80 then some (Char.ofNat b,1)
    else match r with
    | c :: r =>
      if 0xC0 ≤ b && b < 0xE0 then do
        let x ← continuation? c
        (scalar? 0x80 ((b - 0xC0) * 64 + x)).map (·,2)
      else match r with
      | d :: r =>
        if 0xE0 ≤ b && b < 0xF0 then do
          let x ← continuation? c
          let y ← continuation? d
          (scalar? 0x800 (((b - 0xE0) * 64 + x) * 64 + y)).map (·,3)
        else match r with
        | e :: _ =>
          if 0xF0 ≤ b && b < 0xF8 then do
            let x ← continuation? c
            let y ← continuation? d
            let z ← continuation? e
            (scalar? 0x10000 ((((b - 0xF0) * 64 + x) * 64 + y) * 64 + z)).map (·,4)
          else none
        | [] => none
      | [] => none
    | [] => none

-- Bytes that belong to no well-formed character are dropped.
def decodeChars : Nat → List Nat → List Char
  | 0,_ => []
  | _ + 1,[] => []
  | n + 1,b :: r =>
    match charAt? (b :: r) with
    | some (c,k) => c :: decodeChars n ((b :: r).drop k)
    | none => decodeChars n r

def decodeUtf8 (bytes : List Nat) : String := String.ofList (decodeChars bytes.length bytes)

def decodeAscii? (bytes : List Nat) : Option String :=
  if bytes.all (· < 128) then some (String.ofList (bytes.map Char.ofNat)) else none

end TensorGraph.Text
