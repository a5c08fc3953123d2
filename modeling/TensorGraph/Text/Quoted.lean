namespace TensorGraph.Text

def hexDigit (n : Nat) : Char := Char.ofNat (if n < 10 then 48 + n else 87 + n)

-- A single quote encloses the text unless the text holds single quotes and no double ones.
def quoteMark (s : String) : Char :=
  if s.toList.contains '\'' && !s.toList.contains '"' then '"' else '\''

-- One character inside quotes `mark`. Only ASCII control characters need a numeric escape here.
def escapeChar (mark : Char) (c : Char) : List Char :=
  if c = '\\' then ['\\','\\']
  else if c = mark then ['\\',c]
  else if c = '\n' then ['\\','n']
  else if c = '\t' then ['\\','t']
  else if c = '\r' then ['\\','r']
  else if c.toNat < 32 || c.toNat = 127 then
    ['\\','x',hexDigit (c.toNat / 16),hexDigit (c.toNat % 16)]
  else [c]

def quote (s : String) : String :=
  let mark := quoteMark s
  String.ofList (mark :: s.toList.flatMap (escapeChar mark) ++ [mark])

def bracketed (items : List String) : String := "[" ++ ", ".intercalate items ++ "]"

-- Items between round brackets; a single item keeps a trailing comma.
def parenthesised : List String → String
  | [x] => "(" ++ x ++ ",)"
  | items => "(" ++ ", ".intercalate items ++ ")"

end TensorGraph.Text
