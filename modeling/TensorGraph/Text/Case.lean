namespace TensorGraph.Text

-- Keywords are ASCII, so only characters whose capital or small form is ASCII matter; every other
-- character is left alone. The letters outside ASCII listed here have ASCII capitals.
def upperChar (c : Char) : List Char :=
  if c.val = 0x131 then ['I']
  else if c.val = 0x17F then ['S']
  else if c.val = 0xDF then ['S','S']
  else if c.val = 0xFB00 then ['F','F']
  else if c.val = 0xFB01 then ['F','I']
  else if c.val = 0xFB02 then ['F','L']
  else if c.val = 0xFB03 then ['F','F','I']
  else if c.val = 0xFB04 then ['F','F','L']
  else if c.val = 0xFB05 || c.val = 0xFB06 then ['S','T']
  else [c.toUpper]

-- The Kelvin sign has the ASCII letter `k` as its small form.
def lowerChar (c : Char) : Char := if c.val = 0x212A then 'k' else c.toLower

def upper (s : String) : String := String.ofList (s.toList.flatMap upperChar)
def lower (s : String) : String := String.ofList (s.toList.map lowerChar)

end TensorGraph.Text
