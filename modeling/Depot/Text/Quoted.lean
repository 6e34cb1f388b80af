import Depot.Text.Combining
import Depot.Text.Digits

/-! Quoted text in messages. A quoted text never holds a line break, an invisible character or a
mark that would merge with its quote; the delimiter and the backslash are escaped. -/

namespace Depot.Text

def codeEscape (c : Char) : List Char :=
  ['\\', 'u', '\x7b'] ++ Nat.toDigits 16 c.toNat ++ ['\x7d']

def escape (delimiter c : Char) : List Char :=
  if c = '\x00' then ['\\', '0']
  else if c = '\t' then ['\\', 't']
  else if c = '\r' then ['\\', 'r']
  else if c = '\n' then ['\\', 'n']
  else if c = '\\' ∨ c = delimiter then ['\\', c]
  else if extendsGrapheme c || !isPrintable c then codeEscape c
  else [c]

def quote (s : String) : String :=
  String.ofList ('\x22' :: s.toList.flatMap (escape '\x22') ++ ['\x22'])

def quoteChar (c : Char) : String :=
  String.ofList ('\x27' :: escape '\x27' c ++ ['\x27'])

/-- Items between square brackets, parted by a comma and a space. -/
def bracketed (items : List String) : String := "[" ++ String.intercalate ", " items ++ "]"

end Depot.Text
