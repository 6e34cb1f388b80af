import Depot.Json.Basic
import Depot.Text.Digits

/-! The compact text of a JSON value: no blanks, members in the order of the value, and escapes
only where a string cannot do without. -/

namespace Depot.Json

def escapeChar (c : Char) : List Char :=
  if c = '\x22' then ['\\', '\x22']
  else if c = '\\' then ['\\', '\\']
  else if c = '\x08' then ['\\', 'b']
  else if c = '\x0c' then ['\\', 'f']
  else if c = '\n' then ['\\', 'n']
  else if c = '\r' then ['\\', 'r']
  else if c = '\t' then ['\\', 't']
  else if c < ' ' then ['\\', 'u'] ++ Text.hexDigits 4 c.toNat
  else [c]

def stringChars (s : String) : List Char :=
  '\x22' :: s.toList.flatMap escapeChar ++ ['\x22']

mutual

/-- A value that is not whole has no text; what could not be read is left out. -/
def chars : Json → List Char
  | .null => "null".toList
  | .bool b => (if b then "true" else "false").toList
  | .number literal => literal.toList
  | .string s => stringChars s
  | .array items _ => '[' :: itemChars items ++ [']']
  | .object members _ => '\x7b' :: memberChars members ++ ['\x7d']
  | .flawed _ => []

def itemChars : List Json → List Char
  | [] => []
  | [v] => chars v
  | v :: rest => chars v ++ ',' :: itemChars rest

def memberChars : List (Except Flaw String × Json) → List Char
  | [] => []
  | [(key, v)] => keyChars key ++ ':' :: chars v
  | (key, v) :: rest => keyChars key ++ ':' :: chars v ++ ',' :: memberChars rest

def keyChars : Except Flaw String → List Char
  | .ok key => stringChars key
  | .error _ => []

end

def compact (v : Json) : String := String.ofList v.chars

end Depot.Json
