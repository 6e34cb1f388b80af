import Depot.Text.Digits

/-! Labels as parts of directory names. A label is free text; what is left of it is ASCII letters,
digits, `_` and `-`. A node id such as `0-6-4` is what tells labels apart, so the text between the
first five characters and the id gives way to one `_`. Two labels may end up the same. -/

namespace Depot.Label

def isSafe (c : Char) : Bool := c.isAlphanum || c = '_' || c = '-'

/-- Parentheses and dashes go, a colon becomes a dash, whatever else is unsafe becomes `_`. -/
def tidy (label : List Char) : List Char :=
  (label.filter fun c => c ≠ '(' ∧ c ≠ ')' ∧ c ≠ '-').map fun c =>
    if c = ':' then '-' else if isSafe c then c else '_'

/-- Digits, a dash and a digit: a dash-separated sequence of numbers starts here. -/
def startsId (s : List Char) : Bool :=
  match s.takeWhile Text.isDecimal, s.dropWhile Text.isDecimal with
  | _ :: _, '-' :: d :: _ => Text.isDecimal d
  | _, _ => false

/-- The longest tail of `s` that starts with a node id. -/
def fromId? : List Char → Option (List Char)
  | [] => none
  | c :: s => if startsId (c :: s) then some (c :: s) else fromId? s

def shorten (s : List Char) : List Char :=
  match fromId? (s.drop 5) with
  | some rest => s.take 5 ++ '_' :: rest
  | none => s

def sanitize (label : String) (limit : Nat) : String :=
  String.ofList ((shorten (tidy label.toList)).take limit)

end Depot.Label
