import Depot.Text.Quoted

/-! Paths as texts. A path is kept as it was written; nothing here looks at what exists. -/

namespace Depot

structure Path where
  text : String
  deriving DecidableEq

namespace Path

def isAbsolute (p : Path) : Bool := p.text.toList.head? = some '/'

def endsWithSlash (p : Path) : Bool := p.text.toList.getLast? = some '/'

/-- Puts a separator between unless there is one or nothing to part; an absolute path on the
right stands alone. -/
def join (p q : Path) : Path :=
  if q.isAbsolute then q
  else if p.text = "" ∨ p.endsWithSlash then ⟨p.text ++ q.text⟩
  else ⟨p.text ++ "/" ++ q.text⟩

def child (p : Path) (name : String) : Path := p.join ⟨name⟩

/-- The texts between separators, empty ones included. -/
def pieces : List Char → List (List Char)
  | [] => [[]]
  | c :: cs =>
    if c = '/' then [] :: pieces cs
    else match pieces cs with
      | p :: ps => (c :: p) :: ps
      | [] => [[c]]

/-- The names a path goes through, `.` and `..` among them. -/
def segments (p : Path) : List String :=
  ((pieces p.text.toList).filter (· ≠ [])).map String.ofList

/-- A separator at the end leaves an empty name, which asks for a directory as `.` does. -/
def steps (p : Path) : List String :=
  if p.endsWithSlash ∧ p.segments ≠ [] then p.segments ++ [""] else p.segments

/-- The path cut before its last name; the root has none. -/
def split? (p : Path) : Option (List String × String) :=
  p.segments.getLast?.map fun name => (p.segments.dropLast, name)

/-- Pieces in reverse that a path ending there need not show: an empty one, or a `.` that is not
the beginning of a relative path. -/
def isIdle (absolute : Bool) (piece : List Char) (before : List (List Char)) : Bool :=
  piece = [] || (piece = ['.'] && (absolute || before ≠ []))

/-- The tails, longest first, that end in a piece which counts, and the empty one. -/
def tails (absolute : Bool) : List (List Char) → List (List (List Char))
  | [] => [[]]
  | piece :: before =>
    if isIdle absolute piece before then tails absolute before
    else (piece :: before) :: tails absolute before

def ofPieces (absolute : Bool) (reversed : List (List Char)) : Path :=
  let body := List.intercalate ['/'] reversed.reverse
  ⟨String.ofList (if absolute then '/' :: body else body)⟩

/-- The paths above, nearest first. The last is the root or the empty path, which have none. -/
def ancestors (p : Path) : List Path :=
  let body := if p.isAbsolute then p.text.toList.drop 1 else p.text.toList
  ((tails p.isAbsolute (pieces body).reverse).drop 1).map (ofPieces p.isAbsolute)

def parent? (p : Path) : Option Path := p.ancestors.head?

def quoted (p : Path) : String := Text.quote p.text

/-- Relative, one component after another. -/
def ofComponents (names : List String) : Path := ⟨String.intercalate "/" names⟩

end Path

end Depot
