import Depot.Identity.Basic
import Depot.Text.Bytes

/-! Reading identities. A text is an identity if it is 32 hexadecimal digits, five groups of them
parted by dashes, such groups in braces, or such groups after `urn:uuid:`; letter case is free.
Any other text is diagnosed by the first thing wrong with it. Lengths and positions count bytes. -/

namespace Depot.Identity

def urn : List Char := "urn:uuid:".toList

def isUrn (cs : List Char) : Bool := (cs.take 9).map Char.toLower = urn

def ofPlain? (cs : List Char) : Option Identity :=
  if cs.length = 32 then (Text.hexNumber? cs).map fun n => ⟨BitVec.ofNat 128 n⟩ else none

/-- The digits around the four dashes, which stand where `hyphenate` puts them. -/
def ofHyphenated? (cs : List Char) : Option Identity :=
  if cs[8]? = some '-' ∧ cs[13]? = some '-' ∧ cs[18]? = some '-' ∧ cs[23]? = some '-' then
    ofPlain? (cs.take 8 ++ (cs.drop 9).take 4 ++ (cs.drop 14).take 4 ++ (cs.drop 19).take 4 ++
      cs.drop 24)
  else none

inductive Fault where
  | length (found : Nat)
  | character (c : Char) (place : Nat)
  | groupCount (found : Nat)
  | groupLength (group expected found : Nat)
  deriving DecidableEq

def Fault.message : Fault → String
  | .length found => "invalid length: found " ++ toString found
  | .character c place =>
    "invalid character: found `" ++ String.ofList [c] ++ "` at " ++ toString place
  | .groupCount found => "invalid group count: expected 5, found " ++ toString found
  | .groupLength group expected found =>
    "invalid group length in group " ++ toString group ++ ": expected " ++ toString expected ++
      ", found " ++ toString found

inductive Shape where
  | any
  | hyphenated
  | braced
  | urn
  deriving DecidableEq

/-- The offsets of the dashes of `cs`, which starts at offset `place`, or its first character that
is neither a dash nor a digit, with the offset of that. -/
def dashes : Nat → List Char → Except (Char × Nat) (List Nat)
  | _, [] => .ok []
  | place, c :: cs =>
    if c = '-' then (dashes (place + 1) cs).map (place :: ·)
    else if (Text.hexValue? c).isSome then dashes (place + 1) cs
    else .error (c, place)

/-- The first group that does not end where it should, given where groups start and how long
they are. The last group ends with the text, of which `total` is the length. -/
def wrongGroup (total : Nat) (ends : List Nat) : Fault :=
  let starts := [0, 9, 14, 19]
  let sizes := [8, 4, 4, 4]
  match ((List.range 4).zip (starts.zip (sizes.zip ends))).find? fun (_, start, size, stop) =>
      stop ≠ start + size with
  | some (group, start, size, stop) => .groupLength group size (stop - start)
  | none => .groupLength 4 12 (total - 24)

/-- What is wrong with a text that is no identity of the given shape. -/
def diagnose (shape : Shape) (cs : List Char) : Fault :=
  let total := Text.byteCount cs
  if total = 0 ∨ 45 < total then .length total
  else
    let (shape, skipped, inner) :=
      if shape = .any ∧ cs.head? = some '\x7b' ∧ cs.getLast? = some '\x7d' ∧ 2 ≤ total then
        (Shape.braced, 1, (cs.drop 1).dropLast)
      else if shape = .any ∧ isUrn cs then (Shape.urn, 9, cs.drop 9)
      else (shape, 0, cs)
    match dashes 0 inner with
    | .error (c, place) => .character c (place + skipped)
    | .ok ds =>
      if shape = .any ∧ ds = [] then .length total
      else if ds.length ≠ 4 then .groupCount (ds.length + 1)
      else wrongGroup total ds

def orDiagnose (found : Option Identity) (shape : Shape) (cs : List Char) :
    Except Fault Identity :=
  match found with
  | some id => .ok id
  | none => .error (diagnose shape cs)

/-- The length alone decides which form is tried. -/
def ofList (cs : List Char) : Except Fault Identity :=
  match Text.byteCount cs with
  | 32 => orDiagnose (ofPlain? cs) .any cs
  | 36 => orDiagnose (ofHyphenated? cs) .hyphenated cs
  | 38 =>
    if cs.head? = some '\x7b' ∧ cs.getLast? = some '\x7d' then
      let inner := (cs.drop 1).dropLast
      orDiagnose (ofHyphenated? inner) .hyphenated inner
    else .error (diagnose .any cs)
  | 45 =>
    if isUrn cs then orDiagnose (ofHyphenated? (cs.drop 9)) .hyphenated (cs.drop 9)
    else .error (diagnose .any cs)
  | _ => .error (diagnose .any cs)

def ofString (s : String) : Except Fault Identity := ofList s.toList

def errorMessage (fault : Fault) : String := "invalid handle id: " ++ fault.message

end Depot.Identity
