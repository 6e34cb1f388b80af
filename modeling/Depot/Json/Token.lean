import Depot.Json.Basic
import Depot.Text.Bytes
import Depot.Text.Digits

/-! Tokens of JSON. Blanks are dropped; a scalar that does not read is a token all the same, and
the last one if nothing after it can be told apart. -/

namespace Depot.Json

inductive Token where
  | text (s : Except Flaw String)
  | plain (v : Json)
  | openArray
  | closeArray
  | openObject
  | closeObject
  | comma
  | colon
  | stray

def isBlank (c : Char) : Bool := c = ' ' || c = '\n' || c = '\t' || c = '\r'

/-- A break that stops reading and skipping alike. -/
def Flaw.of (b : Break) : Flaw := ⟨b, some b⟩

/-! ## Strings -/

/-- What an escape yields: a character, a unit that is no character by itself, or a break. -/
inductive Escape where
  | char (c : Char)
  | half (flaw : Break)
  | broken (b : Break)

/-- Four hexadecimal digits. Fewer than four bytes are the end of the text, whatever they are. -/
def hexUnit (cs : List Char) : Except Break (Nat × List Char) :=
  if Text.byteCount (cs.take 4) < 4 then .error .ended
  else match cs with
    | a :: b :: c :: d :: rest =>
      match Text.hexNumber? [a, b, c, d] with
      | some n => .ok (n, rest)
      | none => .error .malformed
    | _ => .error .malformed

def isHigh (n : Nat) : Bool := 0xd800 ≤ n && n ≤ 0xdbff

def isLow (n : Nat) : Bool := 0xdc00 ≤ n && n ≤ 0xdfff

/-- What must follow the first half of a surrogate pair, after its four digits. A reader that
only passes over the string goes on right there. -/
def secondHalf (first : Nat) (rest : List Char) : Escape × List Char :=
  match rest with
  | [] => (.half .ended, rest)
  | ['\\'] => (.half .ended, rest)
  | '\\' :: 'u' :: more =>
    match hexUnit more with
    | .error b => (.half b, rest)
    | .ok (n, after) =>
      if isLow n then
        (.char (Char.ofNat (0x10000 + (first - 0xd800) * 0x400 + (n - 0xdc00))), after)
      else (.half .malformed, rest)
  | _ => (.half .malformed, rest)

def unicodeEscape (cs : List Char) : Escape × List Char :=
  match hexUnit cs with
  | .error b => (.broken b, [])
  | .ok (n, rest) =>
    if isLow n then (.half .malformed, rest)
    else if isHigh n then secondHalf n rest
    else (.char (Char.ofNat n), rest)

/-- Reads after a backslash. -/
def escape : List Char → Escape × List Char
  | [] => (.broken .ended, [])
  | 'u' :: cs => unicodeEscape cs
  | 'b' :: cs => (.char '\x08', cs)
  | 'f' :: cs => (.char '\x0c', cs)
  | 'n' :: cs => (.char '\n', cs)
  | 'r' :: cs => (.char '\r', cs)
  | 't' :: cs => (.char '\t', cs)
  | c :: cs =>
    if c = '\x22' ∨ c = '\\' ∨ c = '/' then (.char c, cs) else (.broken .malformed, [])

theorem hexUnit_length {cs rest : List Char} {n : Nat} (h : hexUnit cs = .ok (n, rest)) :
    rest.length < cs.length := by
  unfold hexUnit at h
  grind

theorem secondHalf_length (first : Nat) (rest : List Char) :
    (secondHalf first rest).2.length ≤ rest.length := by
  unfold secondHalf
  have := @hexUnit_length
  grind

theorem escape_length (cs : List Char) : (escape cs).2.length ≤ cs.length := by
  unfold escape unicodeEscape
  have := @hexUnit_length
  have := @secondHalf_length
  grind

/-- A string from behind its opening quote. `flaw` is the first half pair met so far; it decides
how the string reads, and the rest of it only whether it can be passed over. -/
def stringToken (done : List Char) (flaw : Option Break) (cs : List Char) :
    Except Flaw String × List Char :=
  match cs with
  | [] => (.error ⟨flaw.getD .ended, some .ended⟩, [])
  | c :: cs =>
    if c = '\x22' then
      match flaw with
      | none => (.ok (String.ofList done.reverse), cs)
      | some b => (.error ⟨b, none⟩, cs)
    else if c = '\\' then
      have := escape_length cs
      match _h : escape cs with
      | (.char c, rest) => stringToken (c :: done) flaw rest
      | (.half b, rest) => stringToken done (flaw.or (some b)) rest
      | (.broken b, _) => (.error ⟨flaw.getD b, some b⟩, [])
    else if c < ' ' then (.error ⟨flaw.getD .malformed, some .malformed⟩, [])
    else stringToken (c :: done) flaw cs
termination_by cs.length
decreasing_by all_goals (simp_all; try omega)

/-! ## Numbers -/

/-- Whether a decimal lies beyond the finite doubles. Its value is that of `ds`, read as one
number, times ten to the `scale`. -/
def overflows (ds : List Char) (scale : Int) : Bool :=
  let ds := ds.dropWhile (· = '0')
  let magnitude : Int := ds.length + scale
  if ds = [] ∨ magnitude < 309 then false
  else if 309 < magnitude then true
  else
    let limit := Nat.pow 2 1024 - Nat.pow 2 970
    let n := Text.decimalNumber ds
    if 0 ≤ scale then limit ≤ n * Nat.pow 10 scale.toNat else limit * Nat.pow 10 (-scale).toNat ≤ n

/-- A run of digits that must not be empty. -/
def digitRun (cs : List Char) : Except Flaw (List Char × List Char) :=
  let ds := cs.takeWhile Text.isDecimal
  if ds ≠ [] then .ok (ds, cs.dropWhile Text.isDecimal)
  else if cs = [] then .error ⟨.ended, some .malformed⟩
  else .error (.of .malformed)

/-- The whole part: no leading zero unless it is all of it. -/
def wholePart (cs : List Char) : Except Flaw (List Char × List Char) := do
  let (ds, rest) ← digitRun cs
  match ds with
  | '0' :: _ :: _ => .error (.of .malformed)
  | _ => .ok (ds, rest)

def fractionPart (cs : List Char) : Except Flaw (List Char × List Char) :=
  match cs with
  | '.' :: cs => digitRun cs
  | _ => .ok ([], cs)

/-- The exponent as it is written, with its value. -/
def exponentPart (cs : List Char) : Except Flaw ((List Char × Int) × List Char) :=
  match cs with
  | c :: cs =>
    if c = 'e' ∨ c = 'E' then
      match cs with
      | '+' :: cs => do
        let (ds, rest) ← digitRun cs
        .ok ((c :: '+' :: ds, Text.decimalNumber ds), rest)
      | '-' :: cs => do
        let (ds, rest) ← digitRun cs
        .ok ((c :: '-' :: ds, -(Text.decimalNumber ds : Int)), rest)
      | cs => do
        let (ds, rest) ← digitRun cs
        .ok ((c :: ds, Text.decimalNumber ds), rest)
    else .ok (([], 0), c :: cs)
  | [] => .ok (([], 0), [])

/-- A number and what follows it. One too large for a double does not read, but ends. -/
def numberToken (sign cs : List Char) : Json × List Char :=
  match (do
    let (whole, rest) ← wholePart cs
    let (fraction, rest) ← fractionPart rest
    let ((exponent, power), rest) ← exponentPart rest
    .ok (whole, fraction, exponent, power, rest) : Except Flaw _) with
  | .error flaw => (.flawed flaw, [])
  | .ok (whole, fraction, exponent, power, rest) =>
    if overflows (whole ++ fraction) (power - fraction.length) then
      (.flawed ⟨.malformed, none⟩, rest)
    else
      let point := if fraction = [] then [] else '.' :: fraction
      (.number (String.ofList (sign ++ whole ++ point ++ exponent)), rest)

/-! ## Tokens -/

/-- Reads the word `word` and yields `v`. -/
def wordToken (v : Json) : List Char → List Char → Json × List Char
  | [], cs => (v, cs)
  | _ :: _, [] => (.flawed (.of .ended), [])
  | w :: word, c :: cs => if c = w then wordToken v word cs else (.flawed (.of .malformed), [])

/-- The token that starts with `c`, and the text after it. -/
def token (c : Char) (cs : List Char) : Token × List Char :=
  if c = '[' then (.openArray, cs)
  else if c = ']' then (.closeArray, cs)
  else if c = '\x7b' then (.openObject, cs)
  else if c = '\x7d' then (.closeObject, cs)
  else if c = ',' then (.comma, cs)
  else if c = ':' then (.colon, cs)
  else if c = '\x22' then ((stringToken [] none cs).map .text id)
  else if c = 'n' then ((wordToken .null "ull".toList cs).map .plain id)
  else if c = 't' then ((wordToken (.bool true) "rue".toList cs).map .plain id)
  else if c = 'f' then ((wordToken (.bool false) "alse".toList cs).map .plain id)
  else if c = '-' then ((numberToken ['-'] cs).map .plain id)
  else if Text.isDecimal c then ((numberToken [] (c :: cs)).map .plain id)
  else (.stray, cs)

/-! ## The text goes on after a token -/

theorem wordToken_length (v : Json) (word cs : List Char) :
    (wordToken v word cs).2.length ≤ cs.length := by
  induction word generalizing cs with
  | nil => simp [wordToken]
  | cons w word ih =>
    cases cs with
    | nil => simp [wordToken]
    | cons c cs =>
      have := ih cs
      simp only [wordToken]
      split
      · simp only [List.length_cons]; omega
      · simp

theorem stringToken_length (done : List Char) (flaw : Option Break) (cs : List Char) :
    (stringToken done flaw cs).2.length ≤ cs.length := by
  fun_induction stringToken done flaw cs with
  | case1 => simp
  | case2 => simp
  | case3 => simp
  | case4 done flaw cs h1 h2 c rest h ih => have := escape_length cs; simp_all; omega
  | case5 done flaw cs h1 h2 b rest h ih => have := escape_length cs; simp_all; omega
  | case6 => simp
  | case7 => simp
  | case8 _ _ _ _ _ _ _ ih => simp; omega

theorem digitRun_length {cs ds rest : List Char} (h : digitRun cs = .ok (ds, rest)) :
    rest.length < cs.length := by
  have hsplit := congrArg List.length
    (List.takeWhile_append_dropWhile (p := Text.isDecimal) (l := cs))
  simp only [List.length_append] at hsplit
  unfold digitRun at h
  have := @List.length_pos_iff Char (cs.takeWhile Text.isDecimal)
  grind

theorem wholePart_length {cs ds rest : List Char} (h : wholePart cs = .ok (ds, rest)) :
    rest.length < cs.length := by
  simp only [wholePart, bind, Except.bind] at h
  split at h
  · cases h
  · next r hr =>
    have := @digitRun_length cs r.1 r.2 hr
    grind

theorem fractionPart_length {cs ds rest : List Char} (h : fractionPart cs = .ok (ds, rest)) :
    rest.length ≤ cs.length := by
  unfold fractionPart at h
  have := @digitRun_length
  grind

theorem exponentPart_length {cs rest : List Char} {e : List Char × Int}
    (h : exponentPart cs = .ok (e, rest)) : rest.length ≤ cs.length := by
  simp only [exponentPart, bind, Except.bind] at h
  have := @digitRun_length
  grind

theorem numberToken_length (sign cs : List Char) :
    (numberToken sign cs).2.length ≤ cs.length - 1 := by
  unfold numberToken
  have h1 := @wholePart_length
  have h2 := @fractionPart_length
  have h3 := @exponentPart_length
  simp only [bind, Except.bind]
  grind

theorem token_length (c : Char) (cs : List Char) : (token c cs).2.length ≤ cs.length := by
  have h3 := Nat.le_trans (numberToken_length ['-'] cs) (Nat.sub_le ..)
  have h4 := numberToken_length [] (c :: cs)
  simp only [List.length_cons, Nat.add_sub_cancel] at h4
  fun_cases token c cs
  all_goals first
    | exact Nat.le_refl _
    | exact stringToken_length [] none cs
    | exact wordToken_length _ _ cs
    | exact h3
    | exact h4

/-- The tokens of a text. -/
def tokens : List Char → List Token
  | [] => []
  | c :: cs =>
    if isBlank c then tokens cs
    else
      have := token_length c cs
      let next := token c cs
      next.1 :: tokens next.2
termination_by cs => cs.length

end Depot.Json
