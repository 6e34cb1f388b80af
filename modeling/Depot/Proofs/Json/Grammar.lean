import Depot.Proofs.Text.Numerals

/-! The texts of JSON values, said without regard to how they are read: blanks between tokens,
strings with their escapes, numbers, and containers of such texts. -/

namespace Depot.Json

def Blanks (cs : List Char) : Prop := ∀ c ∈ cs, c ∈ [' ', '\n', '\r', '\t']

/-- A text with blanks on both sides. -/
inductive Padded (t : List Char) : List Char → Prop where
  | between {front back : List Char} : Blanks front → Blanks back → Padded t (front ++ t ++ back)

/-! ## Strings -/

/-- A character that may stand in a string for itself. -/
structure Bare (c : Char) : Prop where
  noControl : ' ' ≤ c
  noQuote : c ≠ '\x22'
  noBackslash : c ≠ '\\'

/-- The characters that have an escape of one letter, each with the letter. -/
def letterEscapes : List (Char × Char) :=
  [('\x22', '\x22'), ('\\', '\\'), ('/', '/'), ('\x08', 'b'), ('\x0c', 'f'), ('\n', 'n'),
    ('\r', 'r'), ('\t', 't')]

/-- The escape of a unit of 16 bits. -/
inductive UnitText (n : Nat) : List Char → Prop where
  | digits {ds : List Char} : ds.length = 4 → Text.HexNumeral ds n → UnitText n ('\\' :: 'u' :: ds)

def HighHalf (n : Nat) : Prop := 0xd800 ≤ n ∧ n < 0xdc00

def LowHalf (n : Nat) : Prop := 0xdc00 ≤ n ∧ n < 0xe000

/-- What may stand for the character in a string: the character, its letter behind a backslash, its
number, or both halves of its surrogate pair. -/
inductive CharText (c : Char) : List Char → Prop where
  | bare : Bare c → CharText c [c]
  | letter {x : Char} : (c, x) ∈ letterEscapes → CharText c ['\\', x]
  | unit {t : List Char} : UnitText c.toNat t → CharText c t
  | pair {high low : Nat} {t u : List Char} : UnitText high t → UnitText low u → HighHalf high →
      LowHalf low → c.toNat = 0x10000 + (high - 0xd800) * 0x400 + (low - 0xdc00) →
      CharText c (t ++ u)

inductive Spelled : List Char → List Char → Prop where
  | nil : Spelled [] []
  | cons {c : Char} {cs t ts : List Char} : CharText c t → Spelled cs ts →
      Spelled (c :: cs) (t ++ ts)

/-- The texts of `s`. -/
inductive StringText (s : String) : List Char → Prop where
  | quoted {cs : List Char} : Spelled s.toList cs → StringText s ('\x22' :: cs ++ ['\x22'])

/-- The least that a string can be cut into. Half a pair counts as a piece. -/
inductive Piece : List Char → Prop where
  | bare {c : Char} : Bare c → Piece [c]
  | letter {c x : Char} : (c, x) ∈ letterEscapes → Piece ['\\', x]
  | unit {n : Nat} {t : List Char} : UnitText n t → Piece t

inductive Pieces : List Char → Prop where
  | nil : Pieces []
  | cons {t ts : List Char} : Piece t → Pieces ts → Pieces (t ++ ts)

/-- A text in the form of a string, also if some of its units are no characters. -/
inductive Quoted : List Char → Prop where
  | pieces {cs : List Char} : Pieces cs → Quoted ('\x22' :: cs ++ ['\x22'])

/-! ## Numbers -/

structure Digits (ds : List Char) : Prop where
  nonempty : ds ≠ []
  decimal : ∀ c ∈ ds, Text.isDecimal c

/-- Digits with no 0 in front, unless that is all. -/
structure WholeText (ds : List Char) : Prop where
  digits : Digits ds
  noLeadingZero : ∀ cs, ds = '0' :: cs → cs = []

inductive FractionText : List Char → Prop where
  | none : FractionText []
  | point {ds : List Char} : Digits ds → FractionText ('.' :: ds)

inductive ExponentText : List Char → Prop where
  | none : ExponentText []
  | power {e : Char} {sign ds : List Char} : e ∈ ['e', 'E'] → sign ∈ [[], ['+'], ['-']] →
      Digits ds → ExponentText (e :: sign ++ ds)

inductive NumberText : List Char → Prop where
  | parts {sign whole fraction exponent : List Char} : sign ∈ [[], ['-']] → WholeText whole →
      FractionText fraction → ExponentText exponent →
      NumberText (sign ++ (whole ++ (fraction ++ exponent)))

/-! ## Containers -/

/-- Texts with commas between and blanks around them. -/
inductive Items : List (List Char) → List Char → Prop where
  | single {t cs : List Char} : Padded t cs → Items [t] cs
  | cons {t cs ds : List Char} {ts : List (List Char)} : Padded t cs → Items ts ds →
      Items (t :: ts) (cs ++ ',' :: ds)

/-- An array of these texts. -/
inductive ArrayText : List (List Char) → List Char → Prop where
  | empty {cs : List Char} : Blanks cs → ArrayText [] ('[' :: cs ++ [']'])
  | items {ts : List (List Char)} {cs : List Char} : Items ts cs → ArrayText ts ('[' :: cs ++ [']'])

/-- Pairs of texts, the second of each behind a colon, with commas between and blanks around
them. -/
inductive Members : List (List Char × List Char) → List Char → Prop where
  | single {k v ks vs : List Char} : Padded k ks → Padded v vs → Members [(k, v)] (ks ++ ':' :: vs)
  | cons {k v ks vs ds : List Char} {ms : List (List Char × List Char)} : Padded k ks →
      Padded v vs → Members ms ds → Members ((k, v) :: ms) (ks ++ ':' :: (vs ++ ',' :: ds))

/-- An object of these texts, of which the first in each pair is a name. -/
inductive ObjectText : List (List Char × List Char) → List Char → Prop where
  | empty {cs : List Char} : Blanks cs → ObjectText [] ('\x7b' :: cs ++ ['\x7d'])
  | members {ms : List (List Char × List Char)} {cs : List Char} : Members ms cs →
      ObjectText ms ('\x7b' :: cs ++ ['\x7d'])

/-- The texts of all values, with no blanks around them. -/
inductive WellFormed : List Char → Prop where
  | null : WellFormed "null".toList
  | bool (b : Bool) : WellFormed (if b then "true" else "false").toList
  | number {cs : List Char} : NumberText cs → WellFormed cs
  | string {cs : List Char} : Quoted cs → WellFormed cs
  | array {ts : List (List Char)} {cs : List Char} : ArrayText ts cs → (∀ t ∈ ts, WellFormed t) →
      WellFormed cs
  | object {ms : List (List Char × List Char)} {cs : List Char} : ObjectText ms cs →
      (∀ m ∈ ms, Quoted m.1) → (∀ m ∈ ms, WellFormed m.2) → WellFormed cs

/-! ## Strings of characters are strings -/

theorem CharText.pieces {c : Char} {t ts : List Char} (h : CharText c t) (hts : Pieces ts) :
    Pieces (t ++ ts) := by
  cases h with
  | bare hc => exact .cons (.bare hc) hts
  | letter hx => exact .cons (.letter hx) hts
  | unit ht => exact .cons (.unit ht) hts
  | pair ht hu =>
    rw [List.append_assoc]
    exact .cons (.unit ht) (.cons (.unit hu) hts)

theorem Spelled.pieces {cs ts : List Char} (h : Spelled cs ts) : Pieces ts := by
  induction h with
  | nil => exact .nil
  | cons hc _ ih => exact hc.pieces ih

theorem StringText.quoted_text {s : String} {cs : List Char} (h : StringText s cs) : Quoted cs := by
  obtain ⟨hspelled⟩ := h
  exact .pieces hspelled.pieces

end Depot.Json
