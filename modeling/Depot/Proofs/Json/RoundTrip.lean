import Depot.Json.Compact
import Depot.Proofs.Json.Readings

/-! The compact text of a whole value is one of its texts, so it reads as that value. -/

namespace Depot.Json

theorem charText_escapeChar (c : Char) : CharText c (escapeChar c) := by
  fun_cases escapeChar c
  case case8 hcontrol =>
    have hlt : c.toNat < 32 := hcontrol
    exact .unit (.digits (Text.length_hexDigits 4 c.toNat)
      (Text.hexNumeral_hexDigits (Nat.lt_trans hlt (by decide))))
  case case9 hquote hslash _ _ _ _ _ hcontrol =>
    exact .bare ⟨Char.not_lt.1 hcontrol, hquote, hslash⟩
  all_goals
    subst_vars
    exact .letter (by decide)

theorem stringText_stringChars (s : String) : StringText s (stringChars s) := by
  refine .quoted ?_
  induction s.toList with
  | nil => exact .nil
  | cons c cs ih => exact .cons (charText_escapeChar c) ih

theorem stringText_stringChars_iff {name s : String} :
    StringText name (stringChars s) ↔ name = s := by
  constructor
  · exact fun h => h.unique (stringText_stringChars s)
  · rintro rfl
    exact stringText_stringChars name

/-- A value that has a text of its own: nothing in it is broken off, and its numbers are naturals of
64 bits. -/
inductive Whole : Json → Prop where
  | null : Whole .null
  | bool (b : Bool) : Whole (.bool b)
  | nat {n : Nat} : n < UInt64.size → Whole (.nat n)
  | string (s : String) : Whole (.string s)
  | list {items : List Json} : (∀ v ∈ items, Whole v) → Whole (.list items)
  | record {members : List (String × Json)} : (∀ m ∈ members, Whole m.2) → Whole (.record members)

theorem blanks_nil : Blanks [] := nofun

theorem padded_self (t : List Char) : Padded t t := by
  simpa using Padded.between (t := t) blanks_nil blanks_nil

theorem arrayText_itemChars (items : List Json) :
    ArrayText (items.map chars) ('[' :: itemChars items ++ [']']) := by
  have hitems : ∀ (v : Json) (rest : List Json),
      Items ((v :: rest).map chars) (itemChars (v :: rest)) := by
    intro v rest
    induction rest generalizing v with
    | nil => exact .single (padded_self _)
    | cons w rest ih => exact .cons (padded_self _) (ih w)
  cases items with
  | nil => exact .empty blanks_nil
  | cons v rest => exact .items (hitems v rest)

/-- The texts of a member. -/
def memberText (m : String × Json) : List Char × List Char := (stringChars m.1, m.2.chars)

theorem objectText_memberChars (members : List (String × Json)) :
    ObjectText (members.map memberText)
      ('\x7b' :: memberChars (members.map fun (k, v) => (.ok k, v)) ++ ['\x7d']) := by
  have hmembers : ∀ (m : String × Json) (rest : List (String × Json)),
      Members ((m :: rest).map memberText)
        (memberChars ((m :: rest).map fun (k, v) => (.ok k, v))) := by
    intro m rest
    induction rest generalizing m with
    | nil => exact .single (padded_self _) (padded_self _)
    | cons m' rest ih =>
      have htext := Members.cons (padded_self (stringChars m.1)) (padded_self m.2.chars) (ih m')
      rw [← List.cons_append, ← List.append_assoc] at htext
      exact htext
  cases members with
  | nil => exact .empty blanks_nil
  | cons m rest => exact .members (hmembers m rest)

theorem Whole.reads {v : Json} (hv : Whole v) : Reads v.chars v := by
  induction hv with
  | null => exact reads_null
  | bool b => exact reads_bool b
  | nat hn => exact reads_nat hn
  | string s => exact (stringText_stringChars s).reads
  | @list items _ ih =>
    exact (arrayText_itemChars items).reads (List.forall₂_map_left_iff.2 (List.forall₂_same.2 ih))
  | @record members _ ih =>
    refine (objectText_memberChars members).reads ?_
    rw [List.forall₂_map_left_iff, List.forall₂_map_right_iff, List.forall₂_same]
    exact fun m hm => ⟨(stringText_stringChars m.1).lexes, ih m hm⟩

/-- What is read off a whole value is read off its text. -/
theorem readText_compact {α : Type} (read : Reader α) {v : Json} (hv : Whole v) :
    readText read (compact v) = read v := by
  refine Reads.readText ?_ read
  rw [compact, String.toList_ofList]
  exact hv.reads

end Depot.Json
