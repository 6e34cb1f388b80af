import Depot.Proofs.Identity
import Mathlib.Data.List.Lex
import Mathlib.Data.String.Basic

/-! The order of texts. A character comes before another if and only if its bytes do, whatever comes
behind, so texts are in the order of their bytes. -/

namespace Depot.Text

theorem charCode_lt (c : Char) : c.val.toNat < 0x110000 := by
  rcases c.valid with h | h
  · exact h.trans (by decide)
  · exact h.2

/-- The first byte tells how many follow, and the more there are the larger it is. -/
theorem compare_utf8 {c d : Char} (h : c < d) (us vs : List UInt8) :
    compare (String.utf8EncodeChar c ++ us) (String.utf8EncodeChar d ++ vs) = .lt := by
  have hlt : c.val.toNat < d.val.toNat := h
  have hd := charCode_lt d
  unfold String.utf8EncodeChar
  generalize c.val.toNat = m at hlt
  generalize d.val.toNat = n at hlt hd
  dsimp only
  -- a longer code cannot come first
  split_ifs
  all_goals
    simp only [List.cons_append, List.nil_append, List.compare_cons_cons, Ordering.then_eq_lt,
      Std.compare_eq_lt, Std.compare_eq_iff_eq, UInt8.lt_iff_toNat_lt, ← UInt8.toNat_inj,
      UInt8.toNat_ofNat']
    simp (disch := omega) only [Nat.mod_eq_of_lt]
    omega

theorem bytes_eq (text : String) : bytes text = text.toList.flatMap String.utf8EncodeChar := by
  have hlist : bytes (String.ofList text.toList) = text.toList.flatMap String.utf8EncodeChar := by
    change (text.toList.flatMap String.utf8EncodeChar).toByteArray.data.toList = _
    rw [List.toList_data_toByteArray]
  rwa [String.ofList_toList] at hlist

theorem compare_codes {cs ds : List Char} (h : cs < ds) :
    compare (cs.flatMap String.utf8EncodeChar) (ds.flatMap String.utf8EncodeChar) = .lt := by
  induction cs generalizing ds with
  | nil =>
    cases ds with
    | nil => exact absurd h (List.not_lt_nil _)
    | cons d ds =>
      have hcode : String.utf8EncodeChar d ≠ [] := String.utf8EncodeChar_ne_nil
      obtain ⟨byte, more, hcode⟩ := List.exists_cons_of_ne_nil hcode
      rw [List.flatMap_cons, hcode]
      rfl
  | cons c cs ih =>
    cases ds with
    | nil => exact absurd h (List.not_lt_nil _)
    | cons d ds =>
      rw [List.flatMap_cons, List.flatMap_cons]
      rcases List.cons_lt_cons_iff.1 h with hlt | ⟨rfl, hlt⟩
      · exact compare_utf8 hlt ..
      · rw [compare_append rfl, Std.ReflOrd.compare_self, ih hlt]
        rfl

/-- Texts are in the order of their bytes. -/
theorem compare_bytes (a b : String) : compare a b = compare (bytes a) (bytes b) := by
  have hlt : ∀ {a b : String}, a < b →
      compare a b = .lt ∧ compare (bytes a) (bytes b) = .lt := by
    intro a b h
    rw [bytes_eq, bytes_eq]
    exact ⟨compareOfLessAndEq_eq_lt.2 h, compare_codes (String.lt_iff_toList_lt.1 h)⟩
  rcases lt_trichotomy a b with h | rfl | h
  · rw [(hlt h).1, (hlt h).2]
  · rw [Std.ReflOrd.compare_self, Std.ReflOrd.compare_self]
  · rw [Std.OrientedOrd.eq_swap (a := a), Std.OrientedOrd.eq_swap (a := bytes a), (hlt h).1,
      (hlt h).2]

end Depot.Text
