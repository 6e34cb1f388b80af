import Depot.Proofs.Files.Paths
import Depot.Proofs.Handle.Indices
import Depot.Proofs.Text.Numerals

/-! Which indices are kept together. The directories of an index spell its group, the index divided
by the fanout, in numerals of a fixed length and width, so they are those of the whole group and of
no other. -/

namespace Depot

namespace Text

theorem decimalNumber_concat (cs : List Char) (c : Char) :
    decimalNumber (cs ++ [c]) = 10 * decimalNumber cs + (c.toNat - 48) := by
  rw [decimalNumber, List.foldl_append]
  rfl

theorem toNat_decimalDigit {n : Nat} (h : n < 10) : (decimalDigit n).toNat - 48 = n := by
  have all : ∀ n < 10, (decimalDigit n).toNat - 48 = n := by decide
  exact all n h

theorem decimalNumber_decimalDigits (width n : Nat) :
    decimalNumber (decimalDigits width n) = n % 10 ^ width := by
  induction width generalizing n with
  | zero => simp [decimalDigits, decimalNumber, Nat.mod_one]
  | succ width ih =>
    rw [decimalDigits, decimalNumber_concat, ih, toNat_decimalDigit (Nat.mod_lt _ (by decide)),
      Nat.pow_succ', Nat.mod_mul]
    omega

end Text

namespace Layout

/-- The number with these digits, highest first. -/
def ofDigits (fanout : Nat) (digits : List Nat) : Nat :=
  digits.foldl (fun n digit => fanout * n + digit) 0

theorem ofDigits_concat (fanout : Nat) (digits : List Nat) (digit : Nat) :
    ofDigits fanout (digits ++ [digit]) = fanout * ofDigits fanout digits + digit := by
  rw [ofDigits, List.foldl_append]
  rfl

theorem ofDigits_groupDigits (fanout depth n : Nat) :
    ofDigits fanout (groupDigits fanout depth n) = n % fanout ^ depth := by
  induction depth generalizing n with
  | zero => simp [groupDigits, ofDigits, Nat.mod_one]
  | succ depth ih =>
    rw [groupDigits, ofDigits_concat, ih, Nat.pow_succ', Nat.mod_mul]
    omega

theorem lt_of_mem_groupDigits {fanout depth n digit : Nat} (hpos : 0 < fanout)
    (h : digit ∈ groupDigits fanout depth n) : digit < fanout := by
  induction depth generalizing n with
  | zero => cases h
  | succ depth ih =>
    rcases List.mem_append.1 h with h | h
    · exact ih h
    · rw [List.mem_singleton.1 h]
      exact Nat.mod_lt _ hpos

variable (l : Layout)

theorem fanout_pos : 0 < l.fanout.toNat := Nat.lt_of_lt_of_le (by decide) l.two_le

/-- A digit is as wide as the largest at most. -/
theorem lt_pow_width {digit : Nat} (h : digit < l.fanout.toNat) : digit < 10 ^ l.width := by
  have hwidth : l.width = (Nat.toDigits 10 (l.fanout.toNat - 1)).length := by
    rw [width, Nat.toString_eq_repr, ← String.length_toList, Nat.toList_repr]
  have hlargest := (Nat.length_toDigits_le_iff (by decide) l.width_pos).1 (Nat.le_of_eq hwidth.symm)
  omega

theorem group_lt {index : UInt64} (h : index ≤ l.maxIndex) :
    index.toNat / l.fanout.toNat < l.fanout.toNat ^ l.depth.toNat := by
  have hle := UInt64.le_iff_toNat_le.1 h
  have hpos := l.capacity_pos
  have hcapacity : l.capacity = l.fanout.toNat * l.fanout.toNat ^ l.depth.toNat := Nat.pow_succ'
  rw [maxIndex_toNat] at hle
  apply Nat.div_lt_of_lt_mul
  omega

/-- The names of the directories, read as numerals, are the digits of the group. -/
theorem numbers_shard (index : UInt64) :
    (l.shard index).map (fun name => Text.decimalNumber name.toList) =
      groupDigits l.fanout.toNat l.depth.toNat (index.toNat / l.fanout.toNat) := by
  rw [shard, List.map_map, List.map_congr_left, List.map_id]
  intro digit hdigit
  have hfits := l.lt_pow_width (lt_of_mem_groupDigits l.fanout_pos hdigit)
  simp only [Function.comp_apply, String.toList_ofList, id_eq]
  rw [Text.decimalNumber_decimalDigits, Nat.mod_eq_of_lt hfits]

/-- Indices have the same directories if and only if they are of one group. -/
theorem shard_eq_iff {i j : UInt64} (hi : i ≤ l.maxIndex) (hj : j ≤ l.maxIndex) :
    l.shard i = l.shard j ↔ i.toNat / l.fanout.toNat = j.toNat / l.fanout.toNat := by
  constructor
  · intro h
    have hdigits := congrArg (List.map fun name => Text.decimalNumber name.toList) h
    rw [numbers_shard, numbers_shard] at hdigits
    have hnumber := congrArg (ofDigits l.fanout.toNat) hdigits
    rwa [ofDigits_groupDigits, ofDigits_groupDigits, Nat.mod_eq_of_lt (l.group_lt hi),
      Nat.mod_eq_of_lt (l.group_lt hj)] at hnumber
  · intro h
    rw [shard, h, shard]

end Layout

end Depot
