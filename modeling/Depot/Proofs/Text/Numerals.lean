import Depot.Json.Record
import Depot.Text.Bytes
import Depot.Text.Digits
import Mathlib.Algebra.Group.Nat.Defs
import Mathlib.Data.List.Induction

/-! Numerals read back as the number they were written for. -/

namespace Depot

namespace Text

theorem byteCount_append (cs ds : List Char) :
    byteCount (cs ++ ds) = byteCount cs + byteCount ds := by
  induction cs with
  | nil => simp [byteCount]
  | cons c cs ih =>
    rw [List.cons_append, byteCount, byteCount, ih]
    omega

theorem byteCount_of_ascii {cs : List Char} (h : ∀ c ∈ cs, c.utf8Size = 1) :
    byteCount cs = cs.length := by
  induction cs with
  | nil => rfl
  | cons c cs ih =>
    rw [byteCount, h c (List.mem_cons_self ..), ih fun d hd => h d (List.mem_cons_of_mem _ hd),
      List.length_cons, Nat.add_comm]

/-! ## Hexadecimal -/

/-- A hexadecimal digit of either case, with its value. -/
def HexDigit (c : Char) (v : Nat) : Prop :=
  "0123456789abcdef".toList[v]? = some c ∨ "0123456789ABCDEF".toList[v]? = some c

/-- Hexadecimal digits, most significant first, with the number that they spell. -/
inductive HexNumeral : List Char → Nat → Prop where
  | nil : HexNumeral [] 0
  | concat {ds : List Char} {d : Char} {n v : Nat} : HexNumeral ds n → HexDigit d v →
      HexNumeral (ds ++ [d]) (16 * n + v)

theorem HexDigit.lt {c : Char} {v : Nat} (h : HexDigit c v) : v < 16 := by
  rcases h with h | h
  · exact (List.getElem?_eq_some_iff.1 h).1
  · exact (List.getElem?_eq_some_iff.1 h).1

theorem HexDigit.value {c : Char} {v : Nat} (h : HexDigit c v) : hexValue? c = some v := by
  have lower : ∀ v < 16, ("0123456789abcdef".toList[v]?).bind hexValue? = some v := by decide
  have upper : ∀ v < 16, ("0123456789ABCDEF".toList[v]?).bind hexValue? = some v := by decide
  rcases id h with hc | hc
  · simpa only [hc, Option.bind_some] using lower v h.lt
  · simpa only [hc, Option.bind_some] using upper v h.lt

theorem hexDigit_of_value {c : Char} {v : Nat} (h : hexValue? c = some v) : HexDigit c v := by
  have decimal : ∀ v < 10, "0123456789abcdef".toList[v]? = some (Char.ofNat (v + 48)) := by decide
  have lower : ∀ v < 16, 10 ≤ v →
      "0123456789abcdef".toList[v]? = some (Char.ofNat (v + 87)) := by decide
  have upper : ∀ v < 16, 10 ≤ v →
      "0123456789ABCDEF".toList[v]? = some (Char.ofNat (v + 55)) := by decide
  unfold hexValue? at h
  split at h
  · next hc =>
    have hle : 48 ≤ c.toNat ∧ c.toNat ≤ 57 := hc
    cases h
    have hdigit := decimal (c.toNat - 48) (by omega)
    rw [Nat.sub_add_cancel hle.1, Char.ofNat_toNat] at hdigit
    exact Or.inl hdigit
  split at h
  · next hc =>
    have hle : 97 ≤ c.toNat ∧ c.toNat ≤ 102 := hc
    cases h
    have hdigit := lower (c.toNat - 87) (by omega) (by omega)
    rw [Nat.sub_add_cancel (by omega), Char.ofNat_toNat] at hdigit
    exact Or.inl hdigit
  split at h
  · next hc =>
    have hle : 65 ≤ c.toNat ∧ c.toNat ≤ 70 := hc
    cases h
    have hdigit := upper (c.toNat - 55) (by omega) (by omega)
    rw [Nat.sub_add_cancel (by omega), Char.ofNat_toNat] at hdigit
    exact Or.inr hdigit
  · cases h

theorem hexValue?_eq_some {c : Char} {v : Nat} : hexValue? c = some v ↔ HexDigit c v :=
  ⟨hexDigit_of_value, HexDigit.value⟩

theorem HexDigit.utf8Size {c : Char} {v : Nat} (h : HexDigit c v) : c.utf8Size = 1 := by
  have lower : "0123456789abcdef".toList.all (·.utf8Size = 1) := by decide
  have upper : "0123456789ABCDEF".toList.all (·.utf8Size = 1) := by decide
  rcases h with h | h
  · exact of_decide_eq_true (List.all_eq_true.1 lower c (List.mem_of_getElem? h))
  · exact of_decide_eq_true (List.all_eq_true.1 upper c (List.mem_of_getElem? h))

theorem hexValue?_hexDigit {n : Nat} (h : n < 16) : hexValue? (hexDigit n) = some n := by
  have all : ∀ n < 16, hexValue? (hexDigit n) = some n := by decide
  exact all n h

@[simp] theorem length_hexDigits (width n : Nat) : (hexDigits width n).length = width := by
  induction width generalizing n with
  | zero => rfl
  | succ width ih => rw [hexDigits, List.length_append, ih, List.length_singleton]

theorem hexNumber?_concat (cs : List Char) (c : Char) : hexNumber? (cs ++ [c]) =
    (hexNumber? cs).bind fun n => (hexValue? c).map (16 * n + ·) := by
  unfold hexNumber?
  rw [List.foldlM_append]
  cases List.foldlM (fun n c => (hexValue? c).map (16 * n + ·)) 0 cs with
  | none => rfl
  | some n => simp

theorem hexNumber?_hexDigits (width n : Nat) :
    hexNumber? (hexDigits width n) = some (n % 16 ^ width) := by
  induction width generalizing n with
  | zero => simp [hexDigits, hexNumber?, Nat.mod_one]
  | succ width ih =>
    rw [hexDigits, hexNumber?_concat, ih, hexValue?_hexDigit (Nat.mod_lt _ (by omega))]
    simp only [Option.bind_some, Option.map_some, Option.some.injEq]
    rw [Nat.pow_succ, Nat.mul_comm (16 ^ width), Nat.mod_mul]
    omega

theorem hexNumber?_eq_some {ds : List Char} {n : Nat} :
    hexNumber? ds = some n ↔ HexNumeral ds n := by
  constructor
  · intro h
    induction ds using List.reverseRecOn generalizing n with
    | nil =>
      cases h
      exact .nil
    | append_singleton ds d ih =>
      rw [hexNumber?_concat] at h
      obtain ⟨m, hm, h⟩ := Option.bind_eq_some_iff.1 h
      obtain ⟨v, hv, rfl⟩ := Option.map_eq_some_iff.1 h
      exact .concat (ih hm) (hexValue?_eq_some.1 hv)
  · intro h
    induction h with
    | nil => rfl
    | concat _ hd ih => rw [hexNumber?_concat, ih, hd.value, Option.bind_some, Option.map_some]

theorem HexNumeral.utf8Size {ds : List Char} {n : Nat} (h : HexNumeral ds n) :
    ∀ c ∈ ds, c.utf8Size = 1 := by
  induction h with
  | nil => simp
  | concat _ hd ih =>
    intro c hc
    rcases List.mem_append.1 hc with hc | hc
    · exact ih c hc
    · rw [List.mem_singleton.1 hc]
      exact hd.utf8Size

theorem HexNumeral.lt {ds : List Char} {n : Nat} (h : HexNumeral ds n) : n < 16 ^ ds.length := by
  induction h with
  | nil => exact Nat.one_pos
  | concat _ hd ih =>
    have hv := hd.lt
    rw [List.length_append, List.length_singleton, Nat.pow_succ]
    omega

theorem hexNumeral_hexDigits {width n : Nat} (h : n < 16 ^ width) :
    HexNumeral (hexDigits width n) n := by
  rw [← hexNumber?_eq_some, hexNumber?_hexDigits, Nat.mod_eq_of_lt h]

/-! ## Decimal -/

theorem isDecimal_of_isDigit {c : Char} (h : c.isDigit) : isDecimal c := by
  have hle : '0' ≤ c ∧ c ≤ '9' := by simpa [Char.isDigit, Char.le_def, UInt32.le_iff_toNat_le] using h
  simp [isDecimal, hle]

theorem isDecimal_of_mem_toDigits {n : Nat} {c : Char} (h : c ∈ Nat.toDigits 10 n) :
    isDecimal c := isDecimal_of_isDigit (Nat.isDigit_of_mem_toDigits (by decide) (by decide) h)

theorem decimalNumber_toDigits (n : Nat) : decimalNumber (Nat.toDigits 10 n) = n :=
  Nat.ofDigitChars_ten_toDigits

/-- Only 0 is written with a 0 in front. -/
theorem toDigits_head_zero {n : Nat} {cs : List Char} (h : Nat.toDigits 10 n = '0' :: cs) :
    cs = [] := by
  induction n using Nat.strongRecOn generalizing cs with
  | ind n ih =>
    rw [Nat.toDigits_eq_if (by decide)] at h
    split at h
    · next hlt => exact (List.cons.inj h).2.symm
    · next hge =>
      -- the digits in front are those of a number that is not 0, so they have no 0 in front
      cases hd : Nat.toDigits 10 (n / 10) with
      | nil => simp at hd
      | cons d ds =>
        rw [hd, List.cons_append] at h
        obtain ⟨rfl, -⟩ := List.cons.inj h
        have hds := ih (n / 10) (by omega) hd
        rw [hds] at hd
        have hval := decimalNumber_toDigits (n / 10)
        rw [hd] at hval
        have hzero : decimalNumber ['0'] = 0 := by decide
        omega

end Text

namespace Json

theorem natural?_toString (n : Nat) : natural? (toString n) = some n := by
  unfold natural?
  rw [Nat.toString_eq_repr, Nat.toList_repr]
  have hall : (Nat.toDigits 10 n).all Text.isDecimal := by
    rw [List.all_eq_true]
    exact fun c hc => Text.isDecimal_of_mem_toDigits hc
  rw [if_pos ⟨Nat.toDigits_ne_nil, hall⟩, Text.decimalNumber_toDigits]

theorem readNat_nat {bound n : Nat} (h : n < bound) : readNat bound (.nat n) = .ok n := by
  have hn := natural?_toString n
  simp only [Json.nat, readNat, hn, if_pos h]

theorem readUInt64_nat (n : UInt64) : readUInt64 (.nat n.toNat) = .ok n := by
  rw [readUInt64, readNat_nat n.toNat_lt]
  exact congrArg Except.ok UInt64.ofNat_toNat

end Json

end Depot
