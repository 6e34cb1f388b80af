import Depot.Layout
import Mathlib.Tactic.Ring

/-! Arithmetic on words, which stops where a result is none. A power is taken by squaring, and no
product on the way is too large unless the power is. -/

namespace Depot.Word

variable {a b c base acc p : UInt64} {n : Nat}

def mul? (a b : UInt64) : Option UInt64 :=
  if a.toNat * b.toNat < UInt64.size then some (a * b) else none

def sub? (a b : UInt64) : Option UInt64 := if b ≤ a then some (a - b) else none

def div? (a b : UInt64) : Option UInt64 := if b = 0 then none else some (a / b)

def mod? (a b : UInt64) : Option UInt64 := if b = 0 then none else some (a % b)

def next? (n : UInt32) : Option UInt32 :=
  if n.toNat + 1 < UInt32.size then some (n + 1) else none

theorem mul?_eq_some : mul? a b = some c ↔ c.toNat = a.toNat * b.toNat := by
  have hc : c.toNat < UInt64.size := c.toNat_lt
  unfold mul?
  split
  · next h =>
    rw [Option.some.injEq, ← UInt64.toNat_inj, UInt64.toNat_mul, Nat.mod_eq_of_lt h, eq_comm]
  · next h =>
    simp only [reduceCtorEq, false_iff]
    omega

theorem mul?_eq_none : mul? a b = none ↔ UInt64.size ≤ a.toNat * b.toNat := by
  unfold mul?
  split <;> simp <;> omega

theorem sub?_eq_some : sub? a b = some c ↔ a.toNat = b.toNat + c.toNat := by
  unfold sub?
  split
  · next h =>
    have hle := UInt64.le_iff_toNat_le.1 h
    rw [Option.some.injEq, ← UInt64.toNat_inj, UInt64.toNat_sub_of_le _ _ h]
    omega
  · next h =>
    rw [UInt64.le_iff_toNat_le] at h
    simp only [reduceCtorEq, false_iff]
    omega

theorem div?_of_pos (h : 0 < b.toNat) : div? a b = some (a / b) := by
  rw [div?, if_neg]
  rintro rfl
  exact absurd h (Nat.lt_irrefl 0)

theorem mod?_of_pos (h : 0 < b.toNat) : mod? a b = some (a % b) := by
  rw [mod?, if_neg]
  rintro rfl
  exact absurd h (Nat.lt_irrefl 0)

/-- The factor that an odd exponent leaves over is taken into `acc`. -/
def factor? (acc base : UInt64) (n : Nat) : Option UInt64 :=
  if n % 2 = 1 then mul? acc base else some acc

/-- `acc` times the `n`-th power of `base`, for `n` from 1. -/
def powerFrom? (acc base : UInt64) (n : Nat) : Option UInt64 :=
  if _h : n ≤ 1 then mul? acc base
  else do
    let acc ← factor? acc base n
    powerFrom? acc (← mul? base base) (n / 2)
termination_by n

def power? (base : UInt64) (n : UInt32) : Option UInt64 :=
  if n = 0 then some 1 else powerFrom? 1 base n.toNat

theorem factor?_eq_some :
    factor? acc base n = some c ↔ c.toNat = acc.toNat * base.toNat ^ (n % 2) := by
  unfold factor?
  split
  · next h => rw [mul?_eq_some, h, pow_one]
  · next h =>
    rw [Option.some.injEq, ← UInt64.toNat_inj, Nat.mod_two_ne_one.1 h, pow_zero, mul_one, eq_comm]

theorem factor?_eq_none (h : factor? acc base n = none) :
    UInt64.size ≤ acc.toNat * base.toNat ^ (n % 2) := by
  unfold factor? at h
  split at h
  · next hodd =>
    rw [hodd, pow_one]
    exact mul?_eq_none.1 h
  · cases h

/-- Squaring finds the power if it is a word, and stops only if it is none. -/
theorem powerFrom?_eq_some (hacc : 1 ≤ acc.toNat) (hbase : 1 ≤ base.toNat) (hn : 1 ≤ n) :
    powerFrom? acc base n = some p ↔ p.toNat = acc.toNat * base.toNat ^ n := by
  have hp : p.toNat < UInt64.size := p.toNat_lt
  induction n using Nat.strongRecOn generalizing acc base with
  | ind n ih =>
  rw [powerFrom?]
  by_cases hone : n ≤ 1
  · obtain rfl : n = 1 := Nat.le_antisymm hone hn
    rw [dif_pos hone, mul?_eq_some, pow_one]
  rw [dif_neg hone]
  -- what stops a step is at most the power
  have hfactor : acc.toNat * base.toNat ^ (n % 2) ≤ acc.toNat * base.toNat ^ n :=
    Nat.mul_le_mul_left _ (Nat.pow_le_pow_right hbase (Nat.mod_le n 2))
  have hsquare : base.toNat * base.toNat ≤ acc.toNat * base.toNat ^ n := by
    calc base.toNat * base.toNat = 1 * base.toNat ^ 2 := by ring
      _ ≤ acc.toNat * base.toNat ^ n :=
        Nat.mul_le_mul hacc (Nat.pow_le_pow_right hbase (by omega))
  cases hf : factor? acc base n with
  | none =>
    have hlarge := factor?_eq_none hf
    simp only [Option.bind_eq_bind, Option.bind_none, reduceCtorEq, false_iff]
    omega
  | some acc' =>
    cases hs : mul? base base with
    | none =>
      have hlarge := mul?_eq_none.1 hs
      simp only [Option.bind_eq_bind, Option.bind_some, Option.bind_none, reduceCtorEq, false_iff]
      omega
    | some square =>
      have hacc' := factor?_eq_some.1 hf
      have hsquare' := mul?_eq_some.1 hs
      have hpower : acc'.toNat * square.toNat ^ (n / 2) = acc.toNat * base.toNat ^ n := by
        calc acc'.toNat * square.toNat ^ (n / 2)
            = acc.toNat * (base.toNat ^ (2 * (n / 2)) * base.toNat ^ (n % 2)) := by
              rw [hacc', hsquare', pow_mul]
              ring
          _ = acc.toNat * base.toNat ^ n := by rw [← pow_add, Nat.div_add_mod]
      have hpos : 1 ≤ acc'.toNat := by
        rw [hacc']
        exact Nat.mul_pos hacc (Nat.pow_pos hbase)
      have hpos' : 1 ≤ square.toNat := by
        rw [hsquare']
        exact Nat.mul_pos hbase hbase
      have hrest := ih (n / 2) (by omega) hpos hpos' (by omega)
      rw [hpower] at hrest
      exact hrest

theorem power?_eq_some {n : UInt32} (hbase : 1 ≤ base.toNat) :
    power? base n = some p ↔ p.toNat = base.toNat ^ n.toNat := by
  unfold power?
  split
  · next h =>
    subst h
    rw [Option.some.injEq, ← UInt64.toNat_inj, eq_comm]
    rfl
  · next h =>
    have hn : 1 ≤ n.toNat := by
      rw [← UInt32.toNat_inj] at h
      exact Nat.one_le_iff_ne_zero.2 h
    have hone : 1 ≤ (1 : UInt64).toNat := Nat.le_refl 1
    rw [powerFrom?_eq_some hone hbase hn, UInt64.toNat_one, Nat.one_mul]

end Depot.Word
