import Depot.Files.Path
import Depot.Text.Digits

/-! Layouts: how an index becomes directories. A directory of a layout holds at most `fanout`
entries. The innermost holds objects and the `depth` levels above it directories, which are the
digits of `index / fanout` in base `fanout`, each written as wide as the largest. -/

namespace Depot

inductive LayoutFault where
  | fanout (fanout : UInt64)
  | depth
  | range (fanout : UInt64) (depth : UInt32)
  deriving DecidableEq

def LayoutFault.message : LayoutFault → String
  | .fanout f => "fanout must be at least 2, got " ++ toString f.toNat
  | .depth => "depth must be at least 1"
  | .range f d =>
    "fanout " ++ toString f.toNat ++ " with depth " ++ toString d.toNat ++
      " exceeds the index range"

/-- An index that a layout has no place for. -/
structure Overflow where
  index : UInt64
  maxIndex : UInt64
  deriving DecidableEq

def Overflow.message (o : Overflow) : String :=
  "maximum number of file stores reached: " ++ toString o.maxIndex.toNat ++
    " (requested index " ++ toString o.index.toNat ++ ")"

/-- `acc` times the `n`-th power of `base`, unless that exceeds `limit` on the way. -/
def boundedPower (limit base : Nat) : Nat → Nat → Option Nat
  | acc, 0 => some acc
  | acc, n + 1 => if acc * base ≤ limit then boundedPower limit base (acc * base) n else none

theorem boundedPower_eq_some {limit base acc n p : Nat} (ha : acc ≤ limit) (hb : 0 < base) :
    boundedPower limit base acc n = some p ↔
      p = acc * Nat.pow base n ∧ acc * Nat.pow base n ≤ limit := by
  induction n generalizing acc with
  | zero => simp [boundedPower, ha, eq_comm]
  | succ n ih =>
    have hpow : acc * base * Nat.pow base n = acc * Nat.pow base (n + 1) := by
      rw [Nat.mul_assoc, Nat.mul_comm base]
      rfl
    unfold boundedPower
    split
    · next h => rw [ih h, hpow]
    · next h =>
      have : acc * base ≤ acc * Nat.pow base (n + 1) := by
        rw [← hpow]
        exact Nat.le_mul_of_pos_right _ (Nat.pow_pos hb)
      simp only [reduceCtorEq, false_iff, not_and, Nat.not_le]
      intro _
      omega

structure Layout where
  fanout : UInt64
  depth : UInt32
  two_le : 2 ≤ fanout.toNat
  depth_pos : 1 ≤ depth.toNat
  fits : Nat.pow fanout.toNat (depth.toNat + 1) < UInt64.size
  deriving DecidableEq

namespace Layout

def ofConfig (fanout : UInt64) (depth : UInt32) : Except LayoutFault Layout :=
  if hf : 2 ≤ fanout.toNat then
    if hd : 1 ≤ depth.toNat then
      match h : boundedPower (UInt64.size - 1) fanout.toNat 1 (depth.toNat + 1) with
      | some p => .ok ⟨fanout, depth, hf, hd, by
          have := ((boundedPower_eq_some (by decide) (by omega)).1 h).2
          rw [Nat.one_mul] at this
          exact Nat.lt_of_le_of_lt this (by decide)⟩
      | none => .error (.range fanout depth)
    else .error .depth
  else .error (.fanout fanout)

def standard : Layout := ⟨1000, 2, by decide, by decide, by decide⟩

/-- How many objects find a place. -/
def capacity (l : Layout) : Nat := Nat.pow l.fanout.toNat (l.depth.toNat + 1)

def maxIndex (l : Layout) : UInt64 := UInt64.ofNat (l.capacity - 1)

def width (l : Layout) : Nat := (toString (l.fanout.toNat - 1)).length

def check (l : Layout) (index : UInt64) : Except Overflow Unit :=
  if l.maxIndex < index then .error ⟨index, l.maxIndex⟩ else .ok ()

/-- The lowest `depth` digits of `n` in base `fanout`, highest first. -/
def groupDigits (fanout : Nat) : Nat → Nat → List Nat
  | 0, _ => []
  | depth + 1, n => groupDigits fanout depth (n / fanout) ++ [n % fanout]

/-- The directories that lead to an index, outermost first. -/
def components (l : Layout) (index : UInt64) : Except Overflow (List String) := do
  l.check index
  .ok ((groupDigits l.fanout.toNat l.depth.toNat (index.toNat / l.fanout.toNat)).map
    fun digit => String.ofList (Text.decimalDigits l.width digit))

/-- The directory of an index below a base directory. -/
def path (l : Layout) (base : Path) (index : UInt64) : Except Overflow Path :=
  (l.components index).map fun names => base.join (.ofComponents names)

end Layout

end Depot
