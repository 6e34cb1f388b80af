/-! A map of bounded size that forgets what has been unused the longest. -/

namespace Depot

/-- The entries come most recently used first. -/
structure Recency (α β : Type) where
  limit : Nat
  entries : List (α × β)
  limit_pos : 0 < limit
  bounded : entries.length ≤ limit

namespace Recency

variable {α β : Type}

/-- A limit of zero counts as one. -/
def empty (limit : Nat) : Recency α β := ⟨max limit 1, [], by omega, by simp⟩

def size (r : Recency α β) : Nat := r.entries.length

variable [DecidableEq α]

def find? (r : Recency α β) (a : α) : Option β := r.entries.lookup a

def without (a : α) (entries : List (α × β)) : List (α × β) := entries.filter (·.1 ≠ a)

theorem length_without_lt {a : α} {b : β} {entries : List (α × β)}
    (h : entries.lookup a = some b) : (without a entries).length < entries.length := by
  apply List.length_filter_lt_length_iff_exists.2
  obtain ⟨l₁, l₂, rfl, -⟩ := List.lookup_eq_some_iff.1 h
  exact ⟨(a, b), by simp, by simp⟩

/-- The value of `a`, which is the most recently used from now on. -/
def use (r : Recency α β) (a : α) : Option (β × Recency α β) :=
  match h : r.entries.lookup a with
  | none => none
  | some b =>
    have := length_without_lt h
    have := r.bounded
    some (b, { r with
      entries := (a, b) :: without a r.entries
      bounded := by simp only [List.length_cons]; omega })

/-- A new key may push out the last entry, one that is there pushes out nothing. -/
def put (r : Recency α β) (a : α) (b : β) : Recency α β :=
  { r with
    entries := ((a, b) :: without a r.entries).take r.limit
    bounded := by simp only [List.length_take]; omega }

end Recency

end Depot
