import Depot.Identity.Basic
import Std.Data.ExtTreeMap
import Std.Data.ExtTreeSet

/-! Registries: which identity belongs to which handle. A registry does not keep its handles alive;
`alive` says which references still lead to one, and an entry that does not counts for nothing. An
identity that was taken out is retired and never comes back. -/

namespace Depot

structure Registry (ρ : Type) where
  entries : Std.ExtTreeMap Identity ρ
  retired : Std.ExtTreeSet Identity
  parted : ∀ id ∈ retired, entries[id]? = none

inductive RegistryFault where
  | taken
  | retired
  deriving DecidableEq

namespace Registry

variable {ρ : Type}

def empty : Registry ρ := ⟨∅, ∅, by simp⟩

/-- Drops the entries that lead nowhere. -/
def prune (alive : ρ → Bool) (r : Registry ρ) : Registry ρ where
  entries := r.entries.filter fun _ ref => alive ref
  retired := r.retired
  parted id h := by simp [r.parted id h]

/-- The handle of an identity. -/
def resolve (alive : ρ → Bool) (r : Registry ρ) (id : Identity) : Option ρ :=
  (r.entries[id]?).filter alive

def contains (alive : ρ → Bool) (r : Registry ρ) (id : Identity) : Bool :=
  (r.resolve alive id).isSome

/-- Enters a handle. Entries that lead nowhere are dropped on the way, unless the identity is
retired. -/
def register (alive : ρ → Bool) (r : Registry ρ) (id : Identity) (ref : ρ) :
    Except RegistryFault Unit × Registry ρ :=
  if hr : id ∈ r.retired then (.error .retired, r)
  else
    let r' := r.prune alive
    if (r'.entries[id]?).isSome then (.error .taken, r')
    else (.ok (), { r' with
      entries := r'.entries.insert id ref
      parted := fun id' h => by
        rw [Std.ExtTreeMap.getElem?_insert]
        split
        · next he => exact absurd (Std.LawfulEqOrd.eq_of_compare he ▸ h) hr
        · exact r'.parted id' h })

/-- Takes an identity out for good. Tells whether there was an entry. -/
def deregister (r : Registry ρ) (id : Identity) : Bool × Registry ρ :=
  ((r.entries[id]?).isSome, {
    entries := r.entries.erase id
    retired := r.retired.insert id
    parted := fun id' h => by
      rw [Std.ExtTreeMap.getElem?_erase]
      split
      · rfl
      · next hne => exact r.parted id' ((Std.ExtTreeSet.mem_insert.1 h).resolve_left hne) })

/-- The identities that lead to a handle, in order. -/
def ids (alive : ρ → Bool) (r : Registry ρ) : List Identity :=
  (r.entries.filter fun _ ref => alive ref).keys

/-- How many entries lead to a handle. -/
def size (alive : ρ → Bool) (r : Registry ρ) : Nat :=
  r.entries.toList.countP fun (_, ref) => alive ref

def isRetired (r : Registry ρ) (id : Identity) : Bool := r.retired.contains id

/-- Counts entries, whether they lead to a handle or not. -/
def debug (r : Registry ρ) : String :=
  "InMemoryHandleRegistry \x7b live: " ++ toString r.entries.size ++ ", retired: " ++
    toString r.retired.size ++ " \x7d"

end Registry

end Depot
