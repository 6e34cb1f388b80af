import Depot.Identity.Basic
import Depot.Text.Quoted

/-! The names that one open handle has given out. -/

namespace Depot

structure UsedNames where
  handle : Identity
  names : List String
  nodup : names.Nodup

/-- A name given out before. -/
structure NameInUse where
  handle : Identity
  name : String
  deriving DecidableEq

def NameInUse.message (e : NameInUse) : String :=
  "duplicate object name " ++ Text.quote e.name ++ " in file store " ++ e.handle.text

namespace UsedNames

def none (handle : Identity) : UsedNames := ⟨handle, [], List.nodup_nil⟩

instance : Membership String UsedNames := ⟨fun u name => name ∈ u.names⟩

instance (u : UsedNames) (name : String) : Decidable (name ∈ u) :=
  inferInstanceAs (Decidable (name ∈ u.names))

def size (u : UsedNames) : Nat := u.names.length

def ensureUnused (u : UsedNames) (name : String) : Except NameInUse Unit :=
  if name ∈ u then .error ⟨u.handle, name⟩ else .ok ()

def add (u : UsedNames) (name : String) : Except NameInUse UsedNames :=
  if h : name ∈ u.names then .error ⟨u.handle, name⟩
  else .ok { u with names := name :: u.names, nodup := List.nodup_cons.2 ⟨h, u.nodup⟩ }

def erase (u : UsedNames) (name : String) : UsedNames :=
  { u with names := u.names.erase name, nodup := u.nodup.erase name }

end UsedNames

end Depot
