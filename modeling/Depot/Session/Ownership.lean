import Depot.Session.Basic

/-! Who owns an object. A handle owns the keys that name it, and finds the owners of others in its
registry. A key whose owner cannot be found there must be replaced by that of a copy before it is
kept. -/

namespace Depot

namespace Session

/-- The handle that owns a key: the asking one, or one that its registry knows. -/
def owner? (s : Session) (slot : String) (held : Held) (key : Key) : Option (String × Held) :=
  if key.owner = held.handle.id then some (slot, held)
  else ((s.registry held.registry).resolve s.alive key.owner).bind s.find?

def mustCopy (s : Session) (held : Held) (key : Key) : Bool :=
  key.owner ≠ held.handle.id && !(s.registry held.registry).contains s.alive key.owner

end Session

namespace SessionM

/-- An object and where its owner keeps it. -/
def fileStore (slot : String) (held : Held) (key : Key) : SessionM FileStore := do
  match (← get).owner? slot held key with
  | none => throw (.unknownOwner key)
  | some (ownerSlot, owner) => return ⟨key, ← onHandle ownerSlot owner (HandleM.objectPath key)⟩

def materialize (slot : String) (held : Held) (store : FileStore) (flush : FileM Unit) :
    SessionM Key := do
  let s ← get
  let live := (s.registry held.registry).ids s.alive
  onHandle slot held (HandleM.materializeCopy store live flush)

/-- A key to keep for an object: its own, or that of a copy if its owner cannot be found. -/
def translate (slot : String) (held : Held) (store : FileStore) (flush : FileM Unit) :
    SessionM Key := do
  if (← get).mustCopy held store.key then materialize slot held store flush else return store.key

end SessionM

end Depot
