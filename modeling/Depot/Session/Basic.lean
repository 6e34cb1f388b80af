import Depot.Handle.Copying
import Depot.Handle.Disposal
import Depot.Handle.Saved
import Depot.Registry

/-! Sessions. A session holds handles by name, each in a registry that other handles look each
other up in. A handle lives as long as it is held; a ticket tells it from others that were held
under the same name. -/

namespace Depot

structure Held where
  ticket : Nat
  registry : String
  handle : Handle

structure Session where
  files : FileSystem
  order : ListingOrder
  systemTemp : Path
  registries : Std.ExtTreeMap String (Registry Nat)
  held : Std.ExtTreeMap String Held
  /-- Keys and stores put aside under names. -/
  keys : Std.ExtTreeMap String Key
  stores : Std.ExtTreeMap String FileStore
  /-- How many tickets are out. -/
  issued : Nat
  /-- What the latest command has reported, and how many flushes it has asked for. -/
  events : List Event
  flushes : Nat

abbrev SessionM := EStateM Failure Session

namespace Session

def start (files : FileSystem) (order : ListingOrder) (systemTemp : Path) : Session :=
  ⟨files, order, systemTemp, ∅, ∅, ∅, ∅, 0, [], 0⟩

/-- A registry is there, and empty, before it is first used. -/
def registry (s : Session) (name : String) : Registry Nat := (s.registries[name]?).getD .empty

/-- The slot of a handle that is still held. -/
def find? (s : Session) (ticket : Nat) : Option (String × Held) :=
  s.held.toList.find? (·.2.ticket = ticket)

def alive (s : Session) (ticket : Nat) : Bool := (s.find? ticket).isSome

end Session

namespace SessionM

def report (e : Event) : SessionM Unit := modify fun s => { s with events := s.events ++ [e] }

/-- Has a held handle work. -/
def onHandle (slot : String) (held : Held) (work : HandleM α) : SessionM α := fun s =>
  let after := fun (scene : Scene) => { s with
    files := scene.files
    held := s.held.insert slot { held with handle := scene.handle }
    events := scene.events
    flushes := scene.flushes }
  match work ⟨held.handle, s.files, s.order, s.events, s.flushes⟩ with
  | .ok a scene => .ok a (after scene)
  | .error e scene => .error e (after scene)

/-- Enters a handle in a registry. -/
def enroll (registry : String) (id : Identity) (ticket : Nat) : SessionM Unit := do
  let s ← get
  let (result, entered) := (s.registry registry).register s.alive id ticket
  set { s with registries := s.registries.insert registry entered }
  match result with
  | .ok () => return
  | .error .taken => throw (.alreadyRegistered id)
  | .error .retired =>
    report (.refused id)
    throw (.retired id)

def retire (registry : String) (id : Identity) : SessionM Bool := do
  let s ← get
  let (found, left) := (s.registry registry).deregister id
  set { s with registries := s.registries.insert registry left }
  return found

/-- Takes a handle up into a slot and a registry. Whatever the slot held before is dropped once the
new handle is in. -/
def takeUp (slot registry : String) (settings : Settings) (saved : SavedHandle)
    (storage : Storage) : SessionM Handle := do
  match settings.validate with
  | .error fault => throw (.badSettings fault)
  | .ok layout =>
    let s ← get
    let handle : Handle := {
      id := saved.id
      label := saved.label
      settings, layout
      tempRoot := settings.tempRoot.getD s.systemTemp
      lifecycle := .fresh
      storage
      nextIndex := saved.nextIndex
      names := none
      copies := none }
    enroll registry saved.id s.issued
    report (.registered saved.id saved.label)
    modify fun s => { s with
      held := s.held.insert slot ⟨s.issued, registry, handle⟩
      issued := s.issued + 1 }
    return handle

def create (slot registry : String) (settings : Settings) (label : String) (id : Identity) :
    SessionM Handle :=
  takeUp slot registry settings ⟨label, id, 0⟩ .unassigned

/-- The source is not looked at before the handle needs its base directory. -/
def restore (slot registry : String) (settings : Settings) (saved : SavedHandle) (source : Path) :
    SessionM Handle :=
  takeUp slot registry settings saved (.restoring source)

/-- Retires a handle's identity and removes its base directory. -/
def dispose (slot : String) (held : Held) : SessionM Disposal := do
  let deregistered ← retire held.registry held.handle.id
  onHandle slot held fun scene =>
    let (outcome, scene) := scene.dispose deregistered
    .ok outcome scene

end SessionM

end Depot
