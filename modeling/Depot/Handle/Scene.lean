import Depot.Files.Copy
import Depot.Handle.Basic
import Depot.Handle.Event

/-! A handle at work among files. An operation that fails leaves what it has done. -/

namespace Depot

structure Scene where
  handle : Handle
  files : FileSystem
  order : ListingOrder
  /-- What has been reported, oldest first. -/
  events : List Event
  /-- How often content still in memory was asked to be written out. -/
  flushes : Nat

abbrev HandleM := EStateM Failure Scene

namespace HandleM

def handle : HandleM Handle := do return (← get).handle

def update (change : Handle → Handle) : HandleM Unit :=
  modify fun s => { s with handle := change s.handle }

def report (e : Event) : HandleM Unit := modify fun s => { s with events := s.events ++ [e] }

/-- Works on the files. -/
def onFiles (wrap : FileError → Failure) (work : FileM α) : HandleM α := fun s =>
  match work s.files with
  | .ok a files => .ok a { s with files }
  | .error e files => .error (wrap e) { s with files }

def check (wrap : ε → Failure) : Except ε α → HandleM α
  | .ok a => pure a
  | .error e => throw (wrap e)

def failClosed : HandleM α := do
  let h ← handle
  throw (.closed h.id h.label)

/-- Nothing works on a disposed handle that would make or use objects. -/
def refuseDisposed : HandleM Unit := do
  if (← handle).isDisposed then failClosed

end HandleM

end Depot
