import Depot.Handle.Scene

/-! The end of a handle. Its base directory goes with it, as far as that can be. -/

namespace Depot.Scene

def report (s : Scene) (e : Event) : Scene := { s with events := s.events ++ [e] }

/-- Removes a base directory and says how that went. -/
def removeBase (s : Scene) (base : Path) : Disposal × Scene :=
  let shown := s.handle.text
  match FileM.removeTree base s.files with
  | .ok () files => (.removed, { s with files }.report (.deleted shown base))
  | .error .notFound files =>
    (.alreadyRemoved, { s with files }.report (.alreadyDeleted shown base))
  | .error e files => (.incomplete base e, { s with files }.report (.notDeleted shown base e))

/-- Ends a handle whatever its state is. `deregistered` tells whether the registry knew it. -/
def dispose (s : Scene) (deregistered : Bool) : Disposal × Scene :=
  let gone := { s with
    handle := { s.handle with
      lifecycle := .disposed
      names := none
      copies := none
      storage := .unassigned } }
  let (outcome, gone) : Disposal × Scene := match s.handle.storage with
    | .unassigned => (.noDirectory, gone)
    | .restoring source => (.noDirectory, gone.report (.neverRestored gone.handle.text source))
    | .placed base => gone.removeBase base
  (outcome, gone.report (.disposed s.handle.id deregistered outcome))

end Depot.Scene
