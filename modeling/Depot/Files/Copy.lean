import Depot.Files.Change

/-! Copying files and directories. What is in the target already stays unless the source has a file
of that name. Links below the source are copied as the files they lead to. Every file and every
directory is reached by a path of its own, the source's or the target's continued. A file is opened
for writing before it is read, so one that is copied to itself ends up empty. -/

namespace Depot

/-- The order in which directories list their names. -/
structure ListingOrder where
  arrange : Location → List String → List String
  perm : ∀ dir names, (arrange dir names).Perm names

def ListingOrder.byName : ListingOrder := ⟨fun _ names => names, fun _ names => .refl names⟩

namespace FileSystem

/-- Copies the file one path leads to to where another leads. -/
def copyFile (fs : FileSystem) (source target : Path) : Except FileError FileSystem := do
  match ← fs.status source with
  | (loc, .file _) =>
    let opened ← fs.write target []
    match opened.node? loc with
    | some (.file content) => opened.write target content
    | _ => .ok opened
  | _ => .error .notRegular

end FileSystem

namespace FileM

/-- Opens a directory and lists its names. -/
def listing (order : ListingOrder) (p : Path) : FileM (Location × List String) := do
  match ← ask (·.status p) with
  | (dir, .dir) => return (dir, order.arrange dir ((← get).children dir))
  | _ => throw .notDirectory

/-- Copies one name of a directory, `origin`, that the path of the source leads to. -/
def copyEntry (descend : Path → Path → FileM Nat) (source target : Path) (origin : Location)
    (count : Nat) (name : String) : FileM Nat := do
  match (← get).node? (origin ++ [name]) with
  | some .dir =>
    mkdirAll (target.child name)
    return count + (← descend (source.child name) (target.child name))
  | _ =>
    change (·.copyFile (source.child name) (target.child name))
    return count + 1

/-- Copies what a directory holds when its turn comes, `levels` deep at most. Each level makes the
path of the source longer, so there are never more levels than bytes in the longest path. -/
def copyLevel (order : ListingOrder) : (levels : Nat) → (source target : Path) → FileM Nat
  | 0, _, _ => throw .nameTooLong
  | levels + 1, source, target => do
    let (origin, names) ← listing order source
    names.foldlM (copyEntry (copyLevel order levels) source target origin) 0

/-- Copies a directory over another, or a file to a path, and makes the directories that lead
there. Answers how many files were copied. -/
def copyTree (source target : Path) (order : ListingOrder) : FileM Nat := do
  match ← ask (·.status source) with
  | (_, .dir) =>
    mkdirAll target
    copyLevel order (FileSystem.longestPath + 1) source target
  | _ =>
    if let some above := target.parent? then mkdirAll above
    change (·.copyFile source target)
    return 1

end FileM

end Depot
