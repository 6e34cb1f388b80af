import Depot.Handle.Scene
import Depot.Label

/-! The base directory of a handle and the places in it. It is made on first use, under a name that
shows label and identity, and what a restored handle had before is copied into it. -/

namespace Depot

/-- Makes the first of the directories that can be made, and passes over those that are there. -/
def FileM.claim (none : FileError) : List Path → FileM Path
  | [] => throw none
  | p :: rest => fun fs =>
    match fs.mkdir p with
    | .ok fs' => .ok p fs'
    | .error .alreadyExists => claim none rest fs
    | .error e => .error e fs

namespace Handle

def stem (h : Handle) : String :=
  "fs-" ++ Label.sanitize h.label h.settings.labelLimit.toNat ++ "-" ++ h.id.shortHex

/-- The names a base directory may have, in the order in which they are tried. -/
def candidates (h : Handle) : List String :=
  h.stem :: (List.range 999).map fun n => h.stem ++ "-" ++ toString (n + 1)

end Handle

namespace HandleM

/-- Makes a new base directory. -/
def claimBase : HandleM Path := do
  let h ← handle
  onFiles .files (FileM.mkdirAll h.tempRoot)
  onFiles .files
    (FileM.claim (.noFreeName h.stem h.tempRoot) (h.candidates.map h.tempRoot.child))

/-- Takes the storage out and leaves none in its place. -/
def takeStorage : HandleM Storage := do
  let h ← handle
  update ({ · with storage := .unassigned })
  return h.storage

def putStorage (storage : Storage) : HandleM Unit := update ({ · with storage })

/-- The base directory. A source is done with as soon as there is a directory to copy it to, even
if it cannot be copied. -/
def settle : HandleM Path := do
  let h ← handle
  match ← takeStorage with
  | .placed base =>
    putStorage (.placed base)
    return base
  | .unassigned =>
    let base ← claimBase
    putStorage (.placed base)
    report (.assigned h.id h.label base)
    return base
  | .restoring source =>
    let base ← tryCatch claimBase fun e => do
      putStorage (.restoring source)
      throw e
    putStorage (.placed base)
    report (.restored h.id source base)
    let _ ← onFiles .files (FileM.copyTree source base (← get).order)
    return base

/-- The directory of an index, made if asked for. -/
def locate (base : Path) (index : UInt64) (create : Bool) : HandleM Path := do
  let dir ← check .overflow ((← handle).layout.path base index)
  if create then
    tryCatch (onFiles .files (FileM.ensureShard dir)) fun
      | .files cause => do
        report (.shardFailed dir cause)
        throw (.files cause)
      | e => throw e
  return dir

def needBase : HandleM Path := do
  let h ← handle
  match h.baseDir? with
  | some base => return base
  | none => throw (.noDirectory h.id)

/-- Takes a directory that is there for the base directory. -/
def setBaseDir (dir : Path) : HandleM Unit := do
  let s ← get
  let h := s.handle
  if !s.files.isDir dir then throw (.missingDirectory h.id dir)
  refuseDisposed
  match ← takeStorage with
  | .unassigned => putStorage (.placed dir)
  | .placed base =>
    putStorage (.placed base)
    throw (.directoryAssigned h.id base)
  | .restoring source =>
    putStorage (.placed dir)
    report (.restoredAdopted h.id source dir)
    let _ ← onFiles .files (FileM.copyTree source dir (← get).order)

def restore : HandleM Unit := do
  if (← handle).isRestoring then
    let _ ← settle

def ensureRestored : HandleM Unit := do
  refuseDisposed
  restore

def shardDir (index : UInt64) (create : Bool) : HandleM Path := do
  refuseDisposed
  let base ← if create then settle else needBase
  locate base index create

/-- The path of an object, which need not be there. -/
def objectPath (key : Key) : HandleM Path := do
  let h ← handle
  if key.owner ≠ h.id then throw (.notOwner h.id key)
  restore
  let dir ← locate (← needBase) key.index false
  return dir.child key.name.text

end HandleM

end Depot
