import Depot.Files.Path
import Depot.Key.Basic
import Depot.Recency
import Depot.Settings
import Depot.UsedNames

/-! Handles. A handle owns a base directory, gives out the keys of the objects in it, and remembers
which objects of other handles it has copied. -/

namespace Depot

/-- Fresh and closed handles take no new objects; a disposed one is at its end. -/
inductive Lifecycle where
  | fresh
  | opened
  | closed
  | disposed
  deriving DecidableEq

inductive Storage where
  | unassigned
  /-- What `source` holds is copied in on first use. -/
  | restoring (source : Path)
  | placed (base : Path)
  deriving DecidableEq

structure Handle where
  id : Identity
  label : String
  settings : Settings
  layout : Layout
  /-- Where the base directory is made. -/
  tempRoot : Path
  lifecycle : Lifecycle
  storage : Storage
  nextIndex : UInt64
  /-- The names given out so far. Having them is what lets a handle take new objects. -/
  names : Option UsedNames
  /-- From keys of other handles to those of their copies, once there was one to make. -/
  copies : Option (Recency Key Key)

namespace Handle

/-- Whether new objects are taken. -/
def isOpen (h : Handle) : Bool := h.names.isSome

def isDisposed (h : Handle) : Bool := h.lifecycle = .disposed

def isRestoring (h : Handle) : Bool :=
  match h.storage with
  | .restoring _ => true
  | _ => false

def baseDir? (h : Handle) : Option Path :=
  match h.storage with
  | .placed base => some base
  | _ => none

def copiedCount (h : Handle) : Nat :=
  match h.copies with
  | some copies => copies.size
  | none => 0

def text (h : Handle) : String :=
  let dir := match h.baseDir? with
    | some base => base.text
    | none => "<no directory>"
  h.id.text ++ " (" ++ h.label ++ ": " ++ dir ++ ")"

def debug (h : Handle) : String :=
  "FileStoreHandle \x7b id: " ++ h.id.debug ++ ", label: " ++ Text.quote h.label ++ " \x7d"

/-- Stops taking new objects. -/
def close (h : Handle) : Handle :=
  { h with
    names := none
    lifecycle := if h.lifecycle = .opened then .closed else h.lifecycle }

end Handle

end Depot
