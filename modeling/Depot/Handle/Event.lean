import Depot.Handle.Failure

/-! What handles and registries report while they work. -/

namespace Depot

/-- How disposing of a handle went for its base directory. -/
inductive Disposal where
  | noDirectory
  | alreadyRemoved
  | removed
  | incomplete (base : Path) (cause : FileError)
  deriving DecidableEq

namespace Disposal

/-- Why a base directory is still there, or some of it. -/
def reason (base : Path) (cause : FileError) : String :=
  "file store directory " ++ base.quoted ++ " not or only partially deleted: " ++ cause.message

def debug : Disposal → String
  | noDirectory => "NoDirectory"
  | alreadyRemoved => "AlreadyRemoved"
  | removed => "Removed"
  | incomplete base cause =>
    "Incomplete \x7b reason: " ++ Text.quote (reason base cause) ++ " \x7d"

end Disposal

inductive Level where
  | debug
  | warn
  | error
  deriving DecidableEq

/-- A handle is named by its identity, or by all that it shows of itself. -/
inductive Event where
  | registered (handle : Identity) (label : String)
  | refused (handle : Identity)
  | assigned (handle : Identity) (label : String) (base : Path)
  | restored (handle : Identity) (source target : Path)
  | restoredAdopted (handle : Identity) (source target : Path)
  | shardFailed (path : Path) (cause : FileError)
  | ownerUnknown (handle foreign : Identity)
  | liveHandles (ids : List Identity)
  | copied (foreign copy : Key)
  | neverRestored (handle : String) (source : Path)
  | deleted (handle : String) (base : Path)
  | alreadyDeleted (handle : String) (base : Path)
  | notDeleted (handle : String) (base : Path) (cause : FileError)
  | disposed (handle : Identity) (deregistered : Bool) (outcome : Disposal)
  deriving DecidableEq

namespace Event

def level : Event → Level
  | refused .. | notDeleted .. => .warn
  | shardFailed .. => .error
  | _ => .debug

def message : Event → String
  | registered .. => "file store handle registered"
  | refused .. => "refusing to register a disposed file store handle"
  | assigned .. => "assigning temp directory to file store"
  | restored .. => "restoring file store directory"
  | restoredAdopted .. => "restoring file store directory into adopted folder"
  | shardFailed .. => "failed to create shard directory"
  | ownerUnknown .. =>
    "duplicating file store objects, owning handle is unknown to the registry"
  | liveHandles .. => "valid file store handles"
  | copied .. => "copied foreign file store"
  | neverRestored .. => "disposing file store, never restored"
  | deleted .. => "disposing file store, folder successfully deleted"
  | alreadyDeleted .. => "disposing file store, associated folder already deleted"
  | notDeleted .. => "disposing file store"
  | disposed .. => "file store handle disposed"

def fields : Event → List (String × String)
  | registered handle label => [("handle", handle.shortId), ("label", label)]
  | refused handle => [("handle", handle.shortId)]
  | assigned handle label base =>
    [("handle", handle.shortId), ("label", label), ("path", base.text)]
  | restored handle source target | restoredAdopted handle source target =>
    [("handle", handle.shortId), ("source", source.text), ("target", target.text)]
  | shardFailed path cause => [("path", path.text), ("error", cause.message)]
  | ownerUnknown handle foreign =>
    [("handle", handle.shortId), ("foreign", foreign.shortId)]
  | liveHandles ids => [("live", Text.bracketed (ids.map Identity.debug))]
  | copied foreign copy => [("foreign", foreign.text), ("local", copy.text)]
  | neverRestored handle source => [("handle", handle), ("source", source.text)]
  | deleted handle base | alreadyDeleted handle base =>
    [("handle", handle), ("path", base.text)]
  | notDeleted handle base cause =>
    [("handle", handle), ("error", Disposal.reason base cause)]
  | disposed handle deregistered outcome =>
    [("handle", handle.shortId), ("deregistered", toString deregistered),
      ("outcome", outcome.debug)]

end Event

end Depot
