import Depot.Files.FileError
import Depot.Key.Basic
import Depot.Settings
import Depot.UsedNames

/-! Why an operation of a handle fails. -/

namespace Depot

inductive Failure where
  | badName (e : NameError)
  | nameInUse (e : NameInUse)
  /-- No new objects, because the handle is closed or disposed. -/
  | closed (handle : Identity) (label : String)
  | overflow (o : Overflow)
  | unknownOwner (key : Key)
  | copyFailed (foreign : Key) (cause : FileError)
  | noDirectory (handle : Identity)
  | notOwner (handle : Identity) (key : Key)
  | missingDirectory (handle : Identity) (path : Path)
  | directoryAssigned (handle : Identity) (path : Path)
  | alreadyRegistered (id : Identity)
  | retired (id : Identity)
  | badSettings (fault : SettingsFault)
  | files (cause : FileError)
  deriving DecidableEq

namespace Failure

def message : Failure → String
  | badName e => e.message
  | nameInUse e => e.message
  | closed handle label => "file store " ++ handle.text ++ " (" ++ label ++ ") is read only/closed"
  | overflow o => o.message
  | unknownOwner key =>
    "owner " ++ key.owner.text ++ " of file store key " ++ key.text ++ " cannot be resolved"
  | copyFailed foreign cause =>
    "failed copying file store " ++ foreign.text ++ " to local handler: " ++ cause.message
  | noDirectory handle => "no file stores in " ++ handle.text
  | notOwner handle key => "file store key " ++ key.text ++ " is not owned by " ++ handle.text
  | missingDirectory handle path =>
    "base directory of file store " ++ handle.text ++ " does not exist: " ++ path.quoted
  | directoryAssigned handle path =>
    "file store " ++ handle.text ++ " already has base directory " ++ path.quoted
  | alreadyRegistered id => "file store handle " ++ id.text ++ " is already registered"
  | retired id =>
    "file store handle " ++ id.text ++ " was disposed and cannot be registered again"
  | badSettings fault => "invalid configuration: " ++ fault.message
  | files cause => "I/O error: " ++ cause.message

/-- What went wrong with files, if that is what the failure is about. -/
def cause? : Failure → Option FileError
  | copyFailed _ cause | files cause => some cause
  | _ => none

end Failure

end Depot
