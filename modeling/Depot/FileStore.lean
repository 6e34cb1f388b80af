import Depot.Files.Path
import Depot.Key.Basic

/-! Stored objects as they are handed around: by key, with the place of the content. -/

namespace Depot

structure FileStore where
  key : Key
  path : Path
  deriving DecidableEq

end Depot
