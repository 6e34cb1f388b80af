import Depot.Identity.Basic
import Depot.Name

/-! Keys of stored objects. A key names its object for good: the handle that owns it, the index the
handle gave it, the place in a loop where it was made, and its name. -/

namespace Depot

/-- The loops an object was made in, outermost first, and the iteration of the innermost. -/
structure LoopContext where
  path : List UInt32
  iteration : Option UInt32
  deriving DecidableEq

namespace LoopContext

/-- Outside of any loop. -/
def empty : LoopContext := ⟨[], none⟩

instance : Inhabited LoopContext := ⟨empty⟩

def isEmpty (l : LoopContext) : Bool := l.path.isEmpty && l.iteration.isNone

def text (l : LoopContext) : String :=
  let tail := match l.iteration with
    | some n => "#" ++ toString n.toNat
    | none => ""
  " loop=" ++ Text.bracketed (l.path.map fun n => toString n.toNat) ++ tail

end LoopContext

structure Key where
  owner : Identity
  index : UInt64
  loop : LoopContext
  name : ObjectName
  deriving DecidableEq

namespace Key

def make (owner : Identity) (index : UInt64) (loop : LoopContext) (name : String) :
    Except NameError Key :=
  (ObjectName.ofString name).map fun name => ⟨owner, index, loop, name⟩

def text (k : Key) : String :=
  let place := k.owner.shortId ++ "/" ++ toString k.index.toNat ++ "/" ++ k.name.text
  if k.loop.isEmpty then place else place ++ k.loop.text

def debug (k : Key) : String := "ObjectKey(" ++ k.text ++ ")"

end Key

end Depot
