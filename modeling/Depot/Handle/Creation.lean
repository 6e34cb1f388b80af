import Depot.Handle.Directory

/-! Making keys for new objects. -/

namespace Depot.HandleM

/-- Forgets the names given out and takes new objects from now on. -/
def reopen : HandleM Unit := do
  refuseDisposed
  update fun h => { h with names := some (.none h.id), lifecycle := .opened }

def openNames : HandleM UsedNames := do
  match (← handle).names with
  | some names => return names
  | none => failClosed

/-- Makes the next key and the directory its object goes to. The index is used up only once the
key is handed out. -/
def allocate (name : String) (loop : LoopContext) : HandleM Key := do
  refuseDisposed
  let h ← handle
  let key ← check .badName (Key.make h.id h.nextIndex loop name)
  check .overflow (h.layout.check h.nextIndex)
  let base ← settle
  let _ ← locate base h.nextIndex true
  update fun h => { h with nextIndex := h.nextIndex + 1 }
  return key

/-- A key with a name that no other object has been made with since the handle was opened. -/
def createObject (name : String) : HandleM Key := do
  let _ ← check .badName (ObjectName.ofString name)
  check .nameInUse ((← openNames).ensureUnused name)
  let key ← allocate name .empty
  let names ← check .nameInUse ((← openNames).add name)
  update ({ · with names := some names })
  return key

/-- A key made in a loop, where each iteration uses the same names. -/
def createInLoop (name : String) (loop : LoopContext) : HandleM Key := do
  let _ ← check .badName (ObjectName.ofString name)
  let _ ← openNames
  allocate name loop

end Depot.HandleM
