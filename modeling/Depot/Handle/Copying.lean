import Depot.FileStore
import Depot.Handle.Creation

/-! Copies of the objects of other handles. A handle remembers its latest copies, and does not copy
the same object again while it does. -/

namespace Depot

namespace HandleM

/-- The copies made so far. The first time, the handles that can be reached are reported. -/
def recallCopies (foreign : Key) (live : List Identity) : HandleM (Recency Key Key) := do
  let h ← handle
  match h.copies with
  | some copies => return copies
  | none =>
    let copies := .empty h.settings.copyLimit.toNat
    report (.ownerUnknown h.id foreign.owner)
    report (.liveHandles live)
    update ({ · with copies := some copies })
    return copies

/-- Has `flush` write out what is still in memory, then makes a key and copies the content to its
place. -/
def copyObject (store : FileStore) (flush : FileM Unit) : HandleM Key := do
  modify fun s => { s with flushes := s.flushes + 1 }
  onFiles (.copyFailed store.key) flush
  let name := toString (← handle).nextIndex.toNat ++ "_" ++ store.key.name.text
  let key ← allocate name .empty
  let dir ← locate (← needBase) key.index false
  let _ ← onFiles (.copyFailed store.key)
    (FileM.copyTree store.path (dir.child key.name.text) (← get).order)
  return key

/-- The key of a copy of an object, made now or remembered. -/
def materializeCopy (store : FileStore) (live : List Identity) (flush : FileM Unit) :
    HandleM Key := do
  refuseDisposed
  let copies ← recallCopies store.key live
  match copies.use store.key with
  | some (key, copies) =>
    update ({ · with copies := some copies })
    return key
  | none =>
    let key ← copyObject store flush
    update fun h => { h with copies := h.copies.map (·.put store.key key) }
    report (.copied store.key key)
    return key

end HandleM

end Depot
