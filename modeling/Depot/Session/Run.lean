import Depot.Session.Command
import Depot.Session.Ownership

/-! Running commands. A command that names something which is not there is skipped. -/

namespace Depot

namespace Session

def key? (s : Session) : KeyRef → Option Key
  | .key key => some key
  | .named name => s.keys[name]?

def path? (s : Session) : PathRef → Option Path
  | .path path => some path
  | .store name sub => (s.stores[name]?).map fun store =>
    match sub with
    | none => store.path
    | some sub => store.path.join sub

def store? (s : Session) : StoreRef → Option FileStore
  | .named name => s.stores[name]?
  | .made key path => do some ⟨← s.key? key, ← s.path? path⟩

def setKeyAside (s : Session) (aside : Option String) (key : Key) : Session :=
  match aside with
  | none => s
  | some name => { s with keys := s.keys.insert name key }

def setStoreAside (s : Session) (aside : Option String) (store : FileStore) : Session :=
  match aside with
  | none => s
  | some name => { s with stores := s.stores.insert name store }

/-- Answers with the result of work, or with why it failed. -/
def answer (s : Session) (work : SessionM α) (result : α → Answer) : Answer × Session :=
  match work s with
  | .ok a s => (result a, s)
  | .error e s => (.failed e, s)

def answerFiles (s : Session) (work : FileM α) (result : α → Answer) : Answer × Session :=
  match work s.files with
  | .ok a files => (result a, { s with files })
  | .error e files => (.filesFailed e, { s with files })

def locate (fanout : UInt64) (depth : UInt32) (base : Path) (index : UInt64) (create : Bool) :
    SessionM Path := do
  match Layout.ofConfig fanout depth with
  | .error fault => throw (.badSettings (.layout fault))
  | .ok layout =>
    match layout.path base index with
    | .error o => throw (.overflow o)
    | .ok dir =>
      if create then
        match FileM.ensureShard dir (← get).files with
        | .ok _ files => modify ({ · with files })
        | .error cause files =>
          modify ({ · with files })
          SessionM.report (.shardFailed dir cause)
          throw (.files cause)
      return dir

def numbered (path : Path) (count : Nat) : List Path :=
  (List.range count).map fun n => if n = 0 then path else ⟨path.text ++ "-" ++ toString n⟩

def runFiles (s : Session) : FileCommand → Option (Answer × Session)
  | .mkdir path => do some (s.answerFiles (FileM.mkdirAll (← s.path? path)) fun _ => .done)
  | .mkdirNumbered path count => do
    let paths := numbered (← s.path? path) count
    some (s.answerFiles (paths.forM FileM.mkdirAll) fun _ => .done)
  | .write path content => do
    let path ← s.path? path
    some (s.answerFiles (FileM.change (·.write path content)) fun _ => .done)
  | .read path => do
    let path ← s.path? path
    some (s.answerFiles (FileM.ask (·.read path)) .content)
  | .symlink target path => do
    let path ← s.path? path
    some (s.answerFiles (FileM.change (·.symlink target path)) fun _ => .done)
  | .remove path => do some (s.answerFiles (FileM.remove (← s.path? path)) fun _ => .done)
  | .removeTree path => do some (s.answerFiles (FileM.removeTree (← s.path? path)) fun _ => .done)
  | .look path => do
    match s.files.status (← s.path? path) with
    | .ok (_, node) => some (.node (some node), s)
    | .error _ => some (.node none, s)
  | .tree path => do
    match s.files.status (← s.path? path) with
    | .ok (loc, .dir) => some (.tree (s.files.contents loc), s)
    | .ok _ => some (.filesFailed .notDirectory, s)
    | .error e => some (.filesFailed e, s)
  | .copyTree source target => do
    some (s.answerFiles (FileM.copyTree (← s.path? source) (← s.path? target) s.order) .count)
  | .locate fanout depth base index create => do
    some (s.answer (locate fanout depth (← s.path? base) index create) .path)

def runRegistry (s : Session) (name : String) : RegistryCommand → Option (Answer × Session)
  | .enroll id slot => do
    let held ← s.held[slot]?
    some (s.answer (SessionM.enroll name id held.ticket) fun _ => .done)
  | .retire id => some (s.answer (SessionM.retire name id) .flag)
  | .resolve id =>
    let found := ((s.registry name).resolve s.alive id).bind s.find?
    some (.slots (found.map fun (slot, _) => [slot]), s)
  | .overview =>
    let r := s.registry name
    some (.overview (r.ids s.alive) (r.size s.alive) r.debug, s)
  | .ask id =>
    let r := s.registry name
    some (.standing (r.contains s.alive id) (r.isRetired id), s)

/-- The work of a flush for an object at a path. -/
def flushOf (flush : Option Flush) (path : Path) : FileM Unit :=
  match flush with
  | none | some .count => pure ()
  | some (.fail text) => throw (.reported text)
  | some (.write content) => FileM.change (·.write path content)

/-- Where there is nothing to flush, no flush counts. -/
def answerCopied (s : Session) (work : SessionM Key) (flush : Option Flush)
    (aside : Option String) : Answer × Session :=
  let flushes := fun (s : Session) => if flush.isSome then s.flushes else 0
  match work s with
  | .ok key s => (.copied (.ok key) (flushes s), s.setKeyAside aside key)
  | .error e s => (.copied (.error e) (flushes s), s)

def runHandle (s : Session) (slot : String) (held : Held) :
    HandleCommand → Option (Answer × Session)
  | .reopen => some (onHandle HandleM.reopen fun _ => .done)
  | .close => some (onHandle (HandleM.update Handle.close) fun _ => .done)
  | .dispose => some (s.answer (SessionM.dispose slot held) .disposal)
  | .create name aside => some (keyAside aside (onHandle (HandleM.createObject name) .key))
  | .createInLoop name loop aside =>
    some (keyAside aside (onHandle (HandleM.createInLoop name loop) .key))
  | .setBaseDir path => do
    some (onHandle (HandleM.setBaseDir (← s.path? path)) fun _ => .done)
  | .ensureRestored => some (onHandle HandleM.ensureRestored fun _ => .done)
  | .shardDir index create => some (onHandle (HandleM.shardDir index create) .path)
  | .objectPath key => do some (onHandle (HandleM.objectPath (← s.key? key)) .path)
  | .fileStore key aside => do
    let (answer, s) := s.answer (SessionM.fileStore slot held (← s.key? key)) .store
    match answer with
    | .store store => some (answer, s.setStoreAside aside store)
    | _ => some (answer, s)
  | .owner key => do
    some (.slots ((s.owner? slot held (← s.key? key)).map fun (slot, _) => [slot]), s)
  | .mustCopy key => do some (.flag (s.mustCopy held (← s.key? key)), s)
  | .translate store flush aside => do
    let store ← s.store? store
    let work := SessionM.translate slot held store (flushOf flush store.path)
    some (s.answerCopied work flush aside)
  | .materialize store flush aside => do
    let store ← s.store? store
    let work := SessionM.materialize slot held store (flushOf flush store.path)
    some (s.answerCopied work flush aside)
  | .saved => some (.saved held.handle.saved, s)
  | .describe => some (.described held.handle.text held.handle.debug, s)
where
  onHandle {α : Type} (work : HandleM α) (result : α → Answer) : Answer × Session :=
    s.answer (SessionM.onHandle slot held work) result
  keyAside (aside : Option String) : Answer × Session → Answer × Session
    | (.key key, s) => (.key key, s.setKeyAside aside key)
    | other => other

def run? (s : Session) : Command → Option (Answer × Session)
  | .files command => s.runFiles command
  | .registry name command => s.runRegistry name command
  | .create slot registry settings label id =>
    some (s.answer (SessionM.create slot registry settings label id) .admitted)
  | .restore slot registry settings saved source => do
    let source ← s.path? source
    match saved with
    | .error e => some (.unreadable e, s)
    | .ok saved => some (s.answer (SessionM.restore slot registry settings saved source) .admitted)
  | .drop slot => do
    let _ ← s.held[slot]?
    some (.flag true, { s with held := s.held.erase slot })
  | .handle slot command => do s.runHandle slot (← s.held[slot]?) command

/-- Runs one command. Reports count from its beginning. -/
def run (command : Command) (s : Session) : Answer × Session :=
  let s := { s with events := [], flushes := 0 }
  (s.run? command).getD (.skipped, s)

end Session

end Depot
