import Depot.FileStore
import Depot.Files.FileSystem
import Depot.Handle.Event
import Depot.Handle.Saved
import Depot.Json.Record

/-! What a session can be asked, and what it answers. Commands name handles, keys and stores that
earlier commands have put aside. -/

namespace Depot

inductive KeyRef where
  | key (key : Key)
  | named (name : String)

inductive PathRef where
  | path (path : Path)
  /-- The path of a store, or one below. -/
  | store (name : String) (sub : Option Path)

inductive StoreRef where
  | named (name : String)
  | made (key : KeyRef) (path : PathRef)

/-- What an object does when asked to write out what it still has in memory. -/
inductive Flush where
  | count
  | fail (text : String)
  | write (content : Content)

/-- What is done to files beside the handles. -/
inductive FileCommand where
  | mkdir (path : PathRef)
  /-- `path`, `path-1` and so on. -/
  | mkdirNumbered (path : PathRef) (count : Nat)
  | write (path : PathRef) (content : Content)
  | read (path : PathRef)
  | symlink (target : Path) (path : PathRef)
  | remove (path : PathRef)
  | removeTree (path : PathRef)
  | look (path : PathRef)
  | tree (path : PathRef)
  | copyTree (source target : PathRef)
  | locate (fanout : UInt64) (depth : UInt32) (base : PathRef) (index : UInt64) (create : Bool)

inductive RegistryCommand where
  | enroll (id : Identity) (slot : String)
  | retire (id : Identity)
  | resolve (id : Identity)
  | overview
  | ask (id : Identity)

/-- Names to put results aside under come last. -/
inductive HandleCommand where
  | reopen
  | close
  | dispose
  | create (name : String) (aside : Option String)
  | createInLoop (name : String) (loop : LoopContext) (aside : Option String)
  | setBaseDir (path : PathRef)
  | ensureRestored
  | shardDir (index : UInt64) (create : Bool)
  | objectPath (key : KeyRef)
  | fileStore (key : KeyRef) (aside : Option String)
  | owner (key : KeyRef)
  | mustCopy (key : KeyRef)
  | translate (store : StoreRef) (flush : Option Flush) (aside : Option String)
  | materialize (store : StoreRef) (flush : Option Flush) (aside : Option String)
  | saved
  | describe

inductive Command where
  | files (command : FileCommand)
  | registry (name : String) (command : RegistryCommand)
  | create (slot registry : String) (settings : Settings) (label : String) (id : Identity)
  | restore (slot registry : String) (settings : Settings)
      (saved : Except Json.ReadError SavedHandle) (source : PathRef)
  | drop (slot : String)
  | handle (slot : String) (command : HandleCommand)

inductive Answer where
  /-- The command names something that is not there. -/
  | skipped
  | done
  | failed (failure : Failure)
  | filesFailed (cause : FileError)
  | unreadable (e : Json.ReadError)
  | flag (b : Bool)
  | count (n : Nat)
  | path (path : Path)
  | key (key : Key)
  | content (content : Content)
  | node (node : Option Node)
  | tree (entries : List (Location × Node))
  | slots (slots : Option (List String))
  | overview (ids : List Identity) (size : Nat) (debug : String)
  | standing (contained retired : Bool)
  | admitted (handle : Handle)
  | disposal (outcome : Disposal)
  | store (store : FileStore)
  /-- The key of an object or its copy, and how many flushes that took. -/
  | copied (result : Except Failure Key) (flushes : Nat)
  | saved (saved : SavedHandle)
  | described (text debug : String)

end Depot
