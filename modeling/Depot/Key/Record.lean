import Depot.Identity.Spelling
import Depot.Json.Compact
import Depot.Json.Record
import Depot.Key.Basic

/-! Keys, loop contexts and identities as JSON. -/

namespace Depot

open Json

namespace Identity

def toJson (id : Identity) : Json := .string id.text

def reader : Reader Identity := fun v => do
  match Identity.ofString (← readString v) with
  | .ok id => .ok id
  | .error _ => .error .mismatch

end Identity

namespace LoopContext

def toJson (l : LoopContext) : Json :=
  .record [("nested_loop_path", .list (l.path.map fun n => .nat n.toNat)),
    ("iteration_index", .option (fun n => .nat n.toNat) l.iteration)]

structure Draft where
  path : Option (List UInt32) := none
  iteration : Option (Option UInt32) := none

def fields : List (RecordField Draft) :=
  [.required "nested_loop_path" (readList readUInt32) (·.path) fun d v => { d with path := v },
    .optional "iteration_index" readUInt32 (·.iteration) fun d v => { d with iteration := v }]

def reader : Reader LoopContext := fun v => do
  match ← readRecord fields {} v with
  | ⟨some path, some iteration⟩ => .ok ⟨path, iteration⟩
  | _ => .error .mismatch

end LoopContext

namespace Key

def toJson (k : Key) : Json :=
  .record [("owner", k.owner.toJson), ("index", .nat k.index.toNat),
    ("loop_context", k.loop.toJson), ("name", .string k.name.text)]

structure Draft where
  owner : Option Identity := none
  index : Option UInt64 := none
  loop : Option LoopContext := none
  name : Option String := none

def fields : List (RecordField Draft) :=
  [.required "owner" Identity.reader (·.owner) fun d v => { d with owner := v },
    .required "index" readUInt64 (·.index) fun d v => { d with index := v },
    .defaulted "loop_context" LoopContext.reader .empty (·.loop) fun d v => { d with loop := v },
    .required "name" readString (·.name) fun d v => { d with name := v }]

/-- The rule for names is looked at once the whole record has been read. -/
def reader : Reader Key := fun v => do
  match ← readRecord fields {} v with
  | ⟨some owner, some index, some loop, some name⟩ =>
    match Key.make owner index loop name with
    | .ok k => .ok k
    | .error e => .error (.badName e)
  | _ => .error .mismatch

end Key

end Depot
