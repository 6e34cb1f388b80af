import Depot.Handle.Basic
import Depot.Key.Record

/-! What is kept of a handle to restore it later. -/

namespace Depot

structure SavedHandle where
  label : String
  id : Identity
  /-- The index to go on with, so that none is given out twice. -/
  nextIndex : UInt64
  deriving DecidableEq

def Handle.saved (h : Handle) : SavedHandle := ⟨h.label, h.id, h.nextIndex⟩

namespace SavedHandle

def toJson (s : SavedHandle) : Json :=
  .record [("label", .string s.label), ("id", s.id.toJson), ("next_index", .nat s.nextIndex.toNat)]

structure Draft where
  label : Option String := none
  id : Option Identity := none
  nextIndex : Option UInt64 := none

open Json in
def fields : List (RecordField Draft) :=
  [.required "label" readString (·.label) fun d v => { d with label := v },
    .required "id" Identity.reader (·.id) fun d v => { d with id := v },
    .defaulted "next_index" readUInt64 0 (·.nextIndex) fun d v => { d with nextIndex := v }]

open Json in
def reader : Reader SavedHandle := fun v => do
  match ← readRecord fields {} v with
  | ⟨some label, some id, some nextIndex⟩ => .ok ⟨label, id, nextIndex⟩
  | _ => .error .mismatch

end SavedHandle

end Depot
