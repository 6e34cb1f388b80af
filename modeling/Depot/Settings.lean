import Depot.Files.Path
import Depot.Json.Compact
import Depot.Json.Record
import Depot.Layout

/-! What the handles of a session share: the layout, how many copies a handle remembers, where base
directories go and how much of a label they show. -/

namespace Depot

structure Settings where
  fanout : UInt64
  depth : UInt32
  copyLimit : UInt64
  tempRoot : Option Path
  labelLimit : UInt64
  deriving DecidableEq

inductive SettingsFault where
  | noCopies
  | layout (fault : LayoutFault)
  deriving DecidableEq

def SettingsFault.message : SettingsFault → String
  | .noCopies => "dedup_capacity must be at least 1"
  | .layout fault => fault.message

namespace Settings

def standard : Settings := ⟨1000, 2, 10000, none, 32⟩

/-- The standard settings with base directories below `root`. -/
def below (root : Path) : Settings := { standard with tempRoot := some root }

def layout (s : Settings) : Except SettingsFault Layout :=
  (Layout.ofConfig s.fanout s.depth).mapError .layout

/-- The layout of settings that hold good. -/
def validate (s : Settings) : Except SettingsFault Layout :=
  if s.copyLimit = 0 then .error .noCopies else s.layout

def toJson (s : Settings) : Json :=
  .record [("fanout", .nat s.fanout.toNat), ("depth", .nat s.depth.toNat),
    ("dedup_capacity", .nat s.copyLimit.toNat),
    ("temp_root", .option (fun p => .string p.text) s.tempRoot),
    ("max_label_len", .nat s.labelLimit.toNat)]

structure Draft where
  fanout : Option UInt64 := none
  depth : Option UInt32 := none
  copyLimit : Option UInt64 := none
  tempRoot : Option (Option Path) := none
  labelLimit : Option UInt64 := none

open Json in
/-- Every field may be left out. -/
def fields : List (RecordField Draft) :=
  [.defaulted "fanout" readUInt64 standard.fanout (·.fanout) fun d v => { d with fanout := v },
    .defaulted "depth" readUInt32 standard.depth (·.depth) fun d v => { d with depth := v },
    .defaulted "dedup_capacity" readUInt64 standard.copyLimit (·.copyLimit)
      fun d v => { d with copyLimit := v },
    .defaulted "temp_root" (readOption fun v => (readString v).map Path.mk) standard.tempRoot
      (·.tempRoot) fun d v => { d with tempRoot := v },
    .defaulted "max_label_len" readUInt64 standard.labelLimit (·.labelLimit)
      fun d v => { d with labelLimit := v }]

open Json in
def reader : Reader Settings := fun v => do
  match ← readRecord fields {} v with
  | ⟨some fanout, some depth, some copyLimit, some tempRoot, some labelLimit⟩ =>
    .ok ⟨fanout, depth, copyLimit, tempRoot, labelLimit⟩
  | _ => .error .mismatch

end Settings

end Depot
