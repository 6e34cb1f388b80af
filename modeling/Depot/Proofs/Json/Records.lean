import Depot.Key.Order
import Depot.Proofs.Json.Fields
import Depot.Proofs.Json.Saved

/-! Everything that is kept as text comes back from it. A record that was written has each of its
fields once and in order, so reading it is storing one field after another. -/

namespace Depot

namespace Json

variable {α : Type}

/-- What a value is written as reads as that value. -/
def Lossless (write : α → Json) (read : Reader α) : Prop :=
  ∀ a, readText read (compact (write a)) = .ok a

theorem lossless_of_whole {write : α → Json} {read : Reader α} (hwhole : ∀ a, Whole (write a))
    (hread : ∀ a, read (write a) = .ok a) : Lossless write read := fun a =>
  (readText_compact read (hwhole a)).trans (hread a)

/-- Values with one text are one value. -/
theorem Lossless.compact_inj {write : α → Json} {read : Reader α} (h : Lossless write read)
    {a b : α} : compact (write a) = compact (write b) ↔ a = b := by
  constructor
  · intro htext
    have hread := h a
    rw [htext, h b] at hread
    cases hread
    rfl
  · exact congrArg fun a => compact (write a)

/-! ## Values in fields -/

theorem readUInt32_nat (n : UInt32) : readUInt32 (.nat n.toNat) = .ok n := by
  rw [readUInt32, readNat_nat n.toNat_lt]
  exact congrArg Except.ok UInt32.ofNat_toNat

theorem readString_string (s : String) : readString (.string s) = .ok s := rfl

theorem readList_list {write : α → Json} {read : Reader α} (h : ∀ a, read (write a) = .ok a)
    (as : List α) : readList read (.list (as.map write)) = .ok as := by
  have hmap : (as.map write).mapM read = .ok as := by
    induction as with
    | nil => rfl
    | cons a as ih => simp only [List.map_cons, List.mapM_cons, h, ih]; rfl
  simp only [list, readList, hmap]
  rfl

theorem readOption_option {write : α → Json} {read : Reader α} (h : ∀ a, read (write a) = .ok a)
    (hnull : ∀ a, write a ≠ .null) (o : Option α) : readOption read (option write o) = .ok o := by
  cases o with
  | none => rfl
  | some a =>
    simp only [option]
    unfold readOption
    split
    · next he => exact absurd he (hnull a)
    · rw [h a]
      rfl

theorem Whole.uint64 (n : UInt64) : Whole (.nat n.toNat) := .nat n.toNat_lt

theorem Whole.uint32 (n : UInt32) : Whole (.nat n.toNat) :=
  .nat (Nat.lt_trans n.toNat_lt (by decide))

theorem Whole.option {write : α → Json} (h : ∀ a, Whole (write a)) (o : Option α) :
    Whole (option write o) := by
  cases o with
  | none => exact .null
  | some a => exact h a

end Json

open Json RecordField

/-! ## Loop contexts and keys -/

theorem Identity.whole_toJson (id : Identity) : Whole id.toJson := .string id.text

namespace LoopContext

theorem whole_toJson (l : LoopContext) : Whole l.toJson := by
  refine .record fun m hm => ?_
  simp only [List.mem_cons, List.not_mem_nil, or_false] at hm
  rcases hm with rfl | rfl
  · refine .list fun v hv => ?_
    obtain ⟨n, -, rfl⟩ := List.mem_map.1 hv
    exact .uint32 n
  · exact .option Whole.uint32 l.iteration

theorem reader_toJson (l : LoopContext) : reader l.toJson = .ok l := by
  have hpath := readList_list readUInt32_nat l.path
  have hiteration := readOption_option readUInt32_nat (fun _ => nofun) l.iteration
  have htakes : Takes fields {}
      [(.ok "nested_loop_path", .list (l.path.map fun n => .nat n.toNat)),
        (.ok "iteration_index", .option (fun n => .nat n.toNat) l.iteration)]
      ⟨some l.path, some l.iteration⟩ :=
    .known rfl rfl (store_required hpath _) <|
    .known rfl rfl (store_optional hiteration _) .nil
  have hread : readRecord fields {} l.toJson = .ok ⟨some l.path, some l.iteration⟩ :=
    htakes.readRecord (by simp [fields, required, RecordField.optional])
  rw [reader, hread]
  rfl

end LoopContext

namespace Key

theorem whole_toJson (k : Key) : Whole k.toJson := by
  refine .record fun m hm => ?_
  simp only [List.mem_cons, List.not_mem_nil, or_false] at hm
  rcases hm with rfl | rfl | rfl | rfl
  · exact k.owner.whole_toJson
  · exact .uint64 k.index
  · exact k.loop.whole_toJson
  · exact .string k.name.text

theorem make_parts (k : Key) : make k.owner k.index k.loop k.name.text = .ok k := by
  rw [make, ObjectName.ofString_text]
  rfl

theorem reader_toJson (k : Key) : reader k.toJson = .ok k := by
  have htakes : Takes fields {}
      [(.ok "owner", k.owner.toJson), (.ok "index", .nat k.index.toNat),
        (.ok "loop_context", k.loop.toJson), (.ok "name", .string k.name.text)]
      ⟨some k.owner, some k.index, some k.loop, some k.name.text⟩ :=
    .known rfl rfl (store_required k.owner.reader_toJson _) <|
    .known rfl rfl (store_required (readUInt64_nat k.index) _) <|
    .known rfl rfl (store_defaulted k.loop.reader_toJson _) <|
    .known rfl rfl (store_required (readString_string k.name.text) _) .nil
  have hread : readRecord fields {} k.toJson =
      .ok ⟨some k.owner, some k.index, some k.loop, some k.name.text⟩ :=
    htakes.readRecord (by simp [fields, required, defaulted])
  rw [reader, hread]
  simp only [bind, Except.bind, make_parts]

end Key

/-! ## Settings -/

namespace Settings

theorem whole_toJson (s : Settings) : Whole s.toJson := by
  refine .record fun m hm => ?_
  simp only [List.mem_cons, List.not_mem_nil, or_false] at hm
  rcases hm with rfl | rfl | rfl | rfl | rfl
  · exact .uint64 s.fanout
  · exact .uint32 s.depth
  · exact .uint64 s.copyLimit
  · exact .option (fun (p : Path) => .string p.text) s.tempRoot
  · exact .uint64 s.labelLimit

theorem reader_toJson (s : Settings) : reader s.toJson = .ok s := by
  have hroot : readOption (fun v => (readString v).map Path.mk)
      (.option (fun p => .string p.text) s.tempRoot) = .ok s.tempRoot :=
    @readOption_option Path (fun p => .string p.text) _ (fun _ => rfl) (fun _ => nofun) s.tempRoot
  have htakes : Takes fields {}
      [(.ok "fanout", .nat s.fanout.toNat), (.ok "depth", .nat s.depth.toNat),
        (.ok "dedup_capacity", .nat s.copyLimit.toNat),
        (.ok "temp_root", .option (fun p => .string p.text) s.tempRoot),
        (.ok "max_label_len", .nat s.labelLimit.toNat)]
      ⟨some s.fanout, some s.depth, some s.copyLimit, some s.tempRoot, some s.labelLimit⟩ :=
    .known rfl rfl (store_defaulted (readUInt64_nat s.fanout) _) <|
    .known rfl rfl (store_defaulted (readUInt32_nat s.depth) _) <|
    .known rfl rfl (store_defaulted (readUInt64_nat s.copyLimit) _) <|
    .known rfl rfl (store_defaulted hroot _) <|
    .known rfl rfl (store_defaulted (readUInt64_nat s.labelLimit) _) .nil
  have hread : readRecord fields {} s.toJson = .ok
      ⟨some s.fanout, some s.depth, some s.copyLimit, some s.tempRoot, some s.labelLimit⟩ :=
    htakes.readRecord (by simp [fields, defaulted])
  rw [reader, hread]
  rfl

end Settings

/-- Identities, loop contexts, keys, what is kept of handles, and settings are read off their texts
as they were written. So keys that have been through their texts are the same if and only if they
were, and they are in the same order. -/
theorem texts_lossless :
    Lossless Identity.toJson Identity.reader ∧
    Lossless LoopContext.toJson LoopContext.reader ∧
    Lossless Key.toJson Key.reader ∧
    Lossless SavedHandle.toJson SavedHandle.reader ∧
    Lossless Settings.toJson Settings.reader ∧
    ∀ a b : Key, ∃ a' b', readText Key.reader (compact a.toJson) = .ok a' ∧
      readText Key.reader (compact b.toJson) = .ok b' ∧
      (a' = b' ↔ a = b) ∧ compare a' b' = compare a b ∧
      (compact a.toJson = compact b.toJson ↔ a = b) := by
  have hkeys : Lossless Key.toJson Key.reader :=
    lossless_of_whole Key.whole_toJson Key.reader_toJson
  refine ⟨lossless_of_whole Identity.whole_toJson Identity.reader_toJson,
    lossless_of_whole LoopContext.whole_toJson LoopContext.reader_toJson, hkeys,
    lossless_of_whole SavedHandle.whole_toJson SavedHandle.reader_toJson,
    lossless_of_whole Settings.whole_toJson Settings.reader_toJson, ?_⟩
  intro a b
  refine ⟨a, b, hkeys a, hkeys b, Iff.rfl, rfl, hkeys.compact_inj⟩

end Depot
