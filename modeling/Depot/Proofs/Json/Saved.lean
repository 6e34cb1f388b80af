import Depot.Handle.Saved
import Depot.Proofs.Identity
import Depot.Proofs.Json.Fields
import Depot.Proofs.Json.RoundTrip

/-! What is kept of a handle comes back from its text as it was. -/

namespace Depot

namespace Identity

theorem reader_toJson (id : Identity) : reader id.toJson = .ok id := by
  unfold reader toJson Json.readString
  simp only [bind, Except.bind, ofString_text]

end Identity

namespace SavedHandle

open Json

theorem whole_toJson (s : SavedHandle) : Whole s.toJson := by
  refine .record fun m hm => ?_
  simp only [List.mem_cons, List.not_mem_nil, or_false] at hm
  rcases hm with rfl | rfl | rfl
  · exact .string s.label
  · exact .string s.id.text
  · exact .nat s.nextIndex.toNat_lt

theorem reader_toJson (s : SavedHandle) : reader s.toJson = .ok s := by
  have hlabel : readString (.string s.label) = .ok s.label := rfl
  have htakes : Takes fields {}
      [(.ok "label", .string s.label), (.ok "id", s.id.toJson),
        (.ok "next_index", .nat s.nextIndex.toNat)]
      ⟨some s.label, some s.id, some s.nextIndex⟩ :=
    .known rfl rfl (RecordField.store_required hlabel _) <|
    .known rfl rfl (RecordField.store_required s.id.reader_toJson _) <|
    .known rfl rfl (RecordField.store_defaulted (readUInt64_nat s.nextIndex) _) .nil
  have hread : readRecord fields {} s.toJson =
      .ok ⟨some s.label, some s.id, some s.nextIndex⟩ :=
    htakes.readRecord (by simp [fields, RecordField.required, RecordField.defaulted])
  rw [reader, hread]
  rfl

/-- A record that was written reads as it was. -/
theorem readText_compact (s : SavedHandle) : readText reader (compact s.toJson) = .ok s := by
  rw [Json.readText_compact reader s.whole_toJson, reader_toJson]

end SavedHandle

end Depot
