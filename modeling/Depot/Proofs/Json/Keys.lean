import Depot.Key.Record
import Depot.Proofs.Json.Fields
import Depot.Proofs.Names
import Depot.Proofs.Work

/-! The names of keys that are read. A key has the name that its text gives it, and no other. -/

namespace Depot

open Json Work

theorem Json.readString_eq_ok {v : Json} {s : String} : readString v = .ok s ↔ v = .string s := by
  cases v <;> simp [readString]

namespace Key

/-- The value gives this name to a key: as the member `name`, or as the fourth item. -/
inductive Named (name : String) : Json → Prop where
  | member {members : List (Except Flaw String × Json)} {ending : Option Break} :
      (.ok "name", .string name) ∈ members → Named name (.object members ending)
  | item {items : List Json} {ending : Option Break} :
      items[3]? = some (.string name) → Named name (.array items ending)

/-! ## Objects -/

variable {field : RecordField Draft} {d d' : Draft} {v : Json}

/-- What is stored in which field. -/
theorem store_cases (hf : field ∈ fields) (h : field.store v d = .ok d') :
    (field.name = "owner" ∧ ∃ id, Identity.reader v = .ok id ∧ d' = { d with owner := some id }) ∨
    (field.name = "index" ∧ ∃ n, readUInt64 v = .ok n ∧ d' = { d with index := some n }) ∨
    (field.name = "loop_context" ∧
      ∃ l, LoopContext.reader v = .ok l ∧ d' = { d with loop := some l }) ∨
    (field.name = "name" ∧
      ∃ name, readString v = .ok name ∧ d' = { d with name := some name }) := by
  simp only [fields, List.mem_cons, List.not_mem_nil, or_false] at hf
  rcases hf with rfl | rfl | rfl | rfl <;> obtain ⟨a, hread, hd⟩ := except_bind_eq_ok.1 h <;>
    cases hd
  · exact .inl ⟨rfl, a, hread, rfl⟩
  · exact .inr (.inl ⟨rfl, a, hread, rfl⟩)
  · exact .inr (.inr (.inl ⟨rfl, a, hread, rfl⟩))
  · exact .inr (.inr (.inr ⟨rfl, a, hread, rfl⟩))

theorem slot_owner : Slot fields "owner" Identity.reader (·.owner) where
  own := ⟨_, rfl, RecordField.keeps_required fun _ _ => rfl⟩
  spared _ hf hne _ _ _ h := by
    rcases store_cases hf h with ⟨hname, _, -, rfl⟩ | ⟨-, _, -, rfl⟩ | ⟨-, _, -, rfl⟩ |
      ⟨-, _, -, rfl⟩ <;> first | rfl | exact absurd hname hne

theorem slot_index : Slot fields "index" readUInt64 (·.index) where
  own := ⟨_, rfl, RecordField.keeps_required fun _ _ => rfl⟩
  spared _ hf hne _ _ _ h := by
    rcases store_cases hf h with ⟨-, _, -, rfl⟩ | ⟨hname, _, -, rfl⟩ | ⟨-, _, -, rfl⟩ |
      ⟨-, _, -, rfl⟩ <;> first | rfl | exact absurd hname hne

theorem slot_loop : Slot fields "loop_context" LoopContext.reader (·.loop) where
  own := ⟨_, rfl, RecordField.keeps_defaulted fun _ _ => rfl⟩
  spared _ hf hne _ _ _ h := by
    rcases store_cases hf h with ⟨-, _, -, rfl⟩ | ⟨-, _, -, rfl⟩ | ⟨hname, _, -, rfl⟩ |
      ⟨-, _, -, rfl⟩ <;> first | rfl | exact absurd hname hne

theorem slot_name : Slot fields "name" readString (·.name) where
  own := ⟨_, rfl, RecordField.keeps_required fun _ _ => rfl⟩
  spared _ hf hne _ _ _ h := by
    rcases store_cases hf h with ⟨-, _, -, rfl⟩ | ⟨-, _, -, rfl⟩ | ⟨-, _, -, rfl⟩ |
      ⟨hname, _, -, rfl⟩ <;> first | rfl | exact absurd hname hne

theorem name_of_absent (hf : field ∈ fields) (h : field.absent d = .ok d') : d'.name = d.name := by
  simp only [fields, List.mem_cons, List.not_mem_nil, or_false] at hf
  rcases hf with rfl | rfl | rfl | rfl <;> cases h
  rfl

/-- What is missing in an object gives no name. -/
theorem name_of_missing {some : List (RecordField Draft)} (hsub : some ⊆ fields)
    (h : some.foldlM (fun d field => if field.seen d then .ok d else field.absent d) d = .ok d') :
    d'.name = d.name := by
  induction some generalizing d with
  | nil =>
    cases h
    rfl
  | cons field rest ih =>
    obtain ⟨hf, hrest⟩ := List.cons_subset.1 hsub
    obtain ⟨d₁, hd, h⟩ := except_bind_eq_ok.1 h
    rw [ih hrest h]
    dsimp only at hd
    split at hd
    · cases hd
      rfl
    · exact name_of_absent hf hd

/-! ## Arrays -/

/-- An array of a key has all four items, although three would do for an object. -/
theorem items_of_readFields {items : List Json} {ending : Option Break}
    (h : readFields fields ending items {} = .ok d) : ∃ owner index loop name,
      items = [owner, index, loop, name] ∧ ∃ before : Draft,
        (do .ok { before with name := some (← readString name) }) = Except.ok d := by
  simp only [fields, readFields, RecordField.required, RecordField.defaulted] at h
  -- what is shorter lacks the name, and what is longer is malformed
  rcases items with _ | ⟨owner, _ | ⟨index, _ | ⟨loop, _ | ⟨name, _ | ⟨more, items⟩⟩⟩⟩⟩ <;>
    simp only [except_bind_eq_ok, reduceCtorEq, false_and, and_false, exists_false] at h
  obtain ⟨_, -, _, -, before, -, d₁, hname, _, -, hd⟩ := h
  cases hd
  exact ⟨owner, index, loop, name, rfl, before, except_bind_eq_ok.2 hname⟩

theorem name_of_items {items : List Json} {ending : Option Break}
    (h : readFields fields ending items {} = .ok d) (name : String) :
    d.name = some name ↔ items[3]? = some (.string name) := by
  obtain ⟨owner, index, loop, v, rfl, before, hd⟩ := items_of_readFields h
  obtain ⟨given, hread, hd⟩ := except_bind_eq_ok.1 hd
  cases hd
  rw [readString_eq_ok.1 hread]
  simp

theorem named_iff (h : readRecord fields {} v = .ok d) (name : String) :
    d.name = some name ↔ Named name v := by
  unfold readRecord at h
  split at h
  · next members ending =>
    obtain ⟨d₁, hmembers, h⟩ := except_bind_eq_ok.1 h
    obtain ⟨_, -, h⟩ := except_bind_eq_ok.1 h
    have houtcome := (takes_iff.1 hmembers).outcome slot_name
    rw [name_of_missing (List.Subset.refl _) h, houtcome.holds]
    simp only [readString_eq_ok, exists_eq_right]
    constructor
    · exact .member
    · rintro ⟨hmem⟩
      exact hmem
  · rw [name_of_items h]
    constructor
    · exact .item
    · rintro (hitem | hitem)
      exact hitem
  · cases h
  · cases h

/-- A key that is read has the name that it is given. -/
theorem named_of_reader {key : Key} (h : reader v = .ok key) (name : String) :
    Named name v ↔ name = key.name.text := by
  unfold reader at h
  obtain ⟨d, hd, h⟩ := except_bind_eq_ok.1 h
  rw [← named_iff hd]
  split at h
  · next owner index loop given =>
    split at h
    · next made hmake =>
      cases h
      rw [(make_ok hmake).2.2.2]
      simp [eq_comm]
    · cases h
  · cases h

theorem named_of_readText {text : String} {key : Key} (h : readText reader text = .ok key)
    (name : String) : Named name (ofList text.toList).1 ↔ name = key.name.text := by
  unfold readText at h
  generalize ofList text.toList = parsed at h ⊢
  obtain ⟨v, more⟩ := parsed
  obtain ⟨made, hread, hend⟩ := except_bind_eq_ok.1 h
  split at hend
  · cases hend
  · cases hend
    exact named_of_reader hread name

end Key

end Depot
