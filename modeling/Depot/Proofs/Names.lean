import Depot.Key.Basic

/-! Which names objects may have. A name is refused for a rule that it breaks, and the refusal tells
which; there is no key with such a name, however it is put together. -/

namespace Depot

/-- A name that is one component of a path, and not a hidden one. -/
structure ObjectName.Allowed (name : String) : Prop where
  nonempty : name ≠ ""
  notHidden : name.toList.head? ≠ some '.'
  noSlash : '/' ∉ name.toList
  noBackslash : '\\' ∉ name.toList

/-- What the fault says is so of the name. -/
def NameFault.Breaks (name : String) : NameFault → Prop
  | .empty => name = ""
  | .leadingDot => name.toList.head? = some '.'
  | .separator c => (c = '/' ∨ c = '\\') ∧ c ∈ name.toList

theorem NameFault.Breaks.not_allowed {name : String} {fault : NameFault} (h : fault.Breaks name) :
    ¬ ObjectName.Allowed name := by
  intro ha
  cases fault with
  | empty => exact ha.nonempty h
  | leadingDot => exact ha.notHidden h
  | separator c =>
    obtain ⟨rfl | rfl, hmem⟩ := h
    · exact ha.noSlash hmem
    · exact ha.noBackslash hmem

variable {name : String} {fault : NameFault}

theorem breaks_of_nameFault? (h : nameFault? name = some fault) : fault.Breaks name := by
  unfold nameFault? at h
  split at h
  · next hnil =>
    cases h
    exact String.toList_eq_nil_iff.1 hnil
  split at h
  · next hdot =>
    cases h
    exact hdot
  split at h
  · next hslash =>
    cases h
    exact ⟨Or.inl rfl, hslash⟩
  split at h
  · next hback =>
    cases h
    exact ⟨Or.inr rfl, hback⟩
  · cases h

theorem nameFault?_eq_none : nameFault? name = none ↔ ObjectName.Allowed name := by
  constructor
  · intro h
    unfold nameFault? at h
    split at h
    · cases h
    split at h
    · cases h
    split at h
    · cases h
    split at h
    · cases h
    next hnil hdot hslash hback =>
      exact ⟨fun he => hnil (String.toList_eq_nil_iff.2 he), hdot, hslash, hback⟩
  · intro ha
    cases hf : nameFault? name with
    | none => rfl
    | some fault => exact absurd ha (breaks_of_nameFault? hf).not_allowed

namespace ObjectName

theorem allowed (n : ObjectName) : Allowed n.text := nameFault?_eq_none.1 n.sound

theorem ofString_of_sound (h : nameFault? name = none) : ofString name = .ok ⟨name, h⟩ :=
  ofString_text ⟨name, h⟩

theorem ofString_of_fault (h : nameFault? name = some fault) :
    ofString name = .error ⟨name, fault⟩ := ofString_eq_error.2 ⟨rfl, h⟩

theorem fault_of_not_allowed (h : ¬ Allowed name) :
    ∃ fault : NameFault, fault.Breaks name ∧ nameFault? name = some fault := by
  cases hf : nameFault? name with
  | none => exact absurd (nameFault?_eq_none.1 hf) h
  | some fault => exact ⟨fault, breaks_of_nameFault? hf, rfl⟩

/-- A name is refused if and only if it breaks a rule. -/
theorem refused_iff : (∃ e, ofString name = .error e) ↔ ¬ Allowed name := by
  constructor
  · rintro ⟨e, he⟩
    exact (breaks_of_nameFault? (ofString_eq_error.1 he).2).not_allowed
  · intro ha
    obtain ⟨fault, -, hf⟩ := fault_of_not_allowed ha
    exact ⟨_, ofString_of_fault hf⟩

end ObjectName

namespace Key

variable {owner : Identity} {index : UInt64} {loop : LoopContext} {key : Key}

theorem make_ok (h : make owner index loop name = .ok key) :
    key.owner = owner ∧ key.index = index ∧ key.loop = loop ∧ key.name.text = name := by
  unfold make ObjectName.ofString at h
  split at h
  · cases h
    exact ⟨rfl, rfl, rfl, rfl⟩
  · cases h

theorem make_of_sound (h : nameFault? name = none) (owner : Identity) (index : UInt64)
    (loop : LoopContext) : make owner index loop name = .ok ⟨owner, index, loop, ⟨name, h⟩⟩ := by
  rw [make, ObjectName.ofString_of_sound h]
  rfl

theorem make_of_fault (h : nameFault? name = some fault) (owner : Identity) (index : UInt64)
    (loop : LoopContext) : make owner index loop name = .error ⟨name, fault⟩ := by
  rw [make, ObjectName.ofString_of_fault h]
  rfl

end Key

end Depot
