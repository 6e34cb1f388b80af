import Depot.Proofs.Handle.Indices
import Depot.Proofs.Handle.Settling

/-! Objects that are not made. What is wrong with a name or with the handle is found before anything
is done, so a refusal changes nothing; after that only the files can be in the way, and they leave
the handle as it was but for its base directory. -/

namespace Depot

open Work

theorem UsedNames.ensureUnused_of_mem {u : UsedNames} {name : String} (h : name ∈ u) :
    u.ensureUnused name = .error ⟨u.handle, name⟩ := if_pos h

namespace Handle

/-- Why the handle makes no key with a name, whatever the files are. -/
def keyRefusal? (h : Handle) (name : String) : Option Failure :=
  if h.isDisposed then some (.closed h.id h.label)
  else match nameFault? name, h.layout.check h.nextIndex with
    | some fault, _ => some (.badName ⟨name, fault⟩)
    | none, .error o => some (.overflow o)
    | none, .ok () => none

/-- Why the handle makes no object with a name, outside of loops or in one. -/
def refusal? (h : Handle) (name : String) (loop? : Option LoopContext) : Option Failure :=
  match nameFault? name, h.names with
  | some fault, _ => some (.badName ⟨name, fault⟩)
  | none, some names =>
    if loop? = none ∧ name ∈ names then some (.nameInUse ⟨names.handle, name⟩)
    else h.keyRefusal? name
  | none, none => some (.closed h.id h.label)

end Handle

/-- The names given out once there is an object more. Names in loops are not recorded. -/
def UsedNames.recorded (u : UsedNames) (name : String) : Option LoopContext → List String
  | .none => name :: u.names
  | .some _ => u.names

namespace HandleM

/-- Makes an object outside of loops or in one. -/
def newObject (name : String) : Option LoopContext → HandleM Key
  | none => createObject name
  | some loop => createInLoop name loop

variable {name : String} {loop : LoopContext} {loop? : Option LoopContext} {e : Failure}
  {s s' : Scene}

/-! ## Keys -/

theorem allocate_refused (h : s.handle.keyRefusal? name = some e) :
    allocate name loop s = .error e s := by
  unfold Handle.keyRefusal? at h
  unfold allocate
  split at h
  · next hd =>
    cases h
    exact bind_error (refuseDisposed_eq_error.2 ⟨hd, rfl, rfl⟩)
  next hd =>
  rw [bind_ok (refuseDisposed_of_live (Bool.eq_false_iff.2 hd)), bind_ok (handle_apply s)]
  split at h
  · next fault _ hf =>
    cases h
    rw [Key.make, ObjectName.ofString_of_fault hf]
    rfl
  · next o hf hc =>
    cases h
    rw [Key.make, ObjectName.ofString_of_sound hf, hc]
    rfl
  · cases h

/-- A key that is not refused is made unless the files are in the way. -/
theorem allocate_stuck (hallowed : s.handle.keyRefusal? name = none)
    (h : allocate name loop s = .error e s') :
    ∃ cause, e = .files cause ∧ s.handle.Places s'.handle := by
  unfold Handle.keyRefusal? at hallowed
  split at hallowed
  · cases hallowed
  next hd =>
  split at hallowed
  · cases hallowed
  · cases hallowed
  next hf hc =>
  unfold allocate at h
  rw [bind_ok (refuseDisposed_of_live (Bool.eq_false_iff.2 hd)), bind_ok (handle_apply s),
    Key.make, ObjectName.ofString_of_sound hf, hc] at h
  have hrest : (do
      let base ← settle
      let _ ← locate base s.handle.nextIndex true
      update fun h => { h with nextIndex := h.nextIndex + 1 }
      return ⟨s.handle.id, s.handle.nextIndex, loop, ⟨name, hf⟩⟩ : HandleM Key) s =
        .error e s' := h
  rcases bind_eq_error.1 hrest with h | ⟨base, s₁, hsettle, h⟩
  · exact settle_error h
  have hlayout : s₁.handle.layout = s.handle.layout := by rw [settle_ok hsettle]
  rcases bind_eq_error.1 h with h | ⟨dir, s₂, -, h⟩
  · obtain ⟨_, cause, _, rfl, rfl⟩ := locate_error (by rw [hlayout]; exact hc) h
    have hplaces := settle_places hsettle
    exact ⟨cause, rfl, hplaces⟩
  · cases h

/-! ## Objects -/

/-- Puts the name of an object that has been made on record, unless it was made in a loop. -/
def record (name : String) (key : Key) : Option LoopContext → HandleM Key
  | none => do
    let names ← check .nameInUse ((← openNames).add name)
    update ({ · with names := some names })
    return key
  | some _ => return key

theorem record_ok {names : UsedNames} (key : Key) (hl : s.handle.names = some names)
    (hu : loop? = none → name ∉ names) : ∃ names' : UsedNames,
      names'.handle = names.handle ∧ names'.names = names.recorded name loop? ∧
      record name key loop? s =
        .ok key { s with handle := { s.handle with names := some names' } } := by
  cases loop? with
  | none =>
    refine ⟨_, ?_, ?_, record_apply key hl (hu rfl)⟩
    · rfl
    · rfl
  | some loop => exact ⟨names, rfl, rfl, by rw [← hl]; rfl⟩

theorem checked_apply (hf : nameFault? name = none) (s : Scene) :
    check .badName (ObjectName.ofString name) s = .ok ⟨name, hf⟩ s :=
  check_eq_ok.2 ⟨ObjectName.ofString_of_sound hf, rfl⟩

/-- Making an object with a new name is making its key. -/
theorem newObject_eq {names : UsedNames} (hf : nameFault? name = none)
    (hl : s.handle.names = some names) (hu : loop? = none → name ∉ names) :
    newObject name loop? s =
      (do record name (← allocate name (loop?.getD .empty)) loop? : HandleM Key) s := by
  have hopen : openNames s = .ok names s := openNames_eq_ok.2 ⟨hl, rfl⟩
  cases loop? with
  | none =>
    have hunused : check .nameInUse (names.ensureUnused name) s = .ok () s :=
      check_eq_ok.2 ⟨UsedNames.ensureUnused_eq_ok.2 (hu rfl), rfl⟩
    rw [newObject, createObject, bind_ok (checked_apply hf s), bind_ok hopen, bind_ok hunused]
    rfl
  | some loop =>
    rw [newObject, createInLoop, bind_ok (checked_apply hf s), bind_ok hopen]
    exact congrFun (bind_pure _).symm s

theorem newObject_refused (h : s.handle.refusal? name loop? = some e) :
    newObject name loop? s = .error e s := by
  unfold Handle.refusal? at h
  split at h
  · next fault _ hf =>
    cases h
    cases loop? with
    | none => rw [newObject, createObject, ObjectName.ofString_of_fault hf]; rfl
    | some loop => rw [newObject, createInLoop, ObjectName.ofString_of_fault hf]; rfl
  · next names hf hl =>
    split at h
    · next hused =>
      obtain ⟨rfl, hused⟩ := hused
      cases h
      rw [newObject, createObject, bind_ok (checked_apply hf s),
        bind_ok (openNames_eq_ok.2 ⟨hl, rfl⟩), UsedNames.ensureUnused_of_mem hused]
      rfl
    · next hunused =>
      rw [newObject_eq hf hl fun hloop hm => hunused ⟨hloop, hm⟩]
      exact bind_error (allocate_refused h)
  · next hf hl =>
    cases h
    have hclosed : openNames s = .error (.closed s.handle.id s.handle.label) s := by
      unfold openNames
      rw [bind_ok (handle_apply s), hl]
      rfl
    cases loop? with
    | none => rw [newObject, createObject, bind_ok (checked_apply hf s), bind_error hclosed]
    | some loop => rw [newObject, createInLoop, bind_ok (checked_apply hf s), bind_error hclosed]

/-- An object that is not refused is made unless the files are in the way. -/
theorem newObject_admitted (hallowed : s.handle.refusal? name loop? = none) : ∃ names : UsedNames,
    s.handle.names = some names ∧ (loop? = none → name ∉ names) ∧
      match newObject name loop? s with
      | .error e s' => ∃ cause, e = .files cause ∧ s.handle.Places s'.handle
      | .ok _ s' => s.handle.isDisposed = false ∧
        s.handle.nextIndex ≤ s.handle.layout.maxIndex ∧ ∃ names' base,
        names'.handle = names.handle ∧ names'.names = names.recorded name loop? ∧
        s'.handle = { s.handle with
          names := some names'
          storage := .placed base
          nextIndex := s.handle.nextIndex + 1 } := by
  unfold Handle.refusal? at hallowed
  split at hallowed
  · cases hallowed
  · next names hf hl =>
    split at hallowed
    · cases hallowed
    next hunused =>
    have hu : loop? = none → name ∉ names := fun hloop hm => hunused ⟨hloop, hm⟩
    refine ⟨names, hl, hu, ?_⟩
    rw [newObject_eq hf hl hu]
    cases ha : allocate name (loop?.getD .empty) s with
    | error e s' =>
      rw [bind_error ha]
      exact allocate_stuck hallowed ha
    | ok key s₁ =>
      obtain ⟨hlive, -⟩ := allocate_eq_ok.1 ha
      obtain ⟨-, -, -, -, hroom, base, hs⟩ := allocate_ok ha
      have hl₁ : s₁.handle.names = some names := by
        rw [hs]
        exact hl
      obtain ⟨names', hhandle, hnames, hrecord⟩ := record_ok key hl₁ hu
      rw [bind_ok ha, hrecord]
      exact ⟨hlive, hroom, names', base, hhandle, hnames, by rw [hs]⟩
  · cases hallowed

/-- Making an object is all or nothing. What is refused has changed nothing at all; where the files
are in the way, the handle is as it was, except that it may have its base directory by now; and an
object that is made moves the index on by one and puts its name on record, if it is not in a
loop. -/
theorem creation_atomic (name : String) (loop? : Option LoopContext) (s : Scene) :
    match newObject name loop? s with
    | .error e s' => s.handle.refusal? name loop? = some e ∧ s' = s ∨
        s.handle.refusal? name loop? = none ∧ ∃ cause, e = .files cause ∧
          (s'.handle = s.handle ∨ s.handle.baseDir? = none ∧
            ∃ base, s'.handle = { s.handle with storage := .placed base })
    | .ok _ s' => s.handle.isDisposed = false ∧ ∃ names names' base,
        s.handle.names = some names ∧ (loop? = none → name ∉ names) ∧ names'.handle = names.handle ∧
        names'.names = names.recorded name loop? ∧
        s'.handle = { s.handle with
          names := some names'
          storage := .placed base
          nextIndex := s.handle.nextIndex + 1 } ∧
        s'.handle.nextIndex.toNat = s.handle.nextIndex.toNat + 1 := by
  cases hr : s.handle.refusal? name loop? with
  | some e =>
    rw [newObject_refused hr]
    exact Or.inl ⟨rfl, rfl⟩
  | none =>
    obtain ⟨names, hl, hu, hcase⟩ := newObject_admitted hr
    cases hn : newObject name loop? s with
    | error e s' =>
      rw [hn] at hcase
      exact Or.inr ⟨rfl, hcase⟩
    | ok key s' =>
      rw [hn] at hcase
      obtain ⟨hlive, hroom, names', base, hhandle, hnames, hs⟩ := hcase
      refine ⟨hlive, names, names', base, hl, hu, hhandle, hnames, hs, ?_⟩
      rw [hs, Layout.toNat_succ hroom]

end HandleM

namespace Sample

/-- The handle is open and among its files. -/
def opened : Scene :=
  ⟨{ handle with names := some (.none handle.id), lifecycle := .opened }, files, .byName, [], 0⟩

end Sample

theorem HandleM.creation_atomic_sample : ∃ key s',
    newObject "x" none Sample.opened = .ok key s' ∧ s'.handle.nextIndex.toNat = 1 ∧
    ∃ names, s'.handle.names = some names ∧ "x" ∈ names := by
  have hok := ok_of_answer (r := newObject "x" none Sample.opened)
    (a := ⟨⟨5#128⟩, 0, .empty, ⟨"x", by decide⟩⟩) (by decide +kernel)
  have hatomic := creation_atomic "x" none Sample.opened
  rw [hok] at hatomic
  obtain ⟨-, names, names', base, -, -, -, hrecorded, hhandle, hnext⟩ := hatomic
  have hnew : "x" ∈ names'.names := by
    rw [hrecorded]
    exact List.mem_cons_self ..
  exact ⟨_, _, hok, hnext, names', by rw [hhandle], hnew⟩

end Depot
