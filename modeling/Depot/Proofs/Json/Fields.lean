import Depot.Json.Record
import Depot.Proofs.Work

/-! Records are read field by field. Every field has a place of its own in what has been read, so
the members tell what the fields hold, in whatever order they come. -/

namespace Depot.Json

open Work

variable {α σ : Type}

/-! ## Places of fields -/

/-- The field is read with `read` and kept in `get`. -/
structure RecordField.Keeps (field : RecordField σ) (read : Reader α) (get : σ → Option α) :
    Prop where
  seen : ∀ s, field.seen s = (get s).isSome
  stores : ∀ {v a}, read v = .ok a → ∀ s, ∃ s', field.store v s = .ok s'
  stored : ∀ {v s s'}, field.store v s = .ok s' → ∃ a, read v = .ok a ∧ get s' = some a

namespace RecordField

variable {name : String} {read : Reader α} {v : Json} {a : α}

theorem store_required {get : σ → Option α} {set : σ → Option α → σ} (h : read v = .ok a) (s : σ) :
    (required name read get set).store v s = .ok (set s (some a)) := by
  simp only [required, h]
  rfl

theorem store_defaulted {fallback : α} {get : σ → Option α} {set : σ → Option α → σ}
    (h : read v = .ok a) (s : σ) :
    (defaulted name read fallback get set).store v s = .ok (set s (some a)) := by
  simp only [defaulted, h]
  rfl

theorem store_optional {o : Option α} {get : σ → Option (Option α)}
    {set : σ → Option (Option α) → σ} (h : readOption read v = .ok o) (s : σ) :
    (optional name read get set).store v s = .ok (set s (some o)) := by
  simp only [optional, h]
  rfl

theorem keeps_required {get : σ → Option α} {set : σ → Option α → σ}
    (h : ∀ s o, get (set s o) = o) : (required name read get set).Keeps read get where
  seen _ := rfl
  stores hread s := ⟨_, store_required hread s⟩
  stored hstore := by
    obtain ⟨a, hread, hs⟩ := except_bind_eq_ok.1 hstore
    cases hs
    exact ⟨a, hread, h _ _⟩

theorem keeps_defaulted {fallback : α} {get : σ → Option α} {set : σ → Option α → σ}
    (h : ∀ s o, get (set s o) = o) : (defaulted name read fallback get set).Keeps read get where
  seen _ := rfl
  stores hread s := ⟨_, store_defaulted hread s⟩
  stored hstore := by
    obtain ⟨a, hread, hs⟩ := except_bind_eq_ok.1 hstore
    cases hs
    exact ⟨a, hread, h _ _⟩

theorem keeps_optional {get : σ → Option (Option α)} {set : σ → Option (Option α) → σ}
    (h : ∀ s o, get (set s o) = o) : (optional name read get set).Keeps (readOption read) get where
  seen _ := rfl
  stores hread s := ⟨_, store_optional hread s⟩
  stored hstore := by
    obtain ⟨a, hread, hs⟩ := except_bind_eq_ok.1 hstore
    cases hs
    exact ⟨a, hread, h _ _⟩

end RecordField

variable {fields : List (RecordField σ)} {s s' : σ} {members : List (Except Flaw String × Json)}
  {name : String} {field : RecordField σ} {read : Reader α} {get : σ → Option α} {v : Json}

/-- The field of this name is kept in `get`, where no other field is. -/
structure Slot (fields : List (RecordField σ)) (name : String) (read : Reader α)
    (get : σ → Option α) : Prop where
  own : ∃ field, fields.find? (·.name = name) = some field ∧ field.Keeps read get
  spared : ∀ field ∈ fields, field.name ≠ name →
    ∀ {v s s'}, field.store v s = .ok s' → get s' = get s

theorem mem_of_find? (h : fields.find? (·.name = name) = some field) :
    field ∈ fields ∧ field.name = name :=
  ⟨List.mem_of_find?_eq_some h, by simpa using List.find?_some h⟩

theorem Slot.keeps (h : Slot fields name read get)
    (hfind : fields.find? (·.name = name) = some field) : field.Keeps read get := by
  obtain ⟨field', hfind', hkeeps⟩ := h.own
  cases hfind.symm.trans hfind'
  exact hkeeps

theorem Slot.other (h : Slot fields name read get) {name' : String}
    (hfind : fields.find? (·.name = name') = some field) (hne : name' ≠ name)
    (hstore : field.store v s = .ok s') : get s' = get s := by
  obtain ⟨hmem, hname⟩ := mem_of_find? hfind
  exact h.spared field hmem (by rwa [hname]) hstore

/-! ## Members -/

/-- The members are taken one after another: a field that was not seen before is stored, and what
is no field is passed over. -/
inductive Takes (fields : List (RecordField σ)) : σ → List (Except Flaw String × Json) → σ → Prop
    where
  | nil {s : σ} : Takes fields s [] s
  | known {s s₁ s' : σ} {name : String} {v : Json} {members : List (Except Flaw String × Json)}
      {field : RecordField σ} : fields.find? (·.name = name) = some field →
      field.seen s = false → field.store v s = .ok s₁ → Takes fields s₁ members s' →
      Takes fields s ((.ok name, v) :: members) s'
  | unknown {s s' : σ} {name : String} {v : Json} {members : List (Except Flaw String × Json)} :
      fields.find? (·.name = name) = none → v.skipBreak? = none → Takes fields s members s' →
      Takes fields s ((.ok name, v) :: members) s'

theorem readMember_eq_ok {m : Except Flaw String × Json} :
    readMember fields s m = .ok s' ↔ ∃ name, m.1 = .ok name ∧
      ((∃ field, fields.find? (·.name = name) = some field ∧ field.seen s = false ∧
        field.store m.2 s = .ok s') ∨
      fields.find? (·.name = name) = none ∧ m.2.skipBreak? = none ∧ s = s') := by
  obtain ⟨key, v⟩ := m
  cases key with
  | error flaw => simp [readMember]
  | ok name =>
    cases hfind : fields.find? (·.name = name) with
    | some field =>
      simp only [readMember, hfind, Except.ok.injEq, exists_eq_left', Option.some.injEq,
        reduceCtorEq, false_and, or_false]
      cases field.seen s <;> simp
    | none =>
      simp only [readMember, hfind, Except.ok.injEq, exists_eq_left', reduceCtorEq, false_and,
        exists_false, false_or, true_and]
      cases v.skipBreak? <;> simp [endsWell, bind, Except.bind]

theorem takes_iff : members.foldlM (readMember fields) s = .ok s' ↔ Takes fields s members s' := by
  constructor
  · intro h
    induction members generalizing s with
    | nil =>
      cases h
      exact .nil
    | cons m members ih =>
      obtain ⟨s₁, hm, hrest⟩ := except_bind_eq_ok.1 h
      obtain ⟨key, v⟩ := m
      obtain ⟨name, rfl, ⟨field, hfind, hseen, hstore⟩ | ⟨hfind, hskip, rfl⟩⟩ :=
        readMember_eq_ok.1 hm
      · exact .known hfind hseen hstore (ih hrest)
      · exact .unknown hfind hskip (ih hrest)
  · intro h
    induction h with
    | nil => rfl
    | known hfind hseen hstore _ ih =>
      exact except_bind_eq_ok.2
        ⟨_, readMember_eq_ok.2 ⟨_, rfl, .inl ⟨_, hfind, hseen, hstore⟩⟩, ih⟩
    | unknown hfind hskip _ ih =>
      exact except_bind_eq_ok.2 ⟨_, readMember_eq_ok.2 ⟨_, rfl, .inr ⟨hfind, hskip, rfl⟩⟩, ih⟩

/-- No two of the members have this name. -/
def Once (name : String) (members : List (Except Flaw String × Json)) : Prop :=
  members.Pairwise fun m n => m.1 = .ok name → n.1 ≠ .ok name

theorem once_of_absent (h : ∀ v, (.ok name, v) ∉ members) : Once name members := by
  refine List.pairwise_of_forall_mem_list fun m hm _ _ hname => ?_
  obtain ⟨key, v⟩ := m
  cases hname
  exact absurd hm (h v)

/-- What a field held and what it holds then. It is left alone if no member has its name, and if it
was empty it takes what the only member of its name gives. -/
inductive Outcome (name : String) (read : Reader α) (members : List (Except Flaw String × Json)) :
    Option α → Option α → Prop where
  | absent {o : Option α} : (∀ v, (.ok name, v) ∉ members) → Outcome name read members o o
  | given {v : Json} {a : α} : (∀ w, (.ok name, w) ∈ members ↔ w = v) → Once name members →
      read v = .ok a → Outcome name read members none (some a)

theorem Outcome.once {o o' : Option α} (h : Outcome name read members o o') :
    Once name members := by
  cases h with
  | absent hno => exact once_of_absent hno
  | given _ honce => exact honce

theorem Outcome.readable {o o' : Option α} (h : Outcome name read members o o')
    (hmem : (.ok name, v) ∈ members) : ∃ a, read v = .ok a := by
  cases h with
  | absent hno => exact absurd hmem (hno v)
  | given hgiven _ hread =>
    cases (hgiven v).1 hmem
    exact ⟨_, hread⟩

theorem Outcome.holds {o : Option α} (h : Outcome name read members none o) (a : α) :
    o = some a ↔ ∃ v, (.ok name, v) ∈ members ∧ read v = .ok a := by
  cases h with
  | absent hno => simp [hno]
  | given hgiven _ hread =>
    simp only [hgiven, exists_eq_left, hread, Option.some.injEq, Except.ok.injEq]

theorem Outcome.cons {o o' : Option α} (h : Outcome name read members o o') {name' : String}
    (hne : name' ≠ name) (v : Json) : Outcome name read ((.ok name', v) :: members) o o' := by
  have hmem : ∀ w, (.ok name, w) ∈ ((.ok name', v) :: members : List (Except Flaw String × Json)) ↔
      (.ok name, w) ∈ members := by
    intro w
    simp [hne.symm]
  cases h with
  | absent hno => exact .absent fun w hw => hno w ((hmem w).1 hw)
  | given hgiven honce hread =>
    refine .given (fun w => (hmem w).trans (hgiven w)) (.cons (fun m _ hname => ?_) honce) hread
    cases hname
    exact absurd rfl hne

/-- Each field is accounted for by the members of its name. -/
theorem Takes.outcome (h : Takes fields s members s') (hslot : Slot fields name read get) :
    Outcome name read members (get s) (get s') := by
  induction h with
  | nil => exact .absent fun _ => List.not_mem_nil
  | @known s s₁ s' name' v members field hfind hunseen hstore _ ih =>
    by_cases hname : name' = name
    · subst hname
      have hkeeps := hslot.keeps hfind
      obtain ⟨a, hread, hs₁⟩ := hkeeps.stored hstore
      have hnone : get s = none := by
        rw [hkeeps.seen] at hunseen
        simpa using hunseen
      rw [hs₁] at ih
      rw [hnone]
      -- the field is full now, so nothing is left for it in the members that follow
      generalize get s' = o at ih ⊢
      cases ih with
      | absent hno =>
        refine .given (fun w => ?_) (.cons (fun m hm _ hm' => ?_) (once_of_absent hno)) hread
        · simp [hno]
        · obtain ⟨key, w⟩ := m
          cases hm'
          exact hno w hm
    · rw [← hslot.other hfind hname hstore]
      exact ih.cons hname v
  | @unknown s s' name' v members hfind _ _ ih =>
    refine ih.cons ?_ v
    rintro rfl
    obtain ⟨field, hfound, -⟩ := hslot.own
    cases hfind.symm.trans hfound

/-! ## Members that can be taken -/

/-- The member can be taken, unless its field has been seen. -/
inductive Fits (fields : List (RecordField σ)) : Except Flaw String × Json → Prop where
  | known {name : String} {v : Json} {field : RecordField σ} :
      fields.find? (·.name = name) = some field → (∀ s, ∃ s', field.store v s = .ok s') →
      Fits fields (.ok name, v)
  | unknown {name : String} {v : Json} : fields.find? (·.name = name) = none →
      v.skipBreak? = none → Fits fields (.ok name, v)

/-- Each of the fields has a place. -/
def Slotted (fields : List (RecordField σ)) : Prop :=
  ∀ field ∈ fields, ∃ (α : Type) (read : Reader α) (get : σ → Option α),
    Slot fields field.name read get

theorem exists_takes (hslots : Slotted fields) (hfits : ∀ m ∈ members, Fits fields m)
    (honce : ∀ field ∈ fields, Once field.name members)
    (hunseen : ∀ name v field, (.ok name, v) ∈ members →
      fields.find? (·.name = name) = some field → field.seen s = false) :
    ∃ s', Takes fields s members s' := by
  induction members generalizing s with
  | nil => exact ⟨s, .nil⟩
  | cons m members ih =>
    have hfits' : ∀ m ∈ members, Fits fields m := fun m hm => hfits m (List.mem_cons_of_mem _ hm)
    have honce' : ∀ field ∈ fields, Once field.name members := fun field hf =>
      (List.pairwise_cons.1 (honce field hf)).2
    cases hfits m (List.mem_cons_self ..) with
    | @known name v field hfind hstores =>
      obtain ⟨hf, rfl⟩ := mem_of_find? hfind
      obtain ⟨s₁, hstore⟩ := hstores s
      -- the fields of the other members are as they were, for their names are others
      have hunseen' : ∀ name' w field', (.ok name', w) ∈ members →
          fields.find? (·.name = name') = some field' → field'.seen s₁ = false := by
        intro name' w field' hw hfind'
        have hne : field.name ≠ name' := by
          rintro rfl
          exact (List.pairwise_cons.1 (honce field hf)).1 _ hw rfl rfl
        obtain ⟨hf', rfl⟩ := mem_of_find? hfind'
        obtain ⟨α, read, get, hslot⟩ := hslots field' hf'
        have hseen := (hslot.keeps hfind').seen
        rw [hseen, hslot.other hfind hne hstore, ← hseen]
        exact hunseen _ w field' (List.mem_cons_of_mem _ hw) hfind'
      obtain ⟨s', htakes⟩ := ih hfits' honce' hunseen'
      exact ⟨s', .known hfind (hunseen _ v field (List.mem_cons_self ..) hfind) hstore htakes⟩
    | unknown hfind hskip =>
      obtain ⟨s', htakes⟩ := ih hfits' honce' fun name w field hw =>
        hunseen name w field (List.mem_cons_of_mem _ hw)
      exact ⟨s', .unknown hfind hskip htakes⟩

/-! ## Objects -/

/-- An object is read by taking its members and then filling in what is missing. -/
theorem readRecord_eq_ok : readRecord fields s (.object members none) = .ok s' ↔
    ∃ s₁, Takes fields s members s₁ ∧ fields.foldlM
      (fun s field => if field.seen s then .ok s else field.absent s) s₁ = .ok s' := by
  simp only [readRecord, except_bind_eq_ok, takes_iff, endsWell, true_and, exists_const]

/-- A record with all its fields has none to fill in. -/
theorem Takes.readRecord (h : Takes fields s members s') (hall : ∀ field ∈ fields, field.seen s') :
    readRecord fields s (.object members none) = .ok s' := by
  refine readRecord_eq_ok.2 ⟨s', h, ?_⟩
  have hkept : ∀ rest ⊆ fields,
      rest.foldlM (fun s field => if field.seen s then .ok s else field.absent s) s' =
        (.ok s' : Except ReadError σ) := by
    intro rest
    induction rest with
    | nil => exact fun _ => rfl
    | cons field rest ih =>
      intro hsub
      obtain ⟨hfield, hrest⟩ := List.cons_subset.1 hsub
      rw [List.foldlM_cons, if_pos (hall field hfield)]
      exact ih hrest
  exact hkept fields (List.Subset.refl _)

end Depot.Json
