import Depot.Proofs.Session.Acts

/-! Identities in the course of a session. An identity belongs to one handle of a registry at a
time, for as long as that handle is held; once taken out it is gone for good. -/

namespace Depot

open Work

namespace Session

variable {direct : Bool} {s s' : Session} {name : String} {id : Identity} {ticket : Nat}

/-! ## What a step does to handles and entries -/

theorem Step.issued (h : Step direct s s') : s.issued ≤ s'.issued := by
  cases h with
  | admitted => exact Nat.le_succ _
  | _ => exact Nat.le_refl _

/-- A handle that is held after a step was held before it, or has just been taken up. -/
theorem Step.held (h : Step direct s s') : ∃ place, ∀ {slot : String} {new : Held},
    s'.held[slot]? = some new → (∃ old, s.held[slot]? = some old ∧ old.Continues new) ∨
      slot = place ∧ new.ticket = s.issued ∧ s'.issued = s.issued + 1 ∧ new.handle.Admitted ∧
        (s'.registry new.registry).entries[new.handle.id]? = some new.ticket := by
  cases h with
  | @worked place held t hheld =>
    refine ⟨place, fun {slot new} hnew => Or.inl ?_⟩
    rw [slot_of_insert] at hnew
    split at hnew
    · next hslot =>
      cases hnew
      exact ⟨held, by rw [hslot]; exact hheld, rfl, rfl, [t], rfl⟩
    · exact ⟨new, hnew, .refl _⟩
  | dropped place =>
    refine ⟨place, fun {slot new} hnew => Or.inl ?_⟩
    rw [slot_of_erase] at hnew
    split at hnew
    · cases hnew
    · exact ⟨new, hnew, .refl _⟩
  | @admitted place registry h hadm hok =>
    refine ⟨place, fun {slot new} hnew => ?_⟩
    rw [slot_of_insert] at hnew
    split at hnew
    · next hslot =>
      cases hnew
      refine Or.inr ⟨hslot, rfl, rfl, hadm, ?_⟩
      rw [registry_of_insert rfl, if_pos rfl]
      exact Registry.register_new hok
    · exact Or.inl ⟨new, hnew, .refl _⟩
  | _ => exact ⟨"", fun {slot new} hnew => Or.inl ⟨new, hnew, .refl _⟩⟩

/-- An entry that is there after a step was there before it, or has just been made. -/
theorem Step.entry (h : Step direct s s') (he : (s'.registry name).entries[id]? = some ticket) :
    (s.registry name).entries[id]? = some ticket ∨
      direct = true ∧ s.alive ticket ∧ s'.issued = s.issued ∨
      ticket = s.issued ∧ s'.issued = s.issued + 1 ∧ ∃ slot held,
        held.registry = name ∧ held.handle.id = id ∧ s'.held = s.held.insert slot held := by
  cases h with
  | retired registry id' =>
    rw [registry_of_insert rfl] at he
    split at he
    · next hname =>
      subst hname
      rw [Registry.getElem?_deregister] at he
      split at he
      · cases he
      · exact Or.inl he
    · exact Or.inl he
  | entered _ _ _ hok =>
    rw [registry_of_insert rfl] at he
    split at he
    · next hname =>
      subst hname
      rcases Registry.entry_of_register he with he | ⟨hnew, rfl, rfl⟩
      · exact Or.inl he
      · obtain ⟨hdirect, halive⟩ := hok hnew
        exact Or.inr (Or.inl ⟨hdirect, halive, rfl⟩)
    · exact Or.inl he
  | @admitted slot registry h _ hok =>
    rw [registry_of_insert rfl] at he
    split at he
    · next hname =>
      subst hname
      rcases Registry.entry_of_register he with he | ⟨-, rfl, rfl⟩
      · exact Or.inl he
      · exact Or.inr (Or.inr ⟨rfl, rfl, slot, _, rfl, rfl, rfl⟩)
    · exact Or.inl he
  | _ => exact Or.inl he

/-- The entry of a handle that is held stays until its identity is taken out. -/
theorem Step.keeps_entry (h : Step direct s s') (halive : s.alive ticket)
    (he : (s.registry name).entries[id]? = some ticket)
    (hfree : (s'.registry name).isRetired id = false) :
    (s'.registry name).entries[id]? = some ticket := by
  cases h with
  | retired registry id' =>
    rw [registry_of_insert rfl] at hfree ⊢
    split at hfree
    · next hname =>
      rw [if_pos hname, Registry.getElem?_deregister]
      rw [Registry.isRetired_deregister, Bool.or_eq_false_iff, decide_eq_false_iff_not] at hfree
      rw [if_neg hfree.2, ← hname]
      exact he
    · next hname =>
      rw [if_neg hname]
      exact he
  | entered =>
    rw [registry_of_insert rfl]
    split
    · next hname => exact Registry.register_keeps (by rw [← hname]; exact he) halive
    · exact he
  | admitted =>
    rw [registry_of_insert rfl]
    split
    · next hname => exact Registry.register_keeps (by rw [← hname]; exact he) halive
    · exact he
  | _ => exact he

theorem isRetired_of_insert {s s' : Session} {registry : String} {r : Registry Nat}
    (h : s'.registries = s.registries.insert registry r)
    (hr : r.retired = (s.registry registry).retired) (name : String) (id : Identity) :
    (s'.registry name).isRetired id = (s.registry name).isRetired id := by
  rw [registry_of_insert h]
  split
  · next hname => rw [Registry.isRetired, hr, ← hname, Registry.isRetired]
  · rfl

theorem isRetired_of_deregister {s s' : Session} {registry : String} {id' : Identity}
    (h : s'.registries = s.registries.insert registry ((s.registry registry).deregister id').2)
    (name : String) (id : Identity) : (s'.registry name).isRetired id =
      ((s.registry name).isRetired id || decide (some (registry, id') = some (name, id))) := by
  rw [registry_of_insert h]
  split
  · next hname =>
    subst hname
    rw [Registry.isRetired_deregister]
    simp [eq_comm]
  · next hname =>
    have hne : ¬ (registry = name ∧ id' = id) := fun heq => hname heq.1.symm
    simp [hne]

theorem Step.isRetired (h : Step direct s s') (hr : (s.registry name).isRetired id) :
    (s'.registry name).isRetired id := by
  cases h with
  | retired registry id' => rw [isRetired_of_deregister rfl, hr, Bool.true_or]
  | entered => rwa [isRetired_of_insert rfl (Registry.retired_register rfl)]
  | admitted => rwa [isRetired_of_insert rfl (Registry.retired_register rfl)]
  | _ => exact hr

/-! ## Whose identity it is -/

/-- Tickets are given out one after another, each to one handle, and a handle is found under its
identity until that is taken out. -/
structure Orderly (s : Session) : Prop where
  early : ∀ {slot : String} {held : Held}, s.held[slot]? = some held → held.ticket < s.issued
  apart : ∀ {slot slot' : String} {held held' : Held}, s.held[slot]? = some held →
    s.held[slot']? = some held' → held.ticket = held'.ticket → slot = slot'
  past : ∀ {name : String} {id : Identity} {ticket : Nat},
    (s.registry name).entries[id]? = some ticket → ticket < s.issued
  known : ∀ {slot : String} {held : Held}, s.held[slot]? = some held →
    (s.registry held.registry).isRetired held.handle.id = false →
      (s.registry held.registry).entries[held.handle.id]? = some held.ticket

theorem orderly_start (files : FileSystem) (order : ListingOrder) (systemTemp : Path) :
    (start files order systemTemp).Orderly where
  early h := by simp [start] at h
  apart h := by simp [start] at h
  past h := by simp [start, registry, Registry.empty] at h
  known h := by simp [start] at h

theorem Orderly.step (hs : s.Orderly) (h : Step direct s s') : s'.Orderly := by
  have hissued := h.issued
  obtain ⟨place, hheld⟩ := h.held
  constructor
  · intro slot new hnew
    rcases hheld hnew with ⟨old, hold, hsame⟩ | ⟨-, hticket, hnext, -, -⟩
    · have hlt := hs.early hold
      rw [hsame.ticket]
      omega
    · omega
  · intro slot slot' new new' hnew hnew' hticket
    rcases hheld hnew with ⟨old, hold, hsame⟩ | ⟨hslot, hfresh, -, -, -⟩
    · rcases hheld hnew' with ⟨old', hold', hsame'⟩ | ⟨-, hfresh', -, -, -⟩
      · exact hs.apart hold hold' (by rw [← hsame.ticket, hticket, hsame'.ticket])
      · have hlt := hs.early hold
        have heq := hsame.ticket
        omega
    · rcases hheld hnew' with ⟨old', hold', hsame'⟩ | ⟨hslot', -, -, -, -⟩
      · have hlt := hs.early hold'
        have heq := hsame'.ticket
        omega
      · rw [hslot, hslot']
  · intro name id ticket he
    rcases h.entry he with he | ⟨-, halive, hsame⟩ | ⟨hnew, hnext, -⟩
    · have hlt := hs.past he
      omega
    · obtain ⟨slot, held, hslot, rfl⟩ := alive_iff.1 halive
      have hlt := hs.early hslot
      omega
    · omega
  · intro slot new hnew hfree
    rcases hheld hnew with ⟨old, hold, hsame⟩ | ⟨-, -, -, -, he⟩
    · rw [hsame.registry, hsame.same.id] at hfree ⊢
      rw [hsame.ticket]
      have hbefore : (s.registry old.registry).isRetired old.handle.id = false := by
        rw [← Bool.not_eq_true]
        intro hr
        rw [h.isRetired hr] at hfree
        cases hfree
      exact h.keeps_entry (alive_iff.2 ⟨slot, old, hold, rfl⟩) (hs.known hold hbefore) hfree
    · exact he

theorem Orderly.reaches (hs : s.Orderly) (h : Reaches direct s s') : s'.Orderly :=
  h.keeps (fun h hs => hs.step h) hs

/-- The handle with the ticket of this one, as long as it is held, is this one some turns later. -/
def Follows (s : Session) (held : Held) : Prop := held.ticket < s.issued ∧
  ∀ (slot : String) (new : Held), s.held[slot]? = some new → new.ticket = held.ticket →
    held.Continues new

theorem Orderly.follows {slot : String} {held : Held} (hs : s.Orderly)
    (hheld : s.held[slot]? = some held) : s.Follows held := by
  refine ⟨hs.early hheld, fun slot' new hnew hticket => ?_⟩
  rw [hs.apart hnew hheld hticket, hheld] at hnew
  cases hnew
  exact .refl held

theorem Follows.step {held : Held} (hs : s.Follows held) (h : Step direct s s') :
    s'.Follows held := by
  have hissued := h.issued
  obtain ⟨place, hheld⟩ := h.held
  obtain ⟨hlt, hfollows⟩ := hs
  refine ⟨by omega, ?_⟩
  intro slot new hnew hticket
  rcases hheld hnew with ⟨old, hold, hsame⟩ | ⟨-, hfresh, -, -, -⟩
  · exact (hfollows slot old hold (by rw [← hsame.ticket, hticket])).trans hsame
  · omega

theorem Follows.reaches {held : Held} (hs : s.Follows held) (h : Reaches direct s s') :
    s'.Follows held :=
  h.keeps (P := fun s => s.Follows held) (fun h hs => hs.step h) hs

/-- The handle with a ticket, as long as it is held, is in a registry under an identity. -/
def Names (s : Session) (ticket : Nat) (registry : String) (id : Identity) : Prop :=
  ticket < s.issued ∧ ∀ (slot : String) (held : Held), s.held[slot]? = some held →
    held.ticket = ticket → held.registry = registry ∧ held.handle.id = id

theorem Names.step (hs : s.Names ticket name id) (h : Step direct s s') :
    s'.Names ticket name id := by
  have hissued := h.issued
  obtain ⟨place, hheld⟩ := h.held
  obtain ⟨hlt, hnames⟩ := hs
  refine ⟨by omega, ?_⟩
  intro slot new hnew hticket
  rcases hheld hnew with ⟨old, hold, hsame⟩ | ⟨-, hfresh, -, -, -⟩
  · rw [hsame.registry, hsame.same.id]
    exact hnames slot old hold (by rw [← hsame.ticket, hticket])
  · omega

theorem Names.reaches (hs : s.Names ticket name id) (h : Reaches direct s s') :
    s'.Names ticket name id :=
  h.keeps (P := fun s => s.Names ticket name id) (fun h hs => hs.step h) hs

/-- Every entry leads to a handle of that registry and that identity, if it leads to one at all. -/
def Truthful (s : Session) : Prop := ∀ (name : String) (id : Identity) (ticket : Nat),
  (s.registry name).entries[id]? = some ticket → s.Names ticket name id

theorem truthful_start (files : FileSystem) (order : ListingOrder) (systemTemp : Path) :
    (start files order systemTemp).Truthful := by
  intro name id ticket h
  simp [start, registry, Registry.empty] at h

theorem Truthful.step (hs : s.Truthful) (ho : s.Orderly) (h : Step false s s') : s'.Truthful := by
  intro name id ticket he
  rcases h.entry he with he | ⟨hdirect, -, -⟩ | ⟨rfl, hnext, slot, held, hname, hid, hheld⟩
  · exact (hs name id ticket he).step h
  · cases hdirect
  · refine ⟨by omega, ?_⟩
    intro slot' held' hheld' hticket
    rw [hheld, slot_of_insert] at hheld'
    split at hheld'
    · cases hheld'
      exact ⟨hname, hid⟩
    · have hlt := ho.early hheld'
      omega

/-- As long as a handle is held, its identity leads to it unless it was taken out. -/
theorem Orderly.found (hs : s.Orderly) (hn : s.Names ticket name id) (halive : s.alive ticket)
    (hfree : (s.registry name).isRetired id = false) :
    (s.registry name).resolve s.alive id = some ticket ∧ ∃ slot held,
      s.find? ticket = some (slot, held) ∧ held.registry = name ∧ held.handle.id = id := by
  obtain ⟨⟨slot, held⟩, hfind⟩ := Option.isSome_iff_exists.1 halive
  have hheld := find?_held hfind
  have hticket : held.ticket = ticket := by simpa using List.find?_some hfind
  obtain ⟨hname, hid⟩ := hn.2 slot held hheld hticket
  have hentry := hs.known hheld (by rw [hname, hid]; exact hfree)
  rw [hname, hid, hticket] at hentry
  exact ⟨Registry.resolve_eq_some.2 ⟨hentry, halive⟩, slot, held, hfind, hname, hid⟩

/-- An identity leads nowhere where no handle has it. -/
theorem Orderly.unused_iff (hs : s.Orderly) (ht : s.Truthful)
    (hfree : (s.registry name).isRetired id = false) :
    (s.registry name).resolve s.alive id = none ↔ ∀ (slot : String) (held : Held),
      s.held[slot]? = some held → held.registry = name → held.handle.id ≠ id := by
  constructor
  · rintro hnone slot held hheld rfl rfl
    have halive : s.alive held.ticket := alive_iff.2 ⟨slot, held, hheld, rfl⟩
    rw [Registry.resolve_eq_some.2 ⟨hs.known hheld hfree, halive⟩] at hnone
    cases hnone
  · intro hall
    cases hresolve : (s.registry name).resolve s.alive id with
    | none => rfl
    | some ticket =>
      obtain ⟨hentry, halive⟩ := Registry.resolve_eq_some.1 hresolve
      obtain ⟨slot, held, hheld, hticket⟩ := alive_iff.1 halive
      obtain ⟨hname, hid⟩ := (ht name id ticket hentry).2 slot held hheld hticket
      exact absurd hid (hall slot held hheld hname)

/-- A handle that is taken up is held, and its ticket is its own. -/
theorem Orderly.takeUp (hs : s.Orderly) {slot registry : String} {settings : Settings}
    {saved : SavedHandle} {storage : Storage} {h : Handle}
    (htake : SessionM.takeUp slot registry settings saved storage s = .ok h s') :
    h.id = saved.id ∧ s'.held[slot]? = some ⟨s.issued, registry, h⟩ ∧
      s'.Names s.issued registry saved.id := by
  have hcase := SessionM.takeUpCase slot registry settings saved storage s
  rw [htake] at hcase
  cases hcase with
  | entered hv hr =>
    refine ⟨rfl, ?_, Nat.lt_succ_self _, ?_⟩
    · rw [slot_of_insert, if_pos rfl]
    · intro slot' held hheld hticket
      rw [slot_of_insert] at hheld
      split at hheld
      · cases hheld
        exact ⟨rfl, rfl⟩
      · have hlt := hs.early hheld
        omega

/-! ## Taking identities out -/

/-- What is asked of a handle does not touch the registries, but for taking out its identity at its
end. -/
theorem registries_ask {slot : String} {held : Held} (h : s.held[slot]? = some held)
    (request : Request) : (left (request.run slot held s)).registries =
      match request with
      | .dispose => s.registries.insert held.registry
          ((s.registry held.registry).deregister held.handle.id).2
      | _ => s.registries := by
  have hown : ∀ {slot : String} {held : Held} (request : Request), s.held[slot]? = some held →
      (s.turn slot held request).IsOwn held.handle →
        (left (request.run slot held s)).registries =
          (s.turn slot held request).registries held.handle := by
    intro slot held request h hown
    rw [← turn_outcome h, Turn.left_own hown]
  cases request with
  | fileStore key =>
    rcases serves h (.fileStore key) with hs | ⟨slot', held', request', hserves, h', hs⟩
    · rw [hs]
    · rw [hs, hown request' h' hserves.isOwn]
      cases hserves <;> rfl
  | dispose =>
    rw [hown .dispose h nofun, Turn.registries]
    dsimp only [turn]
    have hbefore := turn_before h .dispose
    rw [turn] at hbefore
    rw [hbefore]
  | _ => exact hown _ h nofun

end Session

/-- The identity that an act takes out, and of which registry. -/
def Act.parts? (s : Session) : Act → Option (String × Identity)
  | .retire registry id => some (registry, id)
  | .ask slot .dispose => (s.held[slot]?).map fun held => (held.registry, held.handle.id)
  | _ => none

namespace Session

theorem isRetired_takeUp (slot registry : String) (settings : Settings) (saved : SavedHandle)
    (storage : Storage) (s : Session) (name : String) (id : Identity) :
    ((left (SessionM.takeUp slot registry settings saved storage s)).registry name).isRetired id =
      (s.registry name).isRetired id := by
  have hcase := SessionM.takeUpCase slot registry settings saved storage s
  generalize SessionM.takeUp slot registry settings saved storage s = result at hcase
  cases hcase with
  | invalid => rfl
  | refused _ hr => exact isRetired_of_insert rfl (Registry.retired_register hr) name id
  | entered _ hr => exact isRetired_of_insert rfl (Registry.retired_register hr) name id

end Session

/-- An identity is taken out where an act does that, and never put back. -/
theorem Act.isRetired_run (a : Act) (s : Session) (name : String) (id : Identity) :
    ((a.run s).registry name).isRetired id =
      ((s.registry name).isRetired id || decide (a.parts? s = some (name, id))) := by
  have hnone : ∀ b : Bool, b = (b || decide (none = some (name, id))) := by simp
  cases a with
  | create => exact (Session.isRetired_takeUp ..).trans (hnone _)
  | restore => exact (Session.isRetired_takeUp ..).trans (hnone _)
  | drop => exact hnone _
  | beside => exact hnone _
  | retire registry id' => exact Session.isRetired_of_deregister rfl name id
  | enroll registry id' slot =>
    refine Eq.trans ?_ (hnone _)
    rw [run]
    split
    · next held _ =>
      rw [SessionM.enroll_apply]
      split <;> next hr =>
        exact Session.isRetired_of_insert rfl (Registry.retired_register hr) name id
    · rfl
  | ask slot request =>
    rw [run]
    cases hheld : s.held[slot]? with
    | none => cases request <;> simp [parts?, hheld]
    | some held =>
      have hregistries := Session.registries_ask hheld request
      cases request with
      | dispose =>
        rw [parts?, hheld]
        exact Session.isRetired_of_deregister hregistries name id
      | _ =>
        refine Eq.trans ?_ (hnone _)
        dsimp only at hregistries ⊢
        rw [Session.registry, hregistries, Session.registry]

namespace Session

/-- What the acts that take an identity out of a registry answer, one after another. -/
def partings (s : Session) (name : String) (id : Identity) : List Act → List Bool
  | [] => []
  | a :: acts =>
    (if a.parts? s = some (name, id) then [((s.registry name).deregister id).1] else []) ++
      (a.run s).partings name id acts

theorem isRetired_after (s : Session) (name : String) (id : Identity) (acts : List Act) :
    ((s.after acts).registry name).isRetired id ↔
      (s.registry name).isRetired id ∨ s.partings name id acts ≠ [] := by
  induction acts generalizing s with
  | nil => simp [after, partings]
  | cons a acts ih =>
    rw [partings]
    refine (ih (a.run s)).trans ?_
    rw [a.isRetired_run s name id]
    by_cases hparts : a.parts? s = some (name, id) <;> simp [hparts]

/-- An identity is found at most the first time that it is taken out. -/
theorem count_partings (s : Session) (name : String) (id : Identity) (acts : List Act) :
    (s.partings name id acts).count true ≤ if (s.registry name).isRetired id then 0 else 1 := by
  induction acts generalizing s with
  | nil => exact Nat.zero_le _
  | cons a acts ih =>
    have hrest := ih (a.run s)
    rw [a.isRetired_run s name id] at hrest
    rw [partings, List.count_append]
    by_cases hparts : a.parts? s = some (name, id)
    · simp only [hparts, decide_true, Bool.or_true, ↓reduceIte] at hrest ⊢
      split
      · next hr =>
        rw [Registry.deregister_of_retired hr]
        simpa using hrest
      · have hone : [((s.registry name).deregister id).1].count true ≤ 1 := List.count_le_length
        omega
    · simp only [hparts, decide_false, Bool.or_false, ↓reduceIte, List.count_nil,
        Nat.zero_add] at hrest ⊢
      exact hrest

end Session

namespace Session

theorem orderly_after (files : FileSystem) (order : ListingOrder) (systemTemp : Path)
    (acts : List Act) :
    ((start files order systemTemp).after acts).Orderly :=
  (orderly_start files order systemTemp).reaches (reaches_any acts _)

theorem truthful_after (files : FileSystem) (order : ListingOrder) (systemTemp : Path)
    {acts : List Act} (hacts : ∀ a ∈ acts, a.isEnroll = false) :
    ((start files order systemTemp).after acts).Truthful := by
  have hnone : ∀ a ∈ acts, a.isEnroll = true → false = true := by
    intro a ha henroll
    rw [← hacts a ha, henroll]
  have hboth := (reaches_after hnone (start files order systemTemp)).keeps
    (P := fun s => s.Orderly ∧ s.Truthful) (fun h hs => ⟨hs.1.step h, hs.2.step hs.1 h⟩)
    ⟨orderly_start files order systemTemp, truthful_start files order systemTemp⟩
  exact hboth.2

end Session

/-- The life of an identity in a registry, in any session. What is taken out stays out, and is found
once at most when it is. An identity that is not retired can be taken up if and only if it leads to
no handle, and leads to the new one as long as that is held and its identity is not taken out.
Whoever is refused changes no answer, and the identities that are listed are those that lead to a
handle, in order. -/
theorem identity_lifetime (files : FileSystem) (order : ListingOrder) (systemTemp : Path)
    (acts : List Act) (name : String) (id : Identity) :
    let start := Session.start files order systemTemp
    let s := start.after acts
    let r := s.registry name
    (start.partings name id acts ≠ [] → ∀ later, let s' := s.after later
      (s'.registry name).isRetired id ∧ (s'.registry name).resolve s'.alive id = none ∧
        id ∉ (s'.registry name).ids s'.alive ∧
        ∀ slot settings layout saved storage, settings.validate = .ok layout → saved.id = id →
          answer (SessionM.takeUp slot name settings saved storage s') = .error (.retired id)) ∧
    (r.isRetired id → start.partings name id acts ≠ []) ∧
    (∀ slot settings layout saved storage, settings.validate = .ok layout → saved.id = id →
      r.isRetired id = false → let result := SessionM.takeUp slot name settings saved storage s
      ((∃ h, answer result = .ok h) ↔ r.resolve s.alive id = none) ∧
        (r.resolve s.alive id ≠ none → answer result = .error (.alreadyRegistered id)) ∧
        ∀ h s', result = .ok h s' → h.id = id ∧ s'.held[slot]? = some ⟨s.issued, name, h⟩ ∧
          ∀ later, let s' := s'.after later
            s'.alive s.issued → (s'.registry name).isRetired id = false →
              (s'.registry name).resolve s'.alive id = some s.issued ∧ ∃ slot held,
                s'.find? s.issued = some (slot, held) ∧ held.registry = name ∧
                held.handle.id = id) ∧
    ((∀ a ∈ acts, a.isEnroll = false) → r.isRetired id = false →
      (r.resolve s.alive id = none ↔ ∀ (slot : String) (held : Held),
        s.held[slot]? = some held → held.registry = name → held.handle.id ≠ id)) ∧
    (∀ slot registry settings saved storage e s',
      SessionM.takeUp slot registry settings saved storage s = .error e s' →
        (s'.registry name).resolve s'.alive id = r.resolve s.alive id ∧
        (s'.registry name).contains s'.alive id = r.contains s.alive id ∧
        (s'.registry name).ids s'.alive = r.ids s.alive ∧
        (s'.registry name).size s'.alive = r.size s.alive ∧
        (s'.registry name).isRetired id = r.isRetired id) ∧
    ((r.ids s.alive).Pairwise fun a b => compare a b = .lt) ∧
    (id ∈ r.ids s.alive ↔ (r.resolve s.alive id).isSome) ∧
    r.size s.alive = (r.ids s.alive).length ∧
    (start.partings name id acts).count true ≤ 1 := by
  intro start s r
  have horderly : s.Orderly := Session.orderly_after files order systemTemp acts
  have hretired : r.isRetired id ↔ start.partings name id acts ≠ [] := by
    have hstart : (start.registry name).isRetired id = false := by
      simp [start, Session.start, Session.registry, Registry.empty, Registry.isRetired]
    refine (Session.isRetired_after start name id acts).trans ?_
    rw [hstart]
    simp
  refine ⟨?_, hretired.1, ?_, ?_, ?_, Registry.ids_increasing _ _, Registry.mem_ids,
    Registry.size_eq_length _ _, ?_⟩
  · intro hparted later s'
    have hr : (s'.registry name).isRetired id :=
      (Session.isRetired_after s name id later).2 (Or.inl (hretired.2 hparted))
    have hnone := Registry.resolve_of_retired s'.alive hr
    refine ⟨hr, hnone, ?_, ?_⟩
    · rw [Registry.mem_ids, hnone]
      exact Bool.false_ne_true
    · rintro slot settings layout saved storage hvalid rfl
      rw [SessionM.takeUp_answer hvalid, if_pos hr]
  · rintro slot settings layout saved storage hvalid rfl hfree result
    have hanswer : answer result = _ := SessionM.takeUp_answer hvalid slot name saved storage s
    rw [hfree, if_neg Bool.false_ne_true] at hanswer
    refine ⟨?_, ?_, ?_⟩
    · rw [hanswer]
      cases r.resolve s.alive saved.id <;> simp
    · intro hsome
      rw [hanswer, if_pos (Option.isSome_iff_ne_none.2 hsome)]
    · intro h s₁ hok
      obtain ⟨hid, hheld, hnames⟩ := horderly.takeUp hok
      refine ⟨hid, hheld, ?_⟩
      intro later s' halive hlive
      have hfirst : Session.Reaches true s (left result) := Session.reaches_takeUp ..
      rw [hok, left_ok] at hfirst
      have hreaches := hfirst.trans (Session.reaches_any later s₁)
      exact (horderly.reaches hreaches).found
        (hnames.reaches (Session.reaches_any later s₁)) halive hlive
  · intro hacts hfree
    exact horderly.unused_iff (Session.truthful_after files order systemTemp hacts) hfree
  · intro slot registry settings saved storage e s' herror
    obtain ⟨-, -, hagrees⟩ := SessionM.takeUp_error herror
    have h := hagrees name
    exact ⟨h.resolve id, h.contains id, h.ids, h.size, h.isRetired id⟩
  · have hcount := Session.count_partings start name id acts
    split at hcount <;> omega

namespace Sample

def taking (slot : String) : Act := .create slot "" handle.settings "" handle.id

/-- A handle is dropped, and the next of its identity comes to its end. -/
def parting : List Act := [taking "h", .drop "h", taking "l", .ask "l" .dispose]

end Sample

theorem identity_lifetime_sample :
    Sample.session.partings "" Sample.handle.id Sample.parting = [true] ∧
    answer (SessionM.create "h" "" Sample.handle.settings "" Sample.handle.id
      (Sample.session.after Sample.parting)) = .error (.retired Sample.handle.id) := by
  have hparted : Sample.session.partings "" Sample.handle.id Sample.parting = [true] := by
    decide +kernel
  refine ⟨hparted, ?_⟩
  obtain ⟨hgone, -⟩ :=
    identity_lifetime Sample.files .byName ⟨"/"⟩ Sample.parting "" Sample.handle.id
  have hnow := hgone (by rw [← Sample.session, hparted]; exact List.cons_ne_nil _ _) []
  exact hnow.2.2.2 "h" Sample.handle.settings Sample.handle.layout ⟨"", Sample.handle.id, 0⟩
    .unassigned (by decide) rfl

end Depot
