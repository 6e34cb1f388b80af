import Depot.Proofs.Session.Identities

/-! What registries answer while handles that were dropped are still entered. Their entries stay
until the registry is next offered a handle. No answer about another identity shows that, but for
whether there was an entry to take out. -/

namespace Depot

open Work

namespace Registry

variable {ρ : Type} {alive : ρ → Bool} {r : Registry ρ} {id : Identity} {ref : ρ}

/-- Every entry after a handle has been offered. -/
theorem getElem?_register (id' : Identity) : (r.register alive id ref).2.entries[id']? =
    if r.isRetired id then r.entries[id']?
    else if id' = id then some ((r.resolve alive id).getD ref)
    else r.resolve alive id' := by
  have hcase := registerCase alive r id ref
  generalize r.register alive id ref = result at hcase
  cases hcase with
  | retired hr => rw [if_pos hr]
  | taken hfree ht =>
    obtain ⟨old, hold⟩ := Option.isSome_iff_exists.1 ht
    rw [hfree, if_neg Bool.false_ne_true, getElem?_prune]
    split
    · next he => rw [he, hold, Option.getD_some, ← hold, resolve]
    · rfl
  | entered hfree hnone _ hentries =>
    rw [hfree, if_neg Bool.false_ne_true, hentries, getElem?_insert_prune, hnone]
    rfl

theorem register_answer : (r.register alive id ref).1 =
    if r.isRetired id then .error .retired
    else if (r.resolve alive id).isSome then .error .taken
    else .ok () := by
  have hcase := registerCase alive r id ref
  generalize r.register alive id ref = result at hcase
  cases hcase with
  | retired hr => rw [if_pos hr]
  | taken hfree ht => rw [hfree, if_neg Bool.false_ne_true, if_pos ht]
  | entered hfree hnone _ _ =>
    rw [hfree, hnone]
    rfl

end Registry

/-- A handle as registries know it: its ticket, and the registry and identity it was taken up
with. -/
def Held.tag (held : Held) : Nat × String × Identity :=
  (held.ticket, held.registry, held.handle.id)

namespace Session

variable {s s' : Session} {name : String} {id : Identity}

def tag? (s : Session) (slot : String) : Option (Nat × String × Identity) :=
  (s.held[slot]?).map Held.tag

/-- The ticket that an identity is entered with, whether or not it leads to a handle. -/
def entered? (s : Session) (name : String) (id : Identity) : Option Nat :=
  (s.registry name).entries[id]?

/-- The ticket of the handle that an identity leads to. -/
def lookup? (s : Session) (name : String) (id : Identity) : Option Nat :=
  (s.registry name).resolve s.alive id

theorem lookup?_eq (s : Session) (name : String) (id : Identity) :
    s.lookup? name id = (s.entered? name id).filter s.alive := rfl

theorem alive_iff_tag {ticket : Nat} :
    s.alive ticket ↔ ∃ slot tag, s.tag? slot = some tag ∧ tag.1 = ticket := by
  simp only [alive_iff, tag?, Option.map_eq_some_iff]
  constructor
  · rintro ⟨slot, held, hheld, hticket⟩
    exact ⟨slot, held.tag, ⟨held, hheld, rfl⟩, hticket⟩
  · rintro ⟨slot, _, ⟨held, hheld, rfl⟩, hticket⟩
    exact ⟨slot, held, hheld, hticket⟩

/-- Whether a handle is taken up with these settings under this identity. -/
def admits (s : Session) (settings : Settings) (name : String) (id : Identity) : Bool :=
  settings.validate.isOk && !(s.registry name).isRetired id && (s.lookup? name id).isNone

end Session

/-! ## What an act does to handles and entries -/

namespace SessionM

open Session

/-- What becomes of handles and entries when one is to be taken up. -/
structure TakesUp (slot registry : String) (settings : Settings) (id : Identity)
    (s s' : Session) : Prop where
  temp : s'.systemTemp = s.systemTemp
  issued : s'.issued = if s.admits settings registry id then s.issued + 1 else s.issued
  tags : ∀ slot', s'.tag? slot' =
    if s.admits settings registry id ∧ slot' = slot then some (s.issued, registry, id)
    else s.tag? slot'
  entries : ∀ name id', s'.entered? name id' =
    if settings.validate.isOk ∧ registry = name ∧ (s.registry name).isRetired id = false then
      if id' = id then some ((s.lookup? name id).getD s.issued) else s.lookup? name id'
    else s.entered? name id'

theorem entries_of_register (s : Session) (ticket : Nat) {s' : Session} {registry : String}
    {id : Identity} (h : s'.registries = s.registries.insert registry
      ((s.registry registry).register s.alive id ticket).2) (name : String) (id' : Identity) :
    s'.entered? name id' =
      if registry = name ∧ (s.registry name).isRetired id = false then
        if id' = id then some ((s.lookup? name id).getD ticket) else s.lookup? name id'
      else s.entered? name id' := by
  rw [entered?, registry_of_insert h]
  by_cases hname : name = registry
  · subst hname
    rw [if_pos rfl, Registry.getElem?_register]
    cases (s.registry name).isRetired id <;> simp [entered?, lookup?]
  · rw [if_neg hname, if_neg fun hboth => hname hboth.1.symm]
    rfl

theorem admits_eq {settings : Settings} {layout : Layout} (hvalid : settings.validate = .ok layout)
    (s : Session) (registry : String) (id : Identity) : s.admits settings registry id =
      ((s.registry registry).register s.alive id s.issued).1.isOk := by
  rw [admits, hvalid, Registry.register_answer, lookup?]
  cases (s.registry registry).isRetired id <;>
    cases (s.registry registry).resolve s.alive id <;> rfl

theorem takesUp (slot registry : String) (settings : Settings) (saved : SavedHandle)
    (storage : Storage) (s : Session) : TakesUp slot registry settings saved.id s
      (left (takeUp slot registry settings saved storage s)) := by
  have hcase := takeUpCase slot registry settings saved storage s
  generalize takeUp slot registry settings saved storage s = result at hcase
  cases hcase with
  | invalid hv =>
    have hinvalid : settings.validate.isOk = false := by rw [hv]; rfl
    have hadmits : s.admits settings registry saved.id = false := by rw [admits, hinvalid]; rfl
    refine ⟨rfl, ?_, fun slot' => ?_, fun name id' => ?_⟩
    · rw [hadmits]
      rfl
    · rw [hadmits]
      rfl
    · rw [hinvalid]
      rfl
  | refused hv hr =>
    have hvalid : settings.validate.isOk = true := by rw [hv]; rfl
    have hadmits : s.admits settings registry saved.id = false := by rw [admits_eq hv, hr]; rfl
    rw [left_error]
    refine ⟨rfl, ?_, fun slot' => ?_, fun name id' => ?_⟩
    · rw [hadmits]
      rfl
    · rw [hadmits]
      rfl
    · rw [entries_of_register s s.issued (by rw [hr]), hvalid]
      simp
  | entered hv hr =>
    have hvalid : settings.validate.isOk = true := by rw [hv]; rfl
    have hadmits : s.admits settings registry saved.id = true := by rw [admits_eq hv, hr]; rfl
    rw [left_ok]
    refine ⟨rfl, ?_, fun slot' => ?_, fun name id' => ?_⟩
    · rw [hadmits]
      rfl
    · rw [hadmits, tag?, slot_of_insert]
      by_cases hslot : slot' = slot
      · rw [if_pos hslot, if_pos ⟨rfl, hslot⟩]
        rfl
      · rw [if_neg hslot, if_neg fun hboth => hslot hboth.2]
        rfl
    · rw [entries_of_register s s.issued (by rw [hr]), hvalid]
      simp

end SessionM

namespace Act

open Session

/-- The handle that an act offers to a registry, as identity and ticket. -/
def offers? (s : Session) : Act → Option (String × Identity × Nat)
  | create _ registry settings _ id =>
    if settings.validate.isOk then some (registry, id, s.issued) else none
  | restore _ registry settings saved _ =>
    if settings.validate.isOk then some (registry, saved.id, s.issued) else none
  | enroll registry id slot => (s.tag? slot).map fun tag => (registry, id, tag.1)
  | _ => none

/-- The slot, the registry and the identity of the handle that an act takes up, if it does. -/
def admits? (s : Session) : Act → Option (String × String × Identity)
  | create slot registry settings _ id =>
    if s.admits settings registry id then some (slot, registry, id) else none
  | restore slot registry settings saved _ =>
    if s.admits settings registry saved.id then some (slot, registry, saved.id) else none
  | _ => none

/-- The slot that an act empties. -/
def vacates? : Act → Option String
  | drop slot => some slot
  | _ => none

/-- What an act does, as registries see it. -/
structure Does (a : Act) (s s' : Session) : Prop where
  temp : s'.systemTemp = s.systemTemp
  issued : s'.issued = if (a.admits? s).isSome then s.issued + 1 else s.issued
  tags : ∀ slot, s'.tag? slot =
    if a.vacates? = some slot then none
    else match a.admits? s with
      | some (slot', registry, id) =>
        if slot = slot' then some (s.issued, registry, id) else s.tag? slot
      | none => s.tag? slot
  entries : ∀ name id, s'.entered? name id =
    if a.parts? s = some (name, id) then none
    else match a.offers? s with
      | some (registry, id', ticket) =>
        if registry = name ∧ (s.registry name).isRetired id' = false then
          if id = id' then some ((s.lookup? name id').getD ticket) else s.lookup? name id
        else s.entered? name id
      | none => s.entered? name id

theorem does_of_takesUp {a : Act} {s s' : Session} {slot registry : String} {settings : Settings}
    {id : Identity} (h : SessionM.TakesUp slot registry settings id s s')
    (hparts : a.parts? s = none) (hvacates : a.vacates? = none)
    (hoffers : a.offers? s =
      if settings.validate.isOk then some (registry, id, s.issued) else none)
    (hadmits : a.admits? s =
      if s.admits settings registry id then some (slot, registry, id) else none) :
    a.Does s s' := by
  refine ⟨h.temp, ?_, fun slot' => ?_, fun name id' => ?_⟩
  · rw [h.issued, hadmits]
    cases s.admits settings registry id <;> rfl
  · rw [h.tags, hvacates, hadmits]
    cases s.admits settings registry id <;> simp
  · rw [h.entries, hparts, hoffers]
    cases settings.validate.isOk <;> simp

/-- A handle that works is held as before, and no ticket is given out. -/
theorem asked {s : Session} {slot : String} {held : Held} (h : s.held[slot]? = some held)
    (request : Request) : (left (request.run slot held s)).systemTemp = s.systemTemp ∧
      (left (request.run slot held s)).issued = s.issued ∧
      ∀ slot', (left (request.run slot held s)).tag? slot' = s.tag? slot' := by
  rcases serves h request with hs | ⟨slot₁, held₁, request₁, hserves, h₁, hs⟩
  · rw [hs]
    exact ⟨rfl, rfl, fun _ => rfl⟩
  · have hheld := held_ask h₁ hserves.isOwn
    rw [hs]
    refine ⟨?_, ?_, fun slot' => ?_⟩
    · rw [← turn_outcome h₁, Turn.left_own hserves.isOwn]
      rfl
    · rw [← turn_outcome h₁, Turn.left_own hserves.isOwn]
      rfl
    · rw [tag?, hheld, slot_of_insert, tag?]
      split
      · next hslot =>
        have hsame := held₁.handle.after_same [s.turn slot₁ held₁ request₁]
        rw [hslot, h₁, Option.map_some, Option.map_some, Held.tag, Held.tag]
        exact congrArg (fun id => some (held₁.ticket, held₁.registry, id)) hsame.id
      · rfl

theorem does (a : Act) (s : Session) : a.Does s (a.run s) := by
  cases a with
  | create slot registry settings label id =>
    exact does_of_takesUp (SessionM.takesUp ..) rfl rfl rfl rfl
  | restore slot registry settings saved source =>
    exact does_of_takesUp (SessionM.takesUp ..) rfl rfl rfl rfl
  | drop slot =>
    refine ⟨rfl, rfl, fun slot' => ?_, fun _ _ => rfl⟩
    rw [run, tag?, slot_of_erase]
    by_cases hslot : slot' = slot
    · subst hslot
      simp [vacates?]
    · simp [vacates?, admits?, hslot, Ne.symm hslot, tag?]
  | retire registry id =>
    refine ⟨rfl, rfl, fun _ => rfl, fun name id' => ?_⟩
    have hregistry : ((retire registry id).run s).registry name =
        if name = registry then ((s.registry registry).deregister id).2 else s.registry name :=
      registry_of_insert rfl name
    rw [entered?, hregistry]
    by_cases hname : name = registry
    · subst hname
      rw [if_pos rfl, Registry.getElem?_deregister]
      simp [parts?, offers?, entered?, @eq_comm _ id']
    · simp [parts?, offers?, entered?, hname, Ne.symm hname]
  | beside => exact ⟨rfl, rfl, fun _ => rfl, fun _ _ => rfl⟩
  | enroll registry id slot =>
    rw [run]
    cases hheld : s.held[slot]? with
    | none =>
      have hoffers : offers? s (enroll registry id slot) = none := by simp [offers?, tag?, hheld]
      exact ⟨rfl, rfl, fun _ => rfl, fun _ _ => by rw [hoffers]; rfl⟩
    | some held =>
      have hoffers : offers? s (enroll registry id slot) = some (registry, id, held.ticket) := by
        simp [offers?, tag?, hheld, Held.tag]
      -- in each case the registry is the one that offering the handle leaves
      have hall : ∀ s' : Session, s'.registries = s.registries.insert registry
          ((s.registry registry).register s.alive id held.ticket).2 →
          s'.systemTemp = s.systemTemp → s'.issued = s.issued → s'.held = s.held →
          Does (enroll registry id slot) s s' := by
        intro s' hregistries htemp hissued hsame
        refine ⟨htemp, hissued, fun slot' => by rw [tag?, hsame]; rfl, fun name id' => ?_⟩
        rw [SessionM.entries_of_register s held.ticket hregistries, hoffers]
        rfl
      dsimp only
      rw [SessionM.enroll_apply]
      split
      · next hr => exact hall _ (by rw [hr]; rfl) rfl rfl rfl
      · next hr => exact hall _ (by rw [hr]; rfl) rfl rfl rfl
      · next hr => exact hall _ (by rw [hr]; rfl) rfl rfl rfl
  | ask slot request =>
    rw [run]
    cases hheld : s.held[slot]? with
    | none =>
      have hparts : parts? s (ask slot request) = none := by cases request <;> simp [parts?, hheld]
      exact ⟨rfl, rfl, fun _ => rfl, fun _ _ => by rw [hparts]; rfl⟩
    | some held =>
      obtain ⟨htemp, hissued, htags⟩ := asked hheld request
      have hregistries := registries_ask hheld request
      refine ⟨htemp, hissued, htags, fun name id' => ?_⟩
      dsimp only
      cases request with
      | dispose =>
        have hparts : parts? s (ask slot .dispose) = some (held.registry, held.handle.id) := by
          rw [parts?, hheld]
          rfl
        rw [entered?, registry_of_insert hregistries, hparts]
        by_cases hname : name = held.registry
        · subst hname
          rw [if_pos rfl, Registry.getElem?_deregister]
          simp [offers?, entered?, @eq_comm _ id']
        · simp [offers?, entered?, hname, Ne.symm hname]
      | _ =>
        dsimp only at hregistries
        rw [entered?, registry, hregistries]
        rfl

/-- An act offers a handle to a registry under an identity that is not retired. The registry drops
the entries that lead nowhere then. -/
def Sweeps (s : Session) (name : String) (a : Act) : Prop :=
  ∃ id ticket, a.offers? s = some (name, id, ticket) ∧ (s.registry name).isRetired id = false

/-- The acts that leave a handle in a slot alone, but for dropping it and for what it is asked short
of its end, and that take up no other under its identity. -/
def Spares (slot registry : String) (own : Identity) : Act → Prop
  | create slot' registry' _ _ id => slot' ≠ slot ∧ (registry', id) ≠ (registry, own)
  | restore slot' registry' _ saved _ => slot' ≠ slot ∧ (registry', saved.id) ≠ (registry, own)
  | enroll _ _ slot' => slot' ≠ slot
  | ask slot' .dispose => slot' ≠ slot
  | _ => True

namespace Does

variable {a : Act} {s s' : Session} {name : String} {id : Identity} {ticket : Nat}

theorem alive (h : a.Does s s') (halive : s'.alive ticket) :
    s.alive ticket ∨ ticket = s.issued := by
  obtain ⟨slot, tag, htag, rfl⟩ := alive_iff_tag.1 halive
  rw [h.tags] at htag
  split at htag
  · cases htag
  · split at htag
    · split at htag
      · cases htag
        exact Or.inr rfl
      · exact Or.inl (alive_iff_tag.2 ⟨slot, tag, htag, rfl⟩)
    · exact Or.inl (alive_iff_tag.2 ⟨slot, tag, htag, rfl⟩)

/-- Nothing happens to an entry that is neither taken out nor swept. -/
theorem entry_unswept (h : a.Does s s') (hparts : a.parts? s ≠ some (name, id))
    (hsweeps : ¬a.Sweeps s name) : s'.entered? name id = s.entered? name id := by
  rw [h.entries, if_neg hparts]
  split
  · next registry id' ticket hoffers =>
    rw [if_neg]
    rintro ⟨rfl, hfree⟩
    exact hsweeps ⟨id', ticket, hoffers, hfree⟩
  · rfl

/-- Where entries are swept, those stay that lead to a handle, and the one that was offered is
entered unless its identity leads to another. -/
theorem entry_swept (h : a.Does s s') (hparts : a.parts? s ≠ some (name, id)) {id' : Identity}
    (hoffers : a.offers? s = some (name, id', ticket))
    (hfree : (s.registry name).isRetired id' = false) : s'.entered? name id =
      if id = id' then some ((s.lookup? name id).getD ticket) else s.lookup? name id := by
  rw [h.entries, if_neg hparts, hoffers]
  dsimp only
  rw [if_pos ⟨rfl, hfree⟩]
  split
  · next he => rw [he]
  · rfl

/-- An entry that leads to a handle stays until it is taken out. -/
theorem entry_kept (h : a.Does s s') (hparts : a.parts? s ≠ some (name, id))
    (hlookup : s.lookup? name id = some ticket) : s'.entered? name id = some ticket := by
  by_cases hsweeps : a.Sweeps s name
  · obtain ⟨id', ticket', hoffers, hfree⟩ := hsweeps
    rw [h.entry_swept hparts hoffers hfree, hlookup]
    split <;> rfl
  · rw [h.entry_unswept hparts hsweeps]
    rw [lookup?_eq, Option.filter_eq_some_iff] at hlookup
    exact hlookup.1

end Does

end Act

namespace Session

open Act

variable {s s' : Session} {name : String} {id : Identity} {ticket : Nat}

/-- What is offered and accepted is held. -/
theorem alive_offered {a : Act} (h : a.Does s s')
    (hoffers : a.offers? s = some (name, id, ticket))
    (hfree : (s.registry name).isRetired id = false) (hnone : s.lookup? name id = none) :
    s'.alive ticket := by
  have hadmits : ∀ settings : Settings, settings.validate.isOk → s.admits settings name id := by
    intro settings hvalid
    rw [admits, hvalid, hfree, hnone]
    rfl
  rw [alive_iff_tag]
  cases a with
  | create slot registry settings label id₁ =>
    obtain ⟨hvalid, he⟩ := Option.ite_none_right_eq_some.1 hoffers
    cases he
    refine ⟨slot, (s.issued, name, id), ?_, rfl⟩
    rw [h.tags, admits?, if_pos (hadmits settings hvalid)]
    simp [vacates?]
  | restore slot registry settings saved source =>
    obtain ⟨hvalid, he⟩ := Option.ite_none_right_eq_some.1 hoffers
    cases he
    refine ⟨slot, (s.issued, name, saved.id), ?_, rfl⟩
    rw [h.tags, admits?, if_pos (hadmits settings hvalid)]
    simp [vacates?]
  | enroll registry id₁ slot =>
    obtain ⟨tag, htag, he⟩ := Option.map_eq_some_iff.1 hoffers
    cases he
    refine ⟨slot, tag, ?_, rfl⟩
    rw [h.tags]
    exact htag
  | _ => cases hoffers

/-! ## Entries that lead nowhere -/

/-- An identity is entered, but its handle is held no longer. -/
def Lingers (s : Session) (name : String) (id : Identity) : Prop :=
  ∃ ticket, s.entered? name id = some ticket ∧ s.alive ticket = false

theorem lookup?_eq_none : s.lookup? name id = none ↔
    ∀ ticket, s.entered? name id = some ticket → s.alive ticket = false := by
  rw [lookup?_eq, Option.filter_eq_none_iff]
  simp

/-- How an entry comes to lead nowhere, and remains. -/
theorem lingers_run (ho : s.Orderly) (a : Act) : (a.run s).Lingers name id ↔
    a.parts? s ≠ some (name, id) ∧
      ((s.lookup? name id).isSome ∧ (a.run s).lookup? name id = none ∨
        s.Lingers name id ∧ ¬a.Sweeps s name) := by
  have h := a.does s
  constructor
  · rintro ⟨ticket, he, hdead⟩
    have hparts : a.parts? s ≠ some (name, id) := by
      intro hparts
      rw [h.entries, if_pos hparts] at he
      cases he
    have hnone : (a.run s).lookup? name id = none := by
      rw [lookup?_eq, he]
      simp [hdead]
    refine ⟨hparts, ?_⟩
    by_cases hsweeps : a.Sweeps s name
    · obtain ⟨id', ticket', hoffers, hfree⟩ := hsweeps
      rw [h.entry_swept hparts hoffers hfree] at he
      refine Or.inl ⟨?_, hnone⟩
      cases hlookup : s.lookup? name id with
      | some _ => rfl
      | none =>
        rw [hlookup] at he
        split at he
        · next hid =>
          -- the handle that has just been entered would be held
          subst hid
          cases he
          rw [Option.getD_none, alive_offered h hoffers hfree hlookup] at hdead
          cases hdead
        · cases he
    · rw [h.entry_unswept hparts hsweeps] at he
      cases halive : s.alive ticket with
      | true =>
        refine Or.inl ⟨?_, hnone⟩
        rw [lookup?_eq, he]
        simp [halive]
      | false => exact Or.inr ⟨⟨ticket, he, halive⟩, hsweeps⟩
  · rintro ⟨hparts, ⟨hsome, hnone⟩ | ⟨⟨ticket, he, hdead⟩, hsweeps⟩⟩
    · obtain ⟨ticket, hlookup⟩ := Option.isSome_iff_exists.1 hsome
      have he := h.entry_kept hparts hlookup
      exact ⟨ticket, he, lookup?_eq_none.1 hnone ticket he⟩
    · refine ⟨ticket, by rw [h.entry_unswept hparts hsweeps, he], ?_⟩
      rw [← Bool.not_eq_true]
      intro halive
      rcases h.alive halive with halive | hnew
      · rw [hdead] at halive
        cases halive
      · have hlt := ho.past he
        omega

/-- None of the acts takes an identity out of a registry or has that swept. -/
def Undisturbed (s : Session) (name : String) (id : Identity) : List Act → Prop
  | [] => True
  | a :: acts => a.parts? s ≠ some (name, id) ∧ ¬a.Sweeps s name ∧
      (a.run s).Undisturbed name id acts

/-- Some act drops the handle to which an identity leads and does not take the identity out, and
nothing disturbs the entry after that. -/
def Abandoned (s : Session) (name : String) (id : Identity) : List Act → Prop
  | [] => False
  | a :: acts =>
    (s.lookup? name id).isSome ∧ (a.run s).lookup? name id = none ∧
      a.parts? s ≠ some (name, id) ∧ (a.run s).Undisturbed name id acts ∨
    (a.run s).Abandoned name id acts

theorem lingers_after (ho : s.Orderly) (acts : List Act) : (s.after acts).Lingers name id ↔
    s.Lingers name id ∧ s.Undisturbed name id acts ∨ s.Abandoned name id acts := by
  -- an entry may have been left behind before the first act, so the induction is for any session
  induction acts generalizing s with
  | nil => simp [Undisturbed, Abandoned]
  | cons a acts ih =>
    have ho' : (a.run s).Orderly := ho.reaches (Act.reaches (fun _ => rfl) s)
    refine (ih ho').trans ?_
    rw [lingers_run ho a, Undisturbed, Abandoned]
    tauto

/-! ## One handle more -/

/-- The ticket that a handle has when a further one has been given out before it. -/
def renumber (new ticket : Nat) : Nat := if ticket < new then ticket else ticket + 1

theorem renumber_ne (new ticket : Nat) : renumber new ticket ≠ new := by
  unfold renumber
  split <;> omega

theorem renumber_inj {new t t' : Nat} : renumber new t = renumber new t' ↔ t = t' := by
  unfold renumber
  split <;> split <;> omega

theorem renumber_of_lt {new ticket : Nat} (h : ticket < new) : renumber new ticket = ticket :=
  if_pos h

/-- The entries of one identity in two sessions: the same, or one that leads nowhere is missing in
the second. -/
def Shadows (new : Nat) (alive : Nat → Bool) (e e' : Option Nat) : Prop :=
  e' = e.map (renumber new) ∨ e' = none ∧ ∀ ticket, e = some ticket → alive ticket = false

/-- The second session has what the first has, and perhaps a handle more, which is in a slot, a
registry and under an identity of its own. -/
structure Joined (slot : String) (new : Nat) (registry : String) (own : Identity)
    (s s' : Session) : Prop where
  temp : s'.systemTemp = s.systemTemp
  early : new ≤ s.issued
  issued : s'.issued = s.issued + 1
  alone : s.tag? slot = none
  newcomer : ∀ tag, s'.tag? slot = some tag → tag.1 = new
  others : ∀ place, place ≠ slot →
    s'.tag? place = (s.tag? place).map fun tag => (renumber new tag.1, tag.2)
  retired : ∀ name id, (s'.registry name).isRetired id = (s.registry name).isRetired id
  entries : ∀ name id, (name, id) ≠ (registry, own) →
    Shadows new s.alive (s.entered? name id) (s'.entered? name id)

namespace Joined

variable {slot registry : String} {new : Nat} {own : Identity}

theorem alive (h : Joined slot new registry own s s') (ticket : Nat) :
    s'.alive (renumber new ticket) = s.alive ticket := by
  rw [Bool.eq_iff_iff, alive_iff_tag, alive_iff_tag]
  constructor
  · rintro ⟨place, tag, htag, hticket⟩
    by_cases hplace : place = slot
    · subst hplace
      rw [h.newcomer tag htag] at hticket
      exact absurd hticket.symm (renumber_ne _ _)
    · rw [h.others place hplace, Option.map_eq_some_iff] at htag
      obtain ⟨old, hold, rfl⟩ := htag
      exact ⟨place, old, hold, renumber_inj.1 hticket⟩
  · rintro ⟨place, tag, htag, rfl⟩
    have hplace : place ≠ slot := by
      rintro rfl
      rw [h.alone] at htag
      cases htag
    exact ⟨place, (renumber new tag.1, tag.2), by rw [h.others place hplace, htag]; rfl, rfl⟩

theorem lookup? (h : Joined slot new registry own s s') (hne : (name, id) ≠ (registry, own)) :
    s'.lookup? name id = (s.lookup? name id).map (renumber new) := by
  rw [lookup?_eq, lookup?_eq]
  rcases h.entries name id hne with he | ⟨he, hdead⟩
  · rw [he]
    cases s.entered? name id with
    | none => rfl
    | some ticket => simp [Option.filter, h.alive ticket, apply_ite]
  · rw [he]
    cases hentry : s.entered? name id with
    | none => rfl
    | some ticket => simp [Option.filter, hdead ticket hentry]

theorem renumber_issued (h : Joined slot new registry own s s') :
    s'.issued = renumber new s.issued := by
  have hearly := h.early
  rw [h.issued, renumber, if_neg (by omega)]

theorem parts? (h : Joined slot new registry own s s') {a : Act}
    (hspares : a.Spares slot registry own) : a.parts? s' = a.parts? s := by
  have htag : ∀ (s : Session) (place : String), (ask place .dispose).parts? s =
      (s.tag? place).map (·.2) := by
    intro s place
    rw [Act.parts?, tag?, Option.map_map]
    rfl
  cases a with
  | ask place request =>
    cases request with
    | dispose =>
      rw [htag, htag, h.others place hspares, Option.map_map]
      rfl
    | _ => rfl
  | _ => rfl

theorem offers? (h : Joined slot new registry own s s') {a : Act}
    (hspares : a.Spares slot registry own) : a.offers? s' =
      (a.offers? s).map fun offer => (offer.1, offer.2.1, renumber new offer.2.2) := by
  have hissued := h.renumber_issued
  cases a with
  | create place name settings label id =>
    rw [Act.offers?, Act.offers?, hissued]
    cases settings.validate.isOk <;> rfl
  | restore place name settings saved source =>
    rw [Act.offers?, Act.offers?, hissued]
    cases settings.validate.isOk <;> rfl
  | enroll name id place =>
    rw [Act.offers?, Act.offers?, h.others place hspares, Option.map_map, Option.map_map]
    rfl
  | _ => rfl

theorem admits (h : Joined slot new registry own s s') (settings : Settings)
    (hne : (name, id) ≠ (registry, own)) :
    s'.admits settings name id = s.admits settings name id := by
  rw [Session.admits, Session.admits, h.retired, h.lookup? hne, Option.isNone_map]

theorem admits? (h : Joined slot new registry own s s') {a : Act}
    (hspares : a.Spares slot registry own) : a.admits? s' = a.admits? s := by
  cases a with
  | create => rw [Act.admits?, Act.admits?, h.admits _ hspares.2]
  | restore => rw [Act.admits?, Act.admits?, h.admits _ hspares.2]
  | _ => rfl

theorem slot_ne {a : Act} (hspares : a.Spares slot registry own) {place name : String}
    (hadmits : a.admits? s = some (place, name, id)) : place ≠ slot := by
  cases a with
  | create =>
    obtain ⟨-, he⟩ := Option.ite_none_right_eq_some.1 hadmits
    cases he
    exact hspares.1
  | restore =>
    obtain ⟨-, he⟩ := Option.ite_none_right_eq_some.1 hadmits
    cases he
    exact hspares.1
  | _ => cases hadmits

theorem entries_step (h : Joined slot new registry own s s') (ho : s.Orderly) {a : Act}
    (hspares : a.Spares slot registry own) (hne : (name, id) ≠ (registry, own)) :
    Shadows new (a.run s).alive ((a.run s).entered? name id) ((a.run s').entered? name id) := by
  have hdoes := a.does s
  have hdoes' := a.does s'
  have hlookup := h.lookup? hne
  by_cases hparts : a.parts? s = some (name, id)
  · rw [hdoes.entries, hdoes'.entries, h.parts? hspares, if_pos hparts, if_pos hparts]
    exact Or.inl rfl
  have hparts' : a.parts? s' ≠ some (name, id) := by rwa [h.parts? hspares]
  by_cases hsweeps : a.Sweeps s name
  · -- both registries are swept, and are the same after that
    obtain ⟨id', ticket, hoffers, hfree⟩ := hsweeps
    have hoffers' : a.offers? s' = some (name, id', renumber new ticket) := by
      rw [h.offers? hspares, hoffers]
      rfl
    have hfree' : (s'.registry name).isRetired id' = false := by rw [h.retired, hfree]
    rw [hdoes.entry_swept hparts hoffers hfree, hdoes'.entry_swept hparts' hoffers' hfree', hlookup]
    refine Or.inl ?_
    split
    · cases s.lookup? name id <;> rfl
    · rfl
  · have hsweeps' : ¬a.Sweeps s' name := by
      rintro ⟨id', ticket', hoffers', hfree'⟩
      rw [h.offers? hspares, Option.map_eq_some_iff] at hoffers'
      obtain ⟨⟨_, _, ticket⟩, hoffers, he⟩ := hoffers'
      cases he
      exact hsweeps ⟨_, ticket, hoffers, by rw [← h.retired, hfree']⟩
    rw [hdoes.entry_unswept hparts hsweeps, hdoes'.entry_unswept hparts' hsweeps']
    rcases h.entries name id hne with he | ⟨he, hdead⟩
    · exact Or.inl he
    · refine Or.inr ⟨he, fun ticket hentry => ?_⟩
      rw [← Bool.not_eq_true]
      intro halive
      rcases hdoes.alive halive with halive | hnew
      · rw [hdead ticket hentry] at halive
        cases halive
      · have hlt := ho.past hentry
        omega

theorem step (h : Joined slot new registry own s s') (ho : s.Orderly) {a : Act}
    (hspares : a.Spares slot registry own) :
    Joined slot new registry own (a.run s) (a.run s') := by
  have hdoes := a.does s
  have hdoes' := a.does s'
  have hearly := h.early
  have hissued := h.issued
  refine ⟨?_, ?_, ?_, ?_, fun tag htag => ?_, fun place hplace => ?_, fun name id => ?_,
    fun name id hne => h.entries_step ho hspares hne⟩
  · rw [hdoes'.temp, h.temp, hdoes.temp]
  · rw [hdoes.issued]
    split <;> omega
  · rw [hdoes'.issued, hdoes.issued, h.admits? hspares]
    split <;> omega
  · rw [hdoes.tags]
    split
    · rfl
    · split
      · next hadmits => rw [if_neg (slot_ne hspares hadmits).symm, h.alone]
      · exact h.alone
  · rw [hdoes'.tags, h.admits? hspares] at htag
    split at htag
    · cases htag
    · split at htag
      · next hadmits =>
        rw [if_neg (slot_ne hspares hadmits).symm] at htag
        exact h.newcomer tag htag
      · exact h.newcomer tag htag
  · rw [hdoes'.tags, hdoes.tags, h.admits? hspares, h.renumber_issued]
    split
    · rfl
    · split
      · split
        · rfl
        · exact h.others place hplace
      · exact h.others place hplace
  · rw [a.isRetired_run, a.isRetired_run, h.parts? hspares, h.retired]

theorem after (h : Joined slot new registry own s s') (ho : s.Orderly) {acts : List Act}
    (hspares : ∀ a ∈ acts, a.Spares slot registry own) :
    Joined slot new registry own (s.after acts) (s'.after acts) := by
  induction acts generalizing s s' with
  | nil => exact h
  | cons a acts ih =>
    have hfirst := h.step ho (hspares a (List.mem_cons_self ..))
    exact ih hfirst (ho.reaches (Act.reaches (fun _ => rfl) s))
      fun b hb => hspares b (List.mem_cons_of_mem _ hb)

end Joined

/-- A handle that has been taken up into an empty slot is one more. -/
theorem Orderly.joined (ho : s.Orderly) {slot registry : String} {settings : Settings}
    {saved : SavedHandle} {storage : Storage} {handle : Handle} (hslot : s.held[slot]? = none)
    (htake : SessionM.takeUp slot registry settings saved storage s = .ok handle s') :
    Joined slot s.issued registry saved.id s s' := by
  have htakes := SessionM.takesUp slot registry settings saved storage s
  rw [htake, left_ok] at htakes
  have halone : s.tag? slot = none := by
    rw [tag?, hslot]
    rfl
  have hadmits : s.admits settings registry saved.id = true := by
    have hcase := SessionM.takeUpCase slot registry settings saved storage s
    rw [htake] at hcase
    cases hcase with
    | entered hv hr =>
      rw [SessionM.admits_eq hv, hr]
      rfl
  have hold : ∀ place tag, s.tag? place = some tag → renumber s.issued tag.1 = tag.1 := by
    intro place tag htag
    obtain ⟨held, hheld, rfl⟩ := Option.map_eq_some_iff.1 htag
    exact renumber_of_lt (ho.early hheld)
  refine ⟨htakes.temp, le_refl _, ?_, halone, fun tag htag => ?_, fun place hplace => ?_,
    fun name id => ?_, fun name id hne => ?_⟩
  · rw [htakes.issued, if_pos hadmits]
  · rw [htakes.tags, if_pos ⟨hadmits, rfl⟩] at htag
    cases htag
    rfl
  · rw [htakes.tags, if_neg fun hboth => hplace hboth.2]
    cases htag : s.tag? place with
    | none => rfl
    | some tag => rw [Option.map_some, hold place tag htag]
  · have hretired := isRetired_takeUp slot registry settings saved storage s name id
    rwa [htake, left_ok] at hretired
  · have hsame : (s.entered? name id).map (renumber s.issued) = s.entered? name id := by
      cases he : s.entered? name id with
      | none => rfl
      | some ticket => rw [Option.map_some, renumber_of_lt (ho.past he)]
    rw [htakes.entries]
    split
    · next hswept =>
      have hother : id ≠ saved.id := by
        rintro rfl
        exact hne (by rw [hswept.2.1])
      rw [if_neg hother, lookup?_eq]
      cases he : s.entered? name id with
      | none => exact Or.inl rfl
      | some ticket =>
        cases halive : s.alive ticket with
        | true =>
          refine Or.inl ?_
          rw [← he, hsame, he]
          simp [halive]
        | false =>
          refine Or.inr ⟨by simp [halive], fun ticket' he' => ?_⟩
          cases he'
          exact halive
    · exact Or.inl hsame.symm

/-! ## What registries answer -/

/-- The handle of a slot is the one to which an identity leads. -/
def LeadsTo (s : Session) (name : String) (id : Identity) (slot : String) : Prop :=
  ∃ held, s.held[slot]? = some held ∧ (s.registry name).resolve s.alive id = some held.ticket

theorem leadsTo_iff_tag {slot : String} : s.LeadsTo name id slot ↔
    ∃ tag, s.tag? slot = some tag ∧ s.lookup? name id = some tag.1 := by
  simp only [LeadsTo, tag?, Option.map_eq_some_iff]
  constructor
  · rintro ⟨held, hheld, hlookup⟩
    exact ⟨held.tag, ⟨held, hheld, rfl⟩, hlookup⟩
  · rintro ⟨_, ⟨held, hheld, rfl⟩, hlookup⟩
    exact ⟨held, hheld, hlookup⟩

theorem deregister_answer : ((s.registry name).deregister id).1 = true ↔
    (s.registry name).contains s.alive id ∨ s.Lingers name id := by
  change (s.entered? name id).isSome ↔ (s.lookup? name id).isSome ∨ s.Lingers name id
  rw [lookup?_eq, Lingers]
  cases s.entered? name id with
  | none => simp
  | some ticket => cases halive : s.alive ticket <;> simp [halive]

end Session

namespace SessionM

open Session

variable {s s' : Session} {name : String} {id : Identity}

/-- Only the registry and the temporary directory bear on what taking a handle up answers. -/
theorem takeUp_alike {saved : SavedHandle} (htemp : s'.systemTemp = s.systemTemp)
    (hretired : (s'.registry name).isRetired saved.id = (s.registry name).isRetired saved.id)
    (hcontains : ((s'.registry name).resolve s'.alive saved.id).isSome =
      ((s.registry name).resolve s.alive saved.id).isSome)
    (slot : String) (settings : Settings) (storage : Storage) :
    answer (takeUp slot name settings saved storage s') =
      answer (takeUp slot name settings saved storage s) := by
  cases hv : settings.validate with
  | error fault =>
    unfold takeUp
    rw [hv]
    rfl
  | ok layout =>
    rw [takeUp_answer hv, takeUp_answer hv, hretired, hcontains, newcomer, newcomer, htemp]

theorem enroll_answer (ticket : Nat) : answer (enroll name id ticket s) =
    if (s.registry name).isRetired id then .error (.retired id)
    else if ((s.registry name).resolve s.alive id).isSome then .error (.alreadyRegistered id)
    else .ok () := by
  have hcase := Registry.registerCase s.alive (s.registry name) id ticket
  rw [enroll_apply]
  generalize (s.registry name).register s.alive id ticket = result at hcase
  cases hcase with
  | retired hr =>
    rw [if_pos hr]
    rfl
  | taken hfree htaken =>
    rw [hfree, if_neg Bool.false_ne_true, if_pos htaken]
    rfl
  | entered hfree hnone =>
    rw [hfree, hnone]
    rfl

end SessionM

namespace Session.Joined

variable {s s' : Session} {slot registry : String} {new : Nat} {own : Identity} {name : String}
  {id : Identity}

theorem leadsTo (h : Joined slot new registry own s s') (hne : (name, id) ≠ (registry, own))
    (place : String) : s'.LeadsTo name id place ↔ s.LeadsTo name id place := by
  rw [leadsTo_iff_tag, leadsTo_iff_tag, h.lookup? hne]
  by_cases hplace : place = slot
  · subst hplace
    rw [h.alone]
    constructor
    · rintro ⟨tag, htag, hlookup⟩
      rw [h.newcomer tag htag, Option.map_eq_some_iff] at hlookup
      obtain ⟨ticket, -, hticket⟩ := hlookup
      exact absurd hticket (renumber_ne _ _)
    · rintro ⟨tag, htag, -⟩
      cases htag
  · rw [h.others place hplace]
    cases s.tag? place with
    | none => simp
    | some tag => simp [Option.map_eq_some_iff, renumber_inj]

/-- An entry that is taken out in one session and not found in the other leads nowhere. -/
theorem deregister (h : Joined slot new registry own s s') (hne : (name, id) ≠ (registry, own)) :
    (((s'.registry name).deregister id).1 = true → ((s.registry name).deregister id).1 = true) ∧
      (¬s.Lingers name id →
        ((s'.registry name).deregister id).1 = ((s.registry name).deregister id).1) := by
  change ((s'.entered? name id).isSome = true → (s.entered? name id).isSome = true) ∧
    (¬s.Lingers name id → (s'.entered? name id).isSome = (s.entered? name id).isSome)
  rcases h.entries name id hne with he | ⟨he, hdead⟩
  · rw [he, Option.isSome_map]
    exact ⟨fun hsome => hsome, fun _ => rfl⟩
  · rw [he]
    refine ⟨nofun, fun hlingers => ?_⟩
    cases hentry : s.entered? name id with
    | none => rfl
    | some ticket => exact absurd ⟨ticket, hentry, hdead ticket hentry⟩ hlingers

end Session.Joined

/-- What a registry answers about an identity while dropped handles are still entered. Taking the
identity out finds it if and only if it leads to a handle or its handle was dropped and the registry
has not been offered another since. A handle that is taken up under another identity changes
no answer about this one, then or later, except that it ends the second case. -/
theorem dropped_unnoticed (files : FileSystem) (order : ListingOrder) (systemTemp : Path)
    (acts : List Act) (name : String) (id : Identity) :
    let start := Session.start files order systemTemp
    let s := start.after acts
    (((s.registry name).deregister id).1 = true ↔
      (s.registry name).contains s.alive id ∨ start.Abandoned name id acts) ∧
    ∀ slot registry settings saved storage handle s',
      SessionM.takeUp slot registry settings saved storage s = .ok handle s' →
      s.held[slot]? = none → (name, id) ≠ (registry, saved.id) →
      ∀ later, (∀ a ∈ later, a.Spares slot registry saved.id) →
        let without := s.after later
        let joined := s'.after later
        let r := without.registry name
        let r' := joined.registry name
        r'.resolve joined.alive id =
          (r.resolve without.alive id).map (Session.renumber s.issued) ∧
        (∀ place, joined.LeadsTo name id place ↔ without.LeadsTo name id place) ∧
        r'.contains joined.alive id = r.contains without.alive id ∧
        r'.isRetired id = r.isRetired id ∧
        (id ∈ r'.ids joined.alive ↔ id ∈ r.ids without.alive) ∧
        (∀ slot settings saved storage, saved.id = id →
          answer (SessionM.takeUp slot name settings saved storage joined) =
            answer (SessionM.takeUp slot name settings saved storage without)) ∧
        (∀ ticket ticket', answer (SessionM.enroll name id ticket' joined) =
          answer (SessionM.enroll name id ticket without)) ∧
        ((r'.deregister id).1 = true → (r.deregister id).1 = true) ∧
        (¬start.Abandoned name id (acts ++ later) →
          (r'.deregister id).1 = (r.deregister id).1) := by
  intro start s
  have hstart : start.Orderly := Session.orderly_start files order systemTemp
  have hlingers : ∀ acts, (start.after acts).Lingers name id ↔ start.Abandoned name id acts := by
    intro acts
    have hnone : ¬start.Lingers name id := by
      rintro ⟨ticket, he, -⟩
      simp [start, Session.start, Session.entered?, Session.registry, Registry.empty] at he
    rw [Session.lingers_after hstart]
    simp [hnone]
  refine ⟨by rw [Session.deregister_answer, hlingers], ?_⟩
  intro slot registry settings saved storage handle s' htake hslot hne later hspares
    without joined r r'
  have horderly : s.Orderly := Session.orderly_after files order systemTemp acts
  have hjoined : Session.Joined slot s.issued registry saved.id without joined :=
    (horderly.joined hslot htake).after horderly hspares
  have hlookup : r'.resolve joined.alive id =
      (r.resolve without.alive id).map (Session.renumber s.issued) := hjoined.lookup? hne
  have hsome : (r'.resolve joined.alive id).isSome = (r.resolve without.alive id).isSome := by
    rw [hlookup, Option.isSome_map]
  obtain ⟨hfound, hsame⟩ := hjoined.deregister hne
  refine ⟨hlookup, hjoined.leadsTo hne, hsome, hjoined.retired name id, ?_, ?_, ?_, hfound, ?_⟩
  · rw [Registry.mem_ids, Registry.mem_ids, hsome]
  · rintro slot settings saved storage rfl
    exact SessionM.takeUp_alike hjoined.temp (hjoined.retired ..) hsome slot settings storage
  · intro ticket ticket'
    rw [SessionM.enroll_answer, SessionM.enroll_answer, hjoined.retired, hsome]
  · rw [← hlingers, Session.after_append]
    exact hsame

namespace Sample

/-- An identity that no other sample has. -/
def stranger : Identity := ⟨6#128⟩

/-- A handle is taken up and dropped. -/
def leaving : List Act := [taking "h", .drop "h"]

/-- Another handle is taken up. -/
def arriving : Act := .create "l" "" handle.settings "" stranger

end Sample

theorem dropped_unnoticed_sample : ∃ s' handle,
    SessionM.takeUp "l" "" Sample.handle.settings ⟨"", Sample.stranger, 0⟩ .unassigned
      (Sample.session.after [Sample.taking "h"]) = .ok handle s' ∧
    s'.LeadsTo "" Sample.handle.id "h" ∧
    ((s'.registry "").deregister Sample.handle.id).1 = true := by
  let s := Sample.session.after [Sample.taking "h"]
  have hempty : s.held["l"]?.isNone := by decide +kernel
  have hanswer : (answer (SessionM.takeUp "l" "" Sample.handle.settings ⟨"", Sample.stranger, 0⟩
      .unassigned s)).isOk := by decide +kernel
  have hfound : ((s.registry "").deregister Sample.handle.id).1 = true := by decide +kernel
  have hleads : s.LeadsTo "" Sample.handle.id "h" := by
    rw [Session.leadsTo_iff_tag]
    exact ⟨(0, "", Sample.handle.id), by decide +kernel, by decide +kernel⟩
  have hnever : ¬Sample.session.Abandoned "" Sample.handle.id ([Sample.taking "h"] ++ []) := by
    rintro (⟨hsome, -⟩ | hnil)
    · exact absurd hsome (by decide +kernel)
    · exact hnil
  cases htake : SessionM.takeUp "l" "" Sample.handle.settings ⟨"", Sample.stranger, 0⟩
      .unassigned s with
  | error e s' =>
    rw [htake] at hanswer
    cases hanswer
  | ok handle s' =>
    obtain ⟨-, hplace, -, -, -, -, -, -, hsame⟩ :=
      (dropped_unnoticed Sample.files .byName ⟨"/"⟩ [Sample.taking "h"] "" Sample.handle.id).2
        "l" "" Sample.handle.settings ⟨"", Sample.stranger, 0⟩ .unassigned handle s' htake
        (Option.isNone_iff_eq_none.1 hempty) (by decide) [] nofun
    exact ⟨s', handle, rfl, (hplace "h").2 hleads, (hsame hnever).trans hfound⟩

/-- The handle is gone, and yet its identity is found when it is taken out, unless another handle
was taken up before. -/
theorem dropped_noticed :
    let s := Sample.session.after Sample.leaving
    let s' := Sample.arriving.run s
    (s.registry "").resolve s.alive Sample.handle.id = none ∧
      (s'.registry "").resolve s'.alive Sample.handle.id = none ∧
      ((s.registry "").deregister Sample.handle.id).1 = true ∧
      ((s'.registry "").deregister Sample.handle.id).1 = false := by
  decide +kernel

end Depot
