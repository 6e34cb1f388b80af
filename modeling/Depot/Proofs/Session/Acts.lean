import Depot.Proofs.Handle.Memory
import Depot.Proofs.Registry
import Mathlib.Logic.Relation

/-! What happens in a session, one act after another. Handles are taken up, asked and dropped,
registries are told of identities, and all the rest may change in between. Whatever an act is, it
comes to a few kinds of steps. -/

namespace Depot

open Work

/-- What can happen in a session. What is asked of a handle that is not held does not happen. -/
inductive Act where
  | create (slot registry : String) (settings : Settings) (label : String) (id : Identity)
  | restore (slot registry : String) (settings : Settings) (saved : SavedHandle) (source : Path)
  | drop (slot : String)
  /-- Enters the handle of a slot in a registry, under its own identity or another. -/
  | enroll (registry : String) (id : Identity) (slot : String)
  | retire (registry : String) (id : Identity)
  | ask (slot : String) (request : Request)
  /-- Files, what is put aside and what is reported become any. -/
  | beside (files : FileSystem) (keys : Std.ExtTreeMap String Key)
      (stores : Std.ExtTreeMap String FileStore) (events : List Event) (flushes : Nat)

namespace Act

def run : Act → Session → Session
  | create slot registry settings label id, s =>
    left (SessionM.create slot registry settings label id s)
  | restore slot registry settings saved source, s =>
    left (SessionM.restore slot registry settings saved source s)
  | drop slot, s => { s with held := s.held.erase slot }
  | enroll registry id slot, s =>
    match s.held[slot]? with
    | some held => left (SessionM.enroll registry id held.ticket s)
    | none => s
  | retire registry id, s => left (SessionM.retire registry id s)
  | ask slot request, s =>
    match s.held[slot]? with
    | some held => left (request.run slot held s)
    | none => s
  | beside files keys stores events flushes, s => { s with files, keys, stores, events, flushes }

def isEnroll : Act → Bool
  | enroll .. => true
  | _ => false

end Act

/-- The session after some acts. -/
def Session.after (s : Session) (acts : List Act) : Session := acts.foldl (fun s a => a.run s) s

@[simp] theorem Session.after_nil (s : Session) : s.after [] = s := rfl

theorem Session.after_append (s : Session) (l₁ l₂ : List Act) :
    s.after (l₁ ++ l₂) = (s.after l₁).after l₂ := List.foldl_append ..

theorem Session.registry_of_insert {s s' : Session} {name : String} {r : Registry Nat}
    (h : s'.registries = s.registries.insert name r) (name' : String) :
    s'.registry name' = if name' = name then r else s.registry name' := by
  unfold Session.registry
  rw [h, Std.ExtTreeMap.getElem?_insert]
  simp only [Std.LawfulEqOrd.compare_eq_iff_eq, @eq_comm _ name]
  split <;> rfl

theorem Session.agrees_of_insert {s s' : Session} {registry : String} {r : Registry Nat}
    {alive : Nat → Bool} (h : s'.registries = s.registries.insert registry r)
    (hr : Registry.Agrees alive alive (s.registry registry) r) (name : String) :
    Registry.Agrees alive alive (s.registry name) (s'.registry name) := by
  rw [registry_of_insert h]
  split
  · next hname =>
    rw [hname]
    exact hr
  · exact .refl _ _

/-! ## Taking a handle up -/

namespace SessionM

/-- The handle that is taken up. -/
def newcomer (settings : Settings) (layout : Layout) (saved : SavedHandle) (storage : Storage)
    (s : Session) : Handle :=
  { id := saved.id
    label := saved.label
    settings, layout
    tempRoot := settings.tempRoot.getD s.systemTemp
    lifecycle := .fresh
    storage
    nextIndex := saved.nextIndex
    names := none
    copies := none }

/-- The ways in which taking a handle up can go. -/
inductive TakeUpCase (slot registry : String) (settings : Settings) (saved : SavedHandle)
    (storage : Storage) (s : Session) : EStateM.Result Failure Session Handle → Prop where
  | invalid {fault : SettingsFault} : settings.validate = .error fault →
      TakeUpCase slot registry settings saved storage s (.error (.badSettings fault) s)
  | refused {layout : Layout} {fault : RegistryFault} {r : Registry Nat} {e : Failure}
      {events : List Event} : settings.validate = .ok layout →
      (s.registry registry).register s.alive saved.id s.issued = (.error fault, r) →
      e = (match fault with
        | .taken => .alreadyRegistered saved.id
        | .retired => .retired saved.id) →
      TakeUpCase slot registry settings saved storage s
        (.error e { s with registries := s.registries.insert registry r, events })
  | entered {layout : Layout} {r : Registry Nat} {events : List Event} :
      settings.validate = .ok layout →
      (s.registry registry).register s.alive saved.id s.issued = (.ok (), r) →
      TakeUpCase slot registry settings saved storage s
        (.ok (newcomer settings layout saved storage s) { s with
          registries := s.registries.insert registry r
          held := s.held.insert slot
            ⟨s.issued, registry, newcomer settings layout saved storage s⟩
          issued := s.issued + 1
          events })

theorem enroll_apply (registry : String) (id : Identity) (ticket : Nat) (s : Session) :
    enroll registry id ticket s =
      match (s.registry registry).register s.alive id ticket with
      | (.ok (), r) => .ok () { s with registries := s.registries.insert registry r }
      | (.error .taken, r) => .error (.alreadyRegistered id)
          { s with registries := s.registries.insert registry r }
      | (.error .retired, r) => .error (.retired id)
          { s with
            registries := s.registries.insert registry r
            events := s.events ++ [.refused id] } := by
  unfold enroll
  rw [bind_get]
  rcases (s.registry registry).register s.alive id ticket with ⟨_ | _, r⟩
  · next fault => cases fault <;> rfl
  · rfl

theorem takeUpCase (slot registry : String) (settings : Settings) (saved : SavedHandle)
    (storage : Storage) (s : Session) : TakeUpCase slot registry settings saved storage s
      (takeUp slot registry settings saved storage s) := by
  unfold takeUp
  cases hv : settings.validate with
  | error fault => exact .invalid hv
  | ok layout =>
    dsimp only
    rw [bind_get]
    have henroll := enroll_apply registry saved.id s.issued s
    rcases hr : (s.registry registry).register s.alive saved.id s.issued with ⟨fault | _, r⟩
    · rw [hr] at henroll
      cases fault with
      | taken =>
        rw [bind_error henroll]
        exact .refused hv hr rfl
      | retired =>
        rw [bind_error henroll]
        exact .refused hv hr rfl
    · rw [hr] at henroll
      rw [bind_ok henroll]
      exact .entered hv hr

/-- What taking a handle up answers: whether its identity is retired, in use or free decides. -/
theorem takeUp_answer {settings : Settings} {layout : Layout}
    (hvalid : settings.validate = .ok layout) (slot registry : String) (saved : SavedHandle)
    (storage : Storage) (s : Session) :
    answer (takeUp slot registry settings saved storage s) =
      if (s.registry registry).isRetired saved.id then .error (.retired saved.id)
      else if ((s.registry registry).resolve s.alive saved.id).isSome then
        .error (.alreadyRegistered saved.id)
      else .ok (newcomer settings layout saved storage s) := by
  have hcase := takeUpCase slot registry settings saved storage s
  have hregister := Registry.registerCase s.alive (s.registry registry) saved.id s.issued
  generalize takeUp slot registry settings saved storage s = result at hcase
  cases hcase with
  | invalid hv =>
    rw [hvalid] at hv
    cases hv
  | refused _ hr he =>
    rw [hr] at hregister
    cases hregister with
    | retired hretired => rw [if_pos hretired, answer_error, he]
    | taken hfree htaken => rw [hfree, if_neg Bool.false_ne_true, if_pos htaken, answer_error, he]
  | entered hv hr =>
    rw [hr] at hregister
    cases hregister with
    | entered hfree hnone =>
      rw [hvalid] at hv
      cases hv
      rw [hfree, hnone]
      rfl

/-- A handle that is not taken up leaves handles, files and all that registries answer. -/
theorem takeUp_error {slot registry : String} {settings : Settings} {saved : SavedHandle}
    {storage : Storage} {e : Failure} {s s' : Session}
    (h : takeUp slot registry settings saved storage s = .error e s') :
    s'.held = s.held ∧ s'.files = s.files ∧
      ∀ name, Registry.Agrees s.alive s'.alive (s.registry name) (s'.registry name) := by
  have hcase := takeUpCase slot registry settings saved storage s
  rw [h] at hcase
  cases hcase with
  | invalid => exact ⟨rfl, rfl, fun _ => .refl _ _⟩
  | refused _ hr =>
    exact ⟨rfl, rfl, Session.agrees_of_insert rfl (Registry.refused_agrees hr)⟩

end SessionM

/-! ## Who works -/

namespace Session

/-- A request, as a turn of the handle it comes to. -/
def turn (s : Session) (slot : String) (held : Held) (request : Request) : Turn :=
  ⟨request, slot, held.ticket, held.registry, s⟩

variable {s : Session} {slot : String} {held : Held}

theorem turn_before (h : s.held[slot]? = some held) (request : Request) :
    (s.turn slot held request).before held.handle = s :=
  congrArg (fun slots => { s with held := slots }) (insert_same h)

theorem turn_outcome (h : s.held[slot]? = some held) (request : Request) :
    (s.turn slot held request).outcome held.handle = request.run slot held s := by
  unfold Turn.outcome
  rw [turn_before h]
  rfl

/-- After a request all handles are held that were held before, one of them as it has become. -/
theorem held_ask {request : Request} (hheld : s.held[slot]? = some held)
    (hown : (s.turn slot held request).IsOwn held.handle) :
    (left (request.run slot held s)).held = s.held.insert slot
      { held with handle := (s.turn slot held request).next held.handle } := by
  have hback : s.held.insert slot held = s.held := insert_same hheld
  rw [← turn_outcome hheld, Turn.left_own hown, Turn.next_eq]
  dsimp only [turn, Turn.held]
  rw [hback]

/-- The handle that does what is asked of one: that one, or when it is to find an object of another,
the owner. -/
inductive Serves (s : Session) (slot : String) (held : Held) (request : Request) :
    String → Held → Request → Prop where
  | own : (s.turn slot held request).IsOwn held.handle → Serves s slot held request slot held request
  | owner {key : Key} {slot' : String} {owner : Held} : request = .fileStore key →
      key.owner ≠ held.handle.id → s.owner? slot held key = some (slot', owner) →
      Serves s slot held request slot' owner (.objectPath key)

theorem Serves.isOwn {request request' : Request} {slot' : String} {held' : Held}
    (h : Serves s slot held request slot' held' request') :
    (s.turn slot' held' request').IsOwn held'.handle := by
  cases h with
  | own h => exact h
  | owner => exact nofun

/-- The owner of a key that is not the handle's own. -/
theorem owner?_eq_some {key : Key} {slot' : String} {owner : Held} (hk : key.owner ≠ held.handle.id) :
    s.owner? slot held key = some (slot', owner) ↔
      ∃ ticket, (s.registry held.registry).resolve s.alive key.owner = some ticket ∧
        s.find? ticket = some (slot', owner) := by
  rw [owner?, if_neg hk, Option.bind_eq_some_iff]

/-- The owner of a key is held. -/
theorem owner?_held {key : Key} {slot' : String} {owner : Held} (h : s.held[slot]? = some held)
    (ho : s.owner? slot held key = some (slot', owner)) : s.held[slot']? = some owner := by
  by_cases hk : key.owner = held.handle.id
  · rw [owner?, if_pos hk] at ho
    cases ho
    exact h
  · obtain ⟨ticket, -, hf⟩ := (owner?_eq_some hk).1 ho
    exact find?_held hf

/-- What a request leaves is what it leaves of the handle that does it; nothing if there is none. -/
theorem serves (h : s.held[slot]? = some held) (request : Request) :
    left (request.run slot held s) = s ∨ ∃ slot' held' request',
      Serves s slot held request slot' held' request' ∧ s.held[slot']? = some held' ∧
        left (request.run slot held s) = left (request'.run slot' held' s) := by
  by_cases hown : (s.turn slot held request).IsOwn held.handle
  · exact Or.inr ⟨slot, held, request, .own hown, h, rfl⟩
  simp only [Turn.IsOwn, not_forall] at hown
  obtain ⟨key, hreq, hk⟩ := hown
  have hreq' : request = .fileStore key := hreq
  subst hreq'
  cases ho : s.owner? slot held key with
  | none =>
    refine Or.inl ?_
    simp only [Request.run, left_answer, SessionM.fileStore_of_unknown ho, left_error]
  | some found =>
    obtain ⟨slot', owner⟩ := found
    refine Or.inr ⟨slot', owner, .objectPath key, .owner rfl hk ho, owner?_held h ho, ?_⟩
    simp only [Request.run, left_answer, SessionM.fileStore_of_owner ho]

end Session

/-! ## Steps -/

/-- The same handle some turns later. -/
structure Held.Continues (old new : Held) : Prop where
  ticket : new.ticket = old.ticket
  registry : new.registry = old.registry
  course : ∃ turns, new.handle = old.handle.after turns

namespace Held.Continues

theorem refl (held : Held) : held.Continues held := ⟨rfl, rfl, [], rfl⟩

theorem trans {a b c : Held} (hab : a.Continues b) (hbc : b.Continues c) : a.Continues c where
  ticket := hbc.ticket.trans hab.ticket
  registry := hbc.registry.trans hab.registry
  course := by
    obtain ⟨earlier, hearlier⟩ := hab.course
    obtain ⟨later, hlater⟩ := hbc.course
    exact ⟨earlier ++ later, by rw [hlater, hearlier, a.handle.after_append]⟩

theorem same {old new : Held} (h : old.Continues new) : old.handle.Same new.handle := by
  obtain ⟨turns, hturns⟩ := h.course
  rw [hturns]
  exact old.handle.after_same turns

end Held.Continues

namespace Session

theorem slot_of_insert (slots : Std.ExtTreeMap String Held) (slot : String) (held : Held)
    (slot' : String) : (slots.insert slot held)[slot']? =
      if slot' = slot then some held else slots[slot']? := by
  rw [Std.ExtTreeMap.getElem?_insert]
  simp only [Std.LawfulEqOrd.compare_eq_iff_eq, @eq_comm _ slot]

theorem slot_of_erase (slots : Std.ExtTreeMap String Held) (slot slot' : String) :
    (slots.erase slot)[slot']? = if slot' = slot then none else slots[slot']? := by
  rw [Std.ExtTreeMap.getElem?_erase]
  simp only [Std.LawfulEqOrd.compare_eq_iff_eq, @eq_comm _ slot]

/-- What can become of handles and registries at once. `direct` says whether handles are entered in
registries other than by being taken up. -/
inductive Step (direct : Bool) (s : Session) : Session → Prop where
  | beside (files : FileSystem) (keys : Std.ExtTreeMap String Key)
      (stores : Std.ExtTreeMap String FileStore) (events : List Event) (flushes : Nat) :
      Step direct s { s with files, keys, stores, events, flushes }
  | worked {slot : String} {held : Held} (t : Turn) : s.held[slot]? = some held →
      Step direct s { s with
        held := s.held.insert slot { held with handle := t.next held.handle } }
  | dropped (slot : String) : Step direct s { s with held := s.held.erase slot }
  | retired (registry : String) (id : Identity) : Step direct s { s with
      registries := s.registries.insert registry ((s.registry registry).deregister id).2 }
  | entered (registry : String) (id : Identity) (ticket : Nat) :
      (((s.registry registry).register s.alive id ticket).1 = .ok () →
        direct = true ∧ s.alive ticket) →
      Step direct s { s with
        registries := s.registries.insert registry
          ((s.registry registry).register s.alive id ticket).2 }
  | admitted (slot : String) {registry : String} {h : Handle} : h.Admitted →
      ((s.registry registry).register s.alive h.id s.issued).1 = .ok () →
      Step direct s { s with
        registries := s.registries.insert registry
          ((s.registry registry).register s.alive h.id s.issued).2
        held := s.held.insert slot ⟨s.issued, registry, h⟩
        issued := s.issued + 1 }

/-- One step after another. -/
def Reaches (direct : Bool) : Session → Session → Prop := Relation.ReflTransGen (Step direct)

theorem Step.reaches {direct : Bool} {s s' : Session} (h : Step direct s s') :
    Reaches direct s s' := Relation.ReflTransGen.single h

theorem Reaches.refl (direct : Bool) (s : Session) : Reaches direct s s := Relation.ReflTransGen.refl

theorem Reaches.trans {direct : Bool} {a b c : Session} (hab : Reaches direct a b)
    (hbc : Reaches direct b c) : Reaches direct a c := Relation.ReflTransGen.trans hab hbc

/-- What each step keeps, all of them keep. -/
theorem Reaches.keeps {direct : Bool} {P : Session → Prop}
    (hstep : ∀ {s s'}, Step direct s s' → P s → P s') {s s' : Session} (h : Reaches direct s s')
    (hs : P s) : P s' := by
  induction h with
  | refl => exact hs
  | tail _ hlast ih => exact hstep hlast ih

variable {direct : Bool} {s : Session}

theorem reaches_takeUp (direct : Bool) (slot registry : String) (settings : Settings)
    (saved : SavedHandle) (storage : Storage) (s : Session) :
    Reaches direct s (left (SessionM.takeUp slot registry settings saved storage s)) := by
  have hcase := SessionM.takeUpCase slot registry settings saved storage s
  generalize SessionM.takeUp slot registry settings saved storage s = result at hcase
  cases hcase with
  | invalid => exact .refl _ _
  | @refused layout fault r e events _ hr =>
    have hstep : Step direct s _ := .entered registry saved.id s.issued (by rw [hr]; exact nofun)
    rw [hr] at hstep
    exact hstep.reaches.trans (Step.beside s.files s.keys s.stores events s.flushes).reaches
  | @entered layout r events hv hr =>
    have hnew : (SessionM.newcomer settings layout saved storage s).Admitted :=
      ⟨hv, rfl, rfl, rfl⟩
    have hok : (((s.registry registry).register s.alive
        (SessionM.newcomer settings layout saved storage s).id s.issued).1) = .ok () := by
      rw [SessionM.newcomer, hr]
    have hstep : Step direct s _ := .admitted slot hnew hok
    rw [SessionM.newcomer, hr] at hstep
    exact hstep.reaches.trans (Step.beside s.files s.keys s.stores events s.flushes).reaches

/-- A handle that does what it was asked makes a step; if that is its end, its identity is taken
out of its registry first. -/
theorem reaches_turn (direct : Bool) {slot : String} {held : Held} {request : Request}
    (h : s.held[slot]? = some held) (hown : (s.turn slot held request).IsOwn held.handle) :
    Reaches direct s (left (request.run slot held s)) := by
  have hback : s.held.insert slot held = s.held := insert_same h
  have hfirst : Reaches direct s { s with
      registries := (s.turn slot held request).registries held.handle } := by
    unfold Turn.registries
    split
    · rw [turn_before h]
      exact (Step.retired held.registry held.handle.id).reaches
    · exact .refl _ _
  have hnext := (s.turn slot held request).next_eq held.handle
  rw [← turn_outcome h, Turn.left_own hown]
  generalize left ((s.turn slot held request).work held.handle
    ((s.turn slot held request).scene held.handle)) = scene at *
  dsimp only [turn, Turn.held] at hnext hfirst ⊢
  rw [hback, ← hnext]
  refine hfirst.trans ((Step.worked _ ?_).reaches.trans
    (Step.beside scene.files s.keys s.stores scene.events scene.flushes).reaches)
  exact h

end Session

/-- Whatever happens, it happens in steps. -/
theorem Act.reaches {direct : Bool} {a : Act} (h : a.isEnroll = true → direct = true)
    (s : Session) : s.Reaches direct (a.run s) := by
  cases a with
  | create => exact Session.reaches_takeUp ..
  | restore => exact Session.reaches_takeUp ..
  | drop slot => exact (Session.Step.dropped slot).reaches
  | retire registry id => exact (Session.Step.retired registry id).reaches
  | beside => exact (Session.Step.beside ..).reaches
  | enroll registry id slot =>
    rw [run]
    split
    · next held hheld =>
      have halive : s.alive held.ticket := Session.alive_iff.2 ⟨slot, held, hheld, rfl⟩
      have hstep : s.Step direct _ := .entered registry id held.ticket fun _ => ⟨h rfl, halive⟩
      rw [SessionM.enroll_apply]
      split
      · next hr => rw [hr] at hstep; exact hstep.reaches
      · next hr => rw [hr] at hstep; exact hstep.reaches
      · next hr =>
        rw [hr] at hstep
        exact hstep.reaches.trans (Session.Step.beside s.files s.keys s.stores _ s.flushes).reaches
    · exact .refl _ _
  | ask slot request =>
    rw [run]
    split
    · next held hheld =>
      rcases Session.serves hheld request with hs | ⟨slot', held', request', hserves, hheld', hs⟩
      · rw [hs]
        exact .refl _ _
      · rw [hs]
        exact Session.reaches_turn direct hheld' hserves.isOwn
    · exact .refl _ _

theorem Session.reaches_after {direct : Bool} {acts : List Act}
    (h : ∀ a ∈ acts, a.isEnroll = true → direct = true) (s : Session) :
    s.Reaches direct (s.after acts) := by
  induction acts generalizing s with
  | nil => exact .refl _ _
  | cons a acts ih =>
    exact (Act.reaches (h a (List.mem_cons_self ..)) s).trans
      (ih (fun b hb => h b (List.mem_cons_of_mem _ hb)) (a.run s))

theorem Session.reaches_any (acts : List Act) (s : Session) : s.Reaches true (s.after acts) :=
  reaches_after (fun _ _ _ => rfl) s

end Depot
