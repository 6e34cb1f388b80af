import Depot.Proofs.Handle.CopySteps
import Depot.Session.Ownership

/-! The life of a handle, one request after another. A request finds a session in which the handle
is held; files, registries and other handles may be any, since others change them in between. -/

namespace Depot

open Work

/-- What a handle can be asked. -/
inductive Request where
  | reopen
  | close
  | setBaseDir (dir : Path)
  | ensureRestored
  | shardDir (index : UInt64) (create : Bool)
  | objectPath (key : Key)
  | fileStore (key : Key)
  | create (name : String)
  | createInLoop (name : String) (loop : LoopContext)
  | materialize (store : FileStore) (flush : FileM Unit)
  | translate (store : FileStore) (flush : FileM Unit)
  | dispose

inductive Reply where
  | done
  | path (path : Path)
  | store (store : FileStore)
  | key (key : Key)
  | disposal (outcome : Disposal)

def Request.run (slot : String) (held : Held) : Request → SessionM Reply
  | .reopen => do SessionM.onHandle slot held HandleM.reopen; return .done
  | .close => do SessionM.onHandle slot held (HandleM.update Handle.close); return .done
  | .setBaseDir dir => do SessionM.onHandle slot held (HandleM.setBaseDir dir); return .done
  | .ensureRestored => do SessionM.onHandle slot held HandleM.ensureRestored; return .done
  | .shardDir index fill => do
    return .path (← SessionM.onHandle slot held (HandleM.shardDir index fill))
  | .objectPath key => do return .path (← SessionM.onHandle slot held (HandleM.objectPath key))
  | .fileStore key => do return .store (← SessionM.fileStore slot held key)
  | .create name => do return .key (← SessionM.onHandle slot held (HandleM.createObject name))
  | .createInLoop name loop => do
    return .key (← SessionM.onHandle slot held (HandleM.createInLoop name loop))
  | .materialize store flush => do return .key (← SessionM.materialize slot held store flush)
  | .translate store flush => do return .key (← SessionM.translate slot held store flush)
  | .dispose => do return .disposal (← SessionM.dispose slot held)

/-- A request, and the session as it finds it but for the handle itself. -/
structure Turn where
  request : Request
  slot : String
  ticket : Nat
  registry : String
  session : Session

namespace Turn

def held (t : Turn) (h : Handle) : Held := ⟨t.ticket, t.registry, h⟩

def before (t : Turn) (h : Handle) : Session :=
  { t.session with held := t.session.held.insert t.slot (t.held h) }

def outcome (t : Turn) (h : Handle) : EStateM.Result Failure Session Reply :=
  t.request.run t.slot (t.held h) (t.before h)

/-- The handle after its turn. -/
def next (t : Turn) (h : Handle) : Handle :=
  match (left (t.outcome h)).held[t.slot]? with
  | some held => held.handle
  | none => h

end Turn

/-- The handle after some turns. -/
def Handle.after (h : Handle) (turns : List Turn) : Handle := turns.foldl (fun h t => t.next h) h

theorem Handle.after_append (h : Handle) (l₁ l₂ : List Turn) :
    h.after (l₁ ++ l₂) = (h.after l₁).after l₂ := List.foldl_append ..

/-! ## What a turn comes to for the handle -/

namespace Turn

/-- The handle among the files, as the turn finds them. -/
def scene (t : Turn) (h : Handle) : Scene :=
  ⟨h, t.session.files, t.session.order, t.session.events, t.session.flushes⟩

/-- The handles that can be reached when the turn comes. -/
def live (t : Turn) (h : Handle) : List Identity :=
  ((t.before h).registry t.registry).ids (t.before h).alive

/-- The object that the turn asks a copy of, and how it is flushed. -/
def asked? (t : Turn) (h : Handle) : Option (FileStore × FileM Unit) :=
  match t.request with
  | .materialize store flush => some (store, flush)
  | .translate store flush =>
    if (t.before h).mustCopy (t.held h) store.key then some (store, flush) else none
  | _ => none

/-- What the handle does in its turn. Where an object of another handle is looked up, that handle
does the work. -/
def work (t : Turn) (h : Handle) : HandleM Reply :=
  match t.request with
  | .reopen => do HandleM.reopen; return .done
  | .close => do HandleM.update Handle.close; return .done
  | .setBaseDir dir => do HandleM.setBaseDir dir; return .done
  | .ensureRestored => do HandleM.ensureRestored; return .done
  | .shardDir index fill => do return .path (← HandleM.shardDir index fill)
  | .objectPath key => do return .path (← HandleM.objectPath key)
  | .fileStore key =>
    if key.owner = h.id then do return .store ⟨key, ← HandleM.objectPath key⟩ else return .done
  | .create name => do return .key (← HandleM.createObject name)
  | .createInLoop name loop => do return .key (← HandleM.createInLoop name loop)
  | .materialize store flush => do
    return .key (← HandleM.materializeCopy store (t.live h) flush)
  | .translate store flush =>
    if (t.before h).mustCopy (t.held h) store.key then do
      return .key (← HandleM.materializeCopy store (t.live h) flush)
    else return .key store.key
  | .dispose => fun s =>
    let (found, _) := ((t.before h).registry t.registry).deregister h.id
    let (outcome, s) := s.dispose found
    .ok (.disposal outcome) s

end Turn

namespace SessionM

/-- The slot of a handle after it has worked holds the handle as it has become. -/
theorem onHandle_held {α : Type} (slot : String) (held : Held) (m : HandleM α) (s : Session) :
    (left (onHandle slot held m s)).held[slot]? = some { held with
      handle := (left (m ⟨held.handle, s.files, s.order, s.events, s.flushes⟩)).handle } := by
  unfold onHandle
  cases m ⟨held.handle, s.files, s.order, s.events, s.flushes⟩ <;>
    exact Std.ExtTreeMap.getElem?_insert_self

theorem onHandle_answer {α : Type} (slot : String) (held : Held) (m : HandleM α) (s : Session) :
    answer (onHandle slot held m s) =
      answer (m ⟨held.handle, s.files, s.order, s.events, s.flushes⟩) := by
  unfold onHandle
  cases m ⟨held.handle, s.files, s.order, s.events, s.flushes⟩ <;> rfl

theorem onHandle_left {α : Type} (slot : String) (held : Held) (m : HandleM α) (s : Session) :
    left (onHandle slot held m s) =
      let scene := left (m ⟨held.handle, s.files, s.order, s.events, s.flushes⟩)
      { s with
        files := scene.files
        held := s.held.insert slot { held with handle := scene.handle }
        events := scene.events
        flushes := scene.flushes } := by
  unfold onHandle
  cases m ⟨held.handle, s.files, s.order, s.events, s.flushes⟩ <;> rfl

theorem onHandle_eq_ok {α : Type} {slot : String} {held : Held} {m : HandleM α} {s s' : Session}
    {a : α} : onHandle slot held m s = .ok a s' ↔
      ∃ scene, m ⟨held.handle, s.files, s.order, s.events, s.flushes⟩ = .ok a scene ∧ s' = { s with
        files := scene.files
        held := s.held.insert slot { held with handle := scene.handle }
        events := scene.events
        flushes := scene.flushes } := by
  unfold onHandle
  cases m ⟨held.handle, s.files, s.order, s.events, s.flushes⟩ <;> simp [and_assoc, eq_comm]

/-- The other slots stay as they are. -/
theorem onHandle_other {α : Type} (slot : String) (held : Held) (m : HandleM α) (s : Session)
    {slot' : String} (h : slot' ≠ slot) :
    (left (onHandle slot held m s)).held[slot']? = s.held[slot']? := by
  unfold onHandle
  cases m ⟨held.handle, s.files, s.order, s.events, s.flushes⟩ <;>
    simp [Std.ExtTreeMap.getElem?_insert, Ne.symm h]

theorem fileStore_of_unknown {slot : String} {held : Held} {key : Key} {s : Session}
    (h : s.owner? slot held key = none) :
    fileStore slot held key s = .error (.unknownOwner key) s := by
  unfold fileStore
  rw [bind_get, h]
  rfl

theorem fileStore_of_owner {slot slot' : String} {held owner : Held} {key : Key} {s : Session}
    (h : s.owner? slot held key = some (slot', owner)) : fileStore slot held key s =
      (do return ⟨key, ← onHandle slot' owner (HandleM.objectPath key)⟩ : SessionM FileStore) s := by
  unfold fileStore
  rw [bind_get, h]

theorem materialize_apply (slot : String) (held : Held) (store : FileStore) (flush : FileM Unit)
    (s : Session) : materialize slot held store flush s = onHandle slot held
      (HandleM.materializeCopy store ((s.registry held.registry).ids s.alive) flush) s := rfl

theorem translate_apply (slot : String) (held : Held) (store : FileStore) (flush : FileM Unit)
    (s : Session) : translate slot held store flush s =
      if s.mustCopy held store.key then materialize slot held store flush s
      else .ok store.key s := by
  unfold translate
  rw [bind_get]
  split <;> rfl

theorem dispose_apply (slot : String) (held : Held) (s : Session) : dispose slot held s =
    onHandle slot held
      (fun scene =>
        let (found, _) := (s.registry held.registry).deregister held.handle.id
        let (outcome, scene) := scene.dispose found
        .ok outcome scene)
      { s with
        registries := s.registries.insert held.registry
          ((s.registry held.registry).deregister held.handle.id).2 } := rfl

end SessionM

theorem Session.insert_same {α : Type} {slots : Std.ExtTreeMap String α} {slot : String} {a : α}
    (h : slots[slot]? = some a) : slots.insert slot a = slots := by
  apply Std.ExtTreeMap.ext_getElem?
  intro slot'
  rw [Std.ExtTreeMap.getElem?_insert]
  split
  · next he =>
    cases Std.LawfulEqOrd.eq_of_compare he
    exact h.symm
  · rfl

theorem Session.alive_iff {s : Session} {ticket : Nat} :
    s.alive ticket ↔
      ∃ (slot : String) (held : Held), s.held[slot]? = some held ∧ held.ticket = ticket := by
  rw [alive, find?, List.find?_isSome]
  simp only [decide_eq_true_eq, Prod.exists, Std.ExtTreeMap.mem_toList_iff_getElem?_eq_some]

theorem Session.find?_held {s : Session} {ticket : Nat} {slot : String} {held : Held}
    (h : s.find? ticket = some (slot, held)) : s.held[slot]? = some held :=
  Std.ExtTreeMap.mem_toList_iff_getElem?_eq_some.1 (List.mem_of_find?_eq_some h)

/-- A handle that is asked for the object of another refuses, and stays as it is. -/
theorem HandleM.objectPath_of_foreign {key : Key} {s : Scene} (h : key.owner ≠ s.handle.id) :
    objectPath key s = .error (.notOwner s.handle.id key) s := by
  unfold objectPath
  rw [bind_ok (handle_apply s), if_pos h]
  rfl

namespace Turn

theorem before_slot (t : Turn) (h : Handle) : (t.before h).held[t.slot]? = some (t.held h) :=
  Std.ExtTreeMap.getElem?_insert_self

/-- Looking up the object of another handle leaves this one alone, under whatever identities the
registry knows the two. -/
theorem fileStore_foreign (t : Turn) (h : Handle) (key : Key) (hk : key.owner ≠ h.id) :
    (left (SessionM.fileStore t.slot (t.held h) key (t.before h))).held[t.slot]? =
      some (t.held h) := by
  cases ho : (t.before h).owner? t.slot (t.held h) key with
  | none =>
    rw [SessionM.fileStore_of_unknown ho]
    exact t.before_slot h
  | some found =>
    obtain ⟨slot, owner⟩ := found
    rw [SessionM.fileStore_of_owner ho, left_answer]
    by_cases hslot : slot = t.slot
    · subst hslot
      -- what the registry found is this very handle
      have howner : owner = t.held h := by
        have hk' : key.owner ≠ (t.held h).handle.id := hk
        unfold Session.owner? at ho
        rw [if_neg hk'] at ho
        obtain ⟨ticket, -, hf⟩ := Option.bind_eq_some_iff.1 ho
        have hheld := Session.find?_held hf
        rw [t.before_slot h] at hheld
        exact (Option.some.inj hheld).symm
      subst howner
      rw [SessionM.onHandle_held, HandleM.objectPath_of_foreign hk]
      rfl
    · rw [SessionM.onHandle_other _ _ _ _ (Ne.symm hslot), t.before_slot h]

theorem next_of_held {t : Turn} {h h' : Handle}
    (hh : (left (t.outcome h)).held[t.slot]? = some (t.held h')) : t.next h = h' := by
  unfold next
  rw [hh]
  rfl

theorem next_eq (t : Turn) (h : Handle) : t.next h = (left (t.work h (t.scene h))).handle := by
  apply next_of_held
  unfold outcome Request.run work
  cases t.request with
  | fileStore key =>
    by_cases hk : key.owner = h.id
    · have ho : (t.before h).owner? t.slot (t.held h) key = some (t.slot, t.held h) := if_pos hk
      simp only [left_answer, if_pos hk, SessionM.fileStore_of_owner ho]
      exact SessionM.onHandle_held ..
    · simp only [left_answer, if_neg hk]
      exact t.fileStore_foreign h key hk
  | translate store flush =>
    simp only [left_answer, SessionM.translate_apply]
    split
    · rw [left_answer, SessionM.materialize_apply]
      exact SessionM.onHandle_held ..
    · exact t.before_slot h
  | dispose =>
    simp only [left_answer, SessionM.dispose_apply]
    exact SessionM.onHandle_held ..
  | materialize store flush =>
    simp only [left_answer, SessionM.materialize_apply]
    exact SessionM.onHandle_held ..
  | _ =>
    simp only [left_answer]
    exact SessionM.onHandle_held ..

/-- The turn is not about an object that another handle is to find. -/
def IsOwn (t : Turn) (h : Handle) : Prop := ∀ key, t.request = .fileStore key → key.owner = h.id

theorem owner?_of_own (t : Turn) {h : Handle} {key : Key} (hk : key.owner = h.id) :
    (t.before h).owner? t.slot (t.held h) key = some (t.slot, t.held h) := if_pos hk

/-- What a turn answers is what the handle answers. -/
theorem answer_eq {t : Turn} {h : Handle} (hown : t.IsOwn h) :
    answer (t.outcome h) = answer (t.work h (t.scene h)) := by
  unfold outcome Request.run work
  cases hreq : t.request with
  | fileStore key =>
    have hk := hown key hreq
    simp only [answer_answer, SessionM.fileStore_of_owner (t.owner?_of_own hk),
      SessionM.onHandle_answer, if_pos hk]
    change Except.map _ (Except.map _ (answer (HandleM.objectPath key (t.scene h)))) = _
    cases answer (HandleM.objectPath key (t.scene h)) <;> rfl
  | translate store flush =>
    simp only [answer_answer, SessionM.translate_apply]
    split
    · rw [answer_answer, SessionM.materialize_apply, SessionM.onHandle_answer]
      rfl
    · rfl
  | dispose =>
    simp only [answer_answer, SessionM.dispose_apply]
    rfl
  | materialize store flush =>
    simp only [answer_answer, SessionM.materialize_apply, SessionM.onHandle_answer]
    rfl
  | _ =>
    simp only [answer_answer, SessionM.onHandle_answer]
    rfl

/-- The registries after the turn. The identity of a handle that is disposed of is taken out. -/
def registries (t : Turn) (h : Handle) : Std.ExtTreeMap String (Registry Nat) :=
  match t.request with
  | .dispose => t.session.registries.insert t.registry
      (((t.before h).registry t.registry).deregister h.id).2
  | _ => t.session.registries

/-- What a turn leaves is what the handle leaves, with the handle back in its slot. -/
theorem left_own {t : Turn} {h : Handle} (hown : t.IsOwn h) : left (t.outcome h) =
    let scene := left (t.work h (t.scene h))
    { t.session with
      files := scene.files
      registries := t.registries h
      held := (t.session.held.insert t.slot (t.held h)).insert t.slot (t.held scene.handle)
      events := scene.events
      flushes := scene.flushes } := by
  unfold outcome Request.run work registries
  cases hreq : t.request with
  | fileStore key =>
    have hk := hown key hreq
    simp only [left_answer, SessionM.fileStore_of_owner (t.owner?_of_own hk), if_pos hk,
      SessionM.onHandle_left]
    rfl
  | translate store flush =>
    simp only [left_answer, SessionM.translate_apply]
    split
    · rw [left_answer, SessionM.materialize_apply, SessionM.onHandle_left]
      rfl
    · have hback := Session.insert_same (t.before_slot h)
      simp only [before] at hback
      simp only [left_ok, HandleM.pure_apply, scene, hback]
      rfl
  | dispose =>
    simp only [left_answer, SessionM.dispose_apply]
    rfl
  | materialize store flush =>
    simp only [left_answer, SessionM.materialize_apply, SessionM.onHandle_left]
    rfl
  | _ =>
    simp only [left_answer, SessionM.onHandle_left]
    rfl

/-- What a turn leaves of the files and of the requests to write out is what the handle leaves. -/
theorem left_eq {t : Turn} {h : Handle} (hown : t.IsOwn h) :
    (left (t.outcome h)).files = (left (t.work h (t.scene h))).files ∧
      (left (t.outcome h)).flushes = (left (t.work h (t.scene h))).flushes := by
  rw [left_own hown]
  exact ⟨rfl, rfl⟩

end Turn

/-! ## A handle to try things on

It has room for four objects, and remembers two copies. -/

namespace Sample

def handle : Handle where
  id := ⟨5#128⟩
  label := ""
  settings := ⟨2, 1, 2, none, 0⟩
  layout := ⟨2, 1, by decide, by decide, by decide⟩
  tempRoot := ⟨"/"⟩
  lifecycle := .fresh
  storage := .placed ⟨"/b"⟩
  nextIndex := 0
  names := none
  copies := none

/-- An object of another handle. -/
def foreign (index : UInt64) : Key := ⟨⟨7#128⟩, index, .empty, ⟨"a", by decide⟩⟩

def copy : Key := ⟨⟨5#128⟩, 0, .empty, ⟨"0_a", by decide⟩⟩

def files : FileSystem :=
  ((FileSystem.empty.add [] "a" (.file [1])).add [] "b" .dir).add ["b"] "0" .dir

def session : Session := .start files .byName ⟨"/"⟩

/-- A copy of the object is asked for. -/
def ask (index : UInt64) : Turn :=
  ⟨.materialize ⟨foreign index, ⟨"/a"⟩⟩ (pure ()), "h", 0, "", session⟩

end Sample

end Depot
