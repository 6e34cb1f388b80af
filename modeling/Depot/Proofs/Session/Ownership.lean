import Depot.Proofs.Handle.Settling
import Depot.Proofs.Session.Identities

/-! Who owns an object, asked in four ways. Whether the owner of a key is found, whether a copy is
needed before the key is kept, whether its object can be looked up and whether its key stands as it
is all come to the same. -/

namespace Depot

open Work

/-! ## Remembered copies -/

/-- The keys of the copies that a handle remembers are its own. -/
def Handle.Owned (h : Handle) : Prop := ∀ p ∈ h.memory.entries, p.2.owner = h.id

theorem Handle.Admitted.owned {h : Handle} (hadm : h.Admitted) : h.Owned := by
  intro p hp
  simp [Handle.memory, hadm.copies, Recency.empty] at hp

namespace HandleM

/-- Whether it is made or remembered, a copy belongs to the handle that was asked for it. -/
theorem materializeCopy_owner {store : FileStore} {live : List Identity} {flush : FileM Unit}
    {key : Key} {s s' : Scene} (howned : s.handle.Owned)
    (h : materializeCopy store live flush s = .ok key s') :
    key.owner = s.handle.id ∧ s'.handle.id = s.handle.id := by
  have hcase := copyCase store live flush s
  rw [h] at hcase
  cases hcase with
  | remembered _ hu =>
    obtain ⟨hf, -⟩ := Recency.use_eq_some.1 hu
    exact ⟨howned _ (Recency.find?_mem hf), rfl⟩
  | made _ _ hreserve =>
    obtain ⟨hmint, base, hs⟩ := reserve_mints hreserve
    rw [recalled_handle] at hmint hs
    refine ⟨hmint.owner, ?_⟩
    dsimp only
    rw [hs]

end HandleM

theorem Turn.next_owned {t : Turn} {h : Handle} (howned : h.Owned) : (t.next h).Owned := by
  have he := t.effect h
  generalize t.next h = h', t.minted? h = minted?, t.breaksOff h = breaksOff at he ⊢
  cases he with
  | settled _ hm =>
    intro p hp
    rw [hm.memory] at hp
    rw [hm.same.id]
    exact howned p hp
  | unreserved _ _ _ _ hm =>
    intro p hp
    rw [hm.memory] at hp
    rw [hm.same.id]
    exact howned p hp
  | disposed =>
    intro p hp
    simp [Handle.memory, Recency.empty] at hp
  | remembered _ _ hu =>
    obtain ⟨hf, rfl⟩ := Recency.use_eq_some.1 hu
    intro p hp
    rcases Recency.mem_put hp with rfl | hp
    · exact howned _ (Recency.find?_mem hf)
    · exact howned p hp
  | copied _ _ _ _ hmint =>
    intro p hp
    rcases Recency.mem_put hp with rfl | hp
    · exact hmint.owner
    · exact howned p hp
  | _ => exact howned

theorem Handle.Owned.after {h : Handle} (howned : h.Owned) (turns : List Turn) :
    (h.after turns).Owned := by
  induction turns generalizing h with
  | nil => exact howned
  | cons t turns ih => exact ih (Turn.next_owned howned)

namespace Session

/-- Every handle that is held was taken up some turns ago. -/
def Raised (s : Session) : Prop := ∀ (slot : String) (held : Held), s.held[slot]? = some held →
  ∃ h turns, h.Admitted ∧ held.handle = Handle.after h turns

theorem raised_start (files : FileSystem) (order : ListingOrder) (systemTemp : Path) :
    (start files order systemTemp).Raised := by
  intro slot held h
  simp [start] at h

theorem Raised.step {direct : Bool} {s s' : Session} (hs : s.Raised) (h : Step direct s s') :
    s'.Raised := by
  obtain ⟨place, hheld⟩ := h.held
  intro slot new hnew
  rcases hheld hnew with ⟨old, hold, hcontinues⟩ | ⟨-, -, -, hadm, -⟩
  · obtain ⟨h, turns, hadm, hturns⟩ := hs slot old hold
    obtain ⟨later, hlater⟩ := hcontinues.course
    refine ⟨h, turns ++ later, hadm, ?_⟩
    rw [hlater, hturns, Handle.after_append]
  · exact ⟨new.handle, [], hadm, rfl⟩

theorem raised_after (files : FileSystem) (order : ListingOrder) (systemTemp : Path)
    (acts : List Act) :
    ((start files order systemTemp).after acts).Raised :=
  (reaches_any acts _).keeps (fun h hs => hs.step h) (raised_start files order systemTemp)

theorem Raised.owned {s : Session} (hs : s.Raised) {slot : String} {held : Held}
    (h : s.held[slot]? = some held) : held.handle.Owned := by
  obtain ⟨h₀, turns, hadm, hturns⟩ := hs slot held h
  rw [hturns]
  exact hadm.owned.after turns

end Session

/-! ## Looking an object up -/

namespace HandleM

/-- The path of an object of a handle with a base directory. -/
def lookUp (key : Key) : HandleM Path := do
  let dir ← locate (← needBase) key.index false
  return dir.child key.name.text

theorem objectPath_eq {key : Key} {s : Scene} (hk : key.owner = s.handle.id) :
    objectPath key s = (restore >>= fun _ => lookUp key) s := by
  unfold objectPath
  rw [bind_ok (handle_apply s), if_neg (not_not.2 hk)]
  rfl

theorem spares_lookUp (key : Key) : Spares (lookUp key) :=
  spares_needBase.bind fun _ => (spares_locate _ _ _).bind fun _ => spares_pure _

/-- Nothing is looked for among the files. -/
theorem lookUp_apply (key : Key) (s : Scene) : lookUp key s = match s.handle.baseDir? with
    | none => .error (.noDirectory s.handle.id) s
    | some base => match s.handle.layout.path base key.index with
      | .ok dir => .ok (dir.child key.name.text) s
      | .error o => .error (.overflow o) s := by
  unfold lookUp
  cases hbase : s.handle.baseDir? with
  | none => rw [bind_error (needBase_of_none hbase)]
  | some base =>
    rw [bind_ok (needBase_eq_ok.2 ⟨hbase, rfl⟩)]
    dsimp only
    cases hpath : s.handle.layout.path base key.index with
    | ok dir =>
      rw [bind_ok (locate_lookup hpath)]
      rfl
    | error o => rw [bind_error (locate_overflow hpath)]

theorem lookUp_error {key : Key} {e : Failure} {s s' : Scene} (h : lookUp key s = .error e s') :
    e = .noDirectory s.handle.id ∨ ∃ o, e = .overflow o := by
  rw [lookUp_apply] at h
  split at h
  · cases h
    exact Or.inl rfl
  split at h
  · cases h
  · next o _ =>
    cases h
    exact Or.inr ⟨o, rfl⟩

/-- A source that is waited for may be done with, and nothing else becomes of the handle. -/
def Consumes (h h' : Handle) : Prop :=
  h' = h ∨ ∃ source base, h.storage = .restoring source ∧ h' = { h with storage := .placed base }

theorem restore_left (s : Scene) : Consumes s.handle (left (restore s)).handle := by
  unfold restore
  rw [bind_ok (handle_apply s)]
  split
  · next hr =>
    rw [left_answer]
    have hcase := settleCase s
    generalize settle s = result at hcase
    cases hcase with
    | placed => exact Or.inl rfl
    | unclaimed => exact Or.inl rfl
    | claimed hs =>
      rw [Handle.isRestoring, hs] at hr
      cases hr
    | restored hs => exact Or.inr ⟨_, _, hs, rfl⟩
    | broken hs => exact Or.inr ⟨_, _, hs, rfl⟩
  · exact Or.inl rfl

theorem restore_error {e : Failure} {s s' : Scene} (h : restore s = .error e s') :
    ∃ cause, e = .files cause := by
  unfold restore at h
  rw [bind_ok (handle_apply s)] at h
  split at h
  · rcases bind_eq_error.1 h with h | ⟨_, _, -, h⟩
    · obtain ⟨cause, he, -⟩ := settle_error h
      exact ⟨cause, he⟩
    · cases h
  · cases h

/-- Looking up an object of its own changes a handle only by what it waits for. -/
theorem objectPath_left {key : Key} {s : Scene} (hk : key.owner = s.handle.id) :
    Consumes s.handle (left (objectPath key s)).handle := by
  rw [objectPath_eq hk]
  refine left_bind (P := fun s' : Scene => Consumes s.handle s'.handle) (restore_left s) fun _ s₁ h₁ => ?_
  have hkept : (left (lookUp key s₁)).handle = s₁.handle := (spares_lookUp key s₁).1
  rw [hkept]
  exact h₁

/-- A handle does not deny its own objects. -/
theorem objectPath_error {key : Key} {e : Failure} {s s' : Scene} (hk : key.owner = s.handle.id)
    (h : objectPath key s = .error e s') :
    (∃ cause, e = .files cause) ∨ (∃ id, e = .noDirectory id) ∨ ∃ o, e = .overflow o := by
  rw [objectPath_eq hk] at h
  rcases bind_eq_error.1 h with h | ⟨_, s₁, -, h⟩
  · exact Or.inl (restore_error h)
  · rcases lookUp_error h with h | h
    · exact Or.inr (Or.inl ⟨_, h⟩)
    · exact Or.inr (Or.inr h)

end HandleM

/-! ## The four ways -/

namespace Session

variable {s : Session} {slot slot' : String} {held owner : Held} {key : Key}

theorem mustCopy_iff : s.mustCopy held key ↔ key.owner ≠ held.handle.id ∧
    (s.registry held.registry).resolve s.alive key.owner = none := by
  simp [mustCopy, Registry.contains]

theorem mustCopy_of_own (hk : key.owner = held.handle.id) : s.mustCopy held key = false := by
  simp [mustCopy, hk]

theorem owner?_eq_none : s.owner? slot held key = none ↔ s.mustCopy held key := by
  rw [mustCopy_iff]
  by_cases hk : key.owner = held.handle.id
  · simp [owner?, hk]
  · rw [owner?, if_neg hk, Option.bind_eq_none_iff]
    refine ⟨fun hnone => ⟨hk, ?_⟩, fun hnone => by simp [hnone.2]⟩
    -- what a registry finds is held
    cases hr : (s.registry held.registry).resolve s.alive key.owner with
    | none => rfl
    | some ticket =>
      have halive : s.alive ticket := (Registry.resolve_eq_some.1 hr).2
      rw [alive, hnone ticket hr] at halive
      cases halive

/-- What is found under the identity in a key has that identity. -/
theorem Truthful.owner_named (ht : s.Truthful) (ho : s.owner? slot held key = some (slot', owner)) :
    key.owner = owner.handle.id := by
  by_cases hk : key.owner = held.handle.id
  · rw [owner?, if_pos hk] at ho
    cases ho
    exact hk
  · obtain ⟨ticket, hr, hf⟩ := (owner?_eq_some hk).1 ho
    obtain ⟨hentry, -⟩ := Registry.resolve_eq_some.1 hr
    have hticket : owner.ticket = ticket := by simpa using List.find?_some hf
    exact ((ht _ _ _ hentry).2 slot' owner (find?_held hf) hticket).2.symm

/-- A handle whose identity was not taken out is found under it. -/
theorem Orderly.own (hs : s.Orderly) (h : s.held[slot]? = some held)
    (hfree : (s.registry held.registry).isRetired held.handle.id = false) :
    (s.registry held.registry).resolve s.alive held.handle.id = some held.ticket :=
  Registry.resolve_eq_some.2 ⟨hs.known h hfree, alive_iff.2 ⟨slot, held, h, rfl⟩⟩

/-- Tickets that lead to handles still do when a handle has become another. -/
theorem alive_insert {s' : Session} {new : Held} (h : s.held[slot]? = some held)
    (hs : s'.held = s.held.insert slot new) (hticket : new.ticket = held.ticket) :
    s'.alive = s.alive := by
  funext ticket
  rw [Bool.eq_iff_iff, alive_iff, alive_iff, hs]
  constructor
  · rintro ⟨other, found, hother, rfl⟩
    rw [slot_of_insert] at hother
    split at hother
    · cases hother
      exact ⟨slot, held, h, hticket.symm⟩
    · exact ⟨other, found, hother, rfl⟩
  · rintro ⟨other, found, hother, rfl⟩
    by_cases heq : other = slot
    · subst heq
      rw [h] at hother
      cases hother
      exact ⟨other, new, by rw [slot_of_insert, if_pos rfl], hticket⟩
    · exact ⟨other, found, by rw [slot_of_insert, if_neg heq, hother], rfl⟩

end Session

namespace SessionM

variable {s s' : Session} {slot slot' : String} {held owner : Held} {key : Key}

/-- The ways in which a key that is kept for an object can come about. -/
inductive TranslateCase (slot : String) (held : Held) (store : FileStore) (s : Session) :
    Key → Session → Prop where
  | stands : s.mustCopy held store.key = false → TranslateCase slot held store s store.key s
  | copied {key : Key} {h : Handle} {s' : Session} : s.mustCopy held store.key →
      key.owner = held.handle.id → h.id = held.handle.id →
      s'.held = s.held.insert slot { held with handle := h } →
      s'.registries = s.registries → TranslateCase slot held store s key s'

theorem translateCase {store : FileStore} {flush : FileM Unit} (howned : held.handle.Owned)
    (h : translate slot held store flush s = .ok key s') :
    TranslateCase slot held store s key s' := by
  rw [translate_apply] at h
  split at h
  · next hcopy =>
    rw [materialize_apply] at h
    obtain ⟨scene, hmade, rfl⟩ := onHandle_eq_ok.1 h
    obtain ⟨howner, hid⟩ := HandleM.materializeCopy_owner howned hmade
    exact .copied hcopy howner hid rfl rfl
  · next hcopy =>
    cases h
    exact .stands (Bool.eq_false_iff.2 hcopy)

/-- What is looked up is looked up at the owner, who may be done with a source, and nothing else
becomes of any handle. -/
theorem fileStore_owner (ho : s.owner? slot held key = some (slot', owner))
    (hk : key.owner = owner.handle.id) :
    answer (fileStore slot held key s) =
        (answer (onHandle slot' owner (HandleM.objectPath key) s)).map (⟨key, ·⟩) ∧
      ∃ h', HandleM.Consumes owner.handle h' ∧ (left (fileStore slot held key s)).held =
        s.held.insert slot' { owner with handle := h' } ∧
      (left (fileStore slot held key s)).registries = s.registries := by
  rw [fileStore_of_owner ho, answer_answer, left_answer, onHandle_left]
  exact ⟨rfl, _, HandleM.objectPath_left hk, rfl, rfl⟩

theorem fileStore_fails {e : Failure} (ho : s.owner? slot held key = some (slot', owner))
    (hk : key.owner = owner.handle.id) (he : answer (fileStore slot held key s) = .error e) :
    (∃ cause, e = .files cause) ∨ (∃ id, e = .noDirectory id) ∨ ∃ o, e = .overflow o := by
  rw [fileStore_of_owner ho, answer_answer, onHandle_answer] at he
  cases hpath : HandleM.objectPath key ⟨owner.handle, s.files, s.order, s.events, s.flushes⟩ with
  | ok path scene =>
    rw [hpath] at he
    cases he
  | error e' scene =>
    rw [hpath] at he
    cases he
    exact HandleM.objectPath_error hk hpath

end SessionM

/-- When a copy is called for. The answer is whether the registry fails to find the owner of the
key, and a key that is kept for an object is one whose owner is found, but for keys of the handle
itself once its own identity was taken out: those are still taken to stand. -/
theorem copy_called_for (files : FileSystem) (order : ListingOrder) (systemTemp : Path)
    (acts : List Act) {slot : String} {held : Held}
    (hheld : ((Session.start files order systemTemp).after acts).held[slot]? = some held)
    (key : Key) :
    let s := (Session.start files order systemTemp).after acts
    let own := fun key : Key => key.owner = held.handle.id ∧
      (s.registry held.registry).isRetired held.handle.id
    ((s.mustCopy held key ↔ (s.registry held.registry).resolve s.alive key.owner = none) ↔
      ¬own key) ∧
    ∀ store flush key' s', SessionM.translate slot held store flush s = .ok key' s' →
      (((s'.registry held.registry).resolve s'.alive key'.owner).isSome ↔ ¬own key') := by
  intro s own
  have horderly : s.Orderly := Session.orderly_after files order systemTemp acts
  have howned := (Session.raised_after files order systemTemp acts).owned hheld
  -- the handle's own identity leads to it until it is taken out
  have hself : ∀ key : Key, key.owner = held.handle.id →
      (((s.registry held.registry).resolve s.alive key.owner).isSome ↔ ¬own key) := by
    intro key hk
    simp only [own, hk, true_and]
    cases hr : (s.registry held.registry).isRetired held.handle.id with
    | true => simp [Registry.resolve_of_retired s.alive hr]
    | false => simp [horderly.own hheld hr]
  have hanswer : ∀ key : Key, s.mustCopy held key = false →
      (((s.registry held.registry).resolve s.alive key.owner).isSome ↔ ¬own key) := by
    intro key hstands
    by_cases hk : key.owner = held.handle.id
    · exact hself key hk
    · have hfound : ((s.registry held.registry).resolve s.alive key.owner).isSome := by
        rw [Option.isSome_iff_ne_none]
        intro hnone
        rw [Session.mustCopy_iff.2 ⟨hk, hnone⟩] at hstands
        cases hstands
      simp [own, hk, hfound]
  refine ⟨?_, ?_⟩
  · by_cases hk : key.owner = held.handle.id
    · rw [Session.mustCopy_of_own hk, ← hself key hk, Option.isSome_iff_ne_none]
      simp
    · rw [Session.mustCopy_iff]
      simp [own, hk]
  · intro store flush key' s' h
    have hcase := SessionM.translateCase howned h
    cases hcase with
    | stands hstands => exact hanswer _ hstands
    | copied _ howner _ hslots hregistries =>
      have hsame : s'.registry held.registry = s.registry held.registry := by
        rw [Session.registry, hregistries, Session.registry]
      rw [hsame, Session.alive_insert hheld hslots rfl]
      exact hself key' howner

namespace Sample

/-- A handle that has made an object, whose identity is then taken out. -/
def objects : List Act := [taking "h", .ask "h" .reopen, .ask "h" (.create "0_a")]

def ended : Session := session.after (objects ++ [.ask "h" .dispose])

end Sample

theorem copy_called_for_sample : ∃ held, Sample.ended.held["h"]? = some held ∧
    (Sample.ended.mustCopy held (Sample.foreign 0) ↔
      (Sample.ended.registry held.registry).resolve Sample.ended.alive ⟨7#128⟩ = none) := by
  have hheld : (Sample.ended.held["h"]?).isSome := by decide +kernel
  obtain ⟨held, hheld⟩ := Option.isSome_iff_exists.1 hheld
  have hid : (Sample.ended.held["h"]?).map (·.handle.id) = some ⟨5#128⟩ := by decide +kernel
  rw [hheld] at hid
  refine ⟨held, hheld, ?_⟩
  refine (copy_called_for Sample.files .byName ⟨"/"⟩ _ hheld (Sample.foreign 0)).1.2 fun hown => ?_
  rw [Option.map_some, Option.some.injEq] at hid
  rw [hid] at hown
  exact absurd hown.1 (by decide)

/-- The key of an object that went with its handle is kept as it is. -/
theorem lost_key_stands : ∃ held, Sample.ended.held["h"]? = some held ∧
    (Sample.ended.registry held.registry).resolve Sample.ended.alive Sample.copy.owner = none ∧
    Sample.ended.mustCopy held Sample.copy = false ∧
    answer (SessionM.translate "h" held ⟨Sample.copy, ⟨"/fs--00000000/0/0_a"⟩⟩ (pure ())
      Sample.ended) = .ok Sample.copy := by
  have hrun : (Sample.ended.held["h"]?).map (fun held =>
      ((Sample.ended.registry held.registry).resolve Sample.ended.alive Sample.copy.owner,
        Sample.ended.mustCopy held Sample.copy,
        answer (SessionM.translate "h" held ⟨Sample.copy, ⟨"/fs--00000000/0/0_a"⟩⟩ (pure ())
          Sample.ended))) = some (none, false, .ok Sample.copy) := by decide +kernel
  obtain ⟨held, hheld, hanswers⟩ := Option.map_eq_some_iff.1 hrun
  simp only [Prod.mk.injEq] at hanswers
  exact ⟨held, hheld, hanswers⟩

/-- The four ways agree. Where handles are entered in registries only by being taken up, the owner
of a key is found if and only if no copy is called for, and if and only if its object can be looked
up without the owner being unknown. It is then looked up at the owner, who does not deny it; nobody
else is touched. A key that is kept for an object stands from then on. -/
theorem ownership_agrees (files : FileSystem) (order : ListingOrder) (systemTemp : Path)
    {acts : List Act} (hacts : ∀ a ∈ acts, a.isEnroll = false) {slot : String} {held : Held}
    (hheld : ((Session.start files order systemTemp).after acts).held[slot]? = some held)
    (key : Key) :
    let s := (Session.start files order systemTemp).after acts
    let result := SessionM.fileStore slot held key s
    (s.owner? slot held key = none ↔ s.mustCopy held key) ∧
    (s.mustCopy held key ↔ ∃ key', answer result = .error (.unknownOwner key')) ∧
    (s.mustCopy held key → result = .error (.unknownOwner key) s) ∧
    (∀ id key', answer result ≠ .error (.notOwner id key')) ∧
    (∀ slot' owner, s.owner? slot held key = some (slot', owner) →
      s.held[slot']? = some owner ∧ key.owner = owner.handle.id ∧
      answer result =
        (answer (SessionM.onHandle slot' owner (HandleM.objectPath key) s)).map (⟨key, ·⟩) ∧
      (∀ other ≠ slot', (left result).held[other]? = s.held[other]?) ∧
      (left result).registries = s.registries ∧
      ∃ h', (left result).held[slot']? = some { owner with handle := h' } ∧
        HandleM.Consumes owner.handle h') ∧
    ∀ store flush key' s', SessionM.translate slot held store flush s = .ok key' s' →
      ∃ held', s'.held[slot]? = some held' ∧ held'.ticket = held.ticket ∧
        s'.mustCopy held' key' = false ∧ ∀ store' flush', store'.key = key' →
          SessionM.translate slot held' store' flush' s' = .ok key' s' := by
  intro s result
  have horderly : s.Orderly := Session.orderly_after files order systemTemp acts
  have htruthful : s.Truthful := Session.truthful_after files order systemTemp hacts
  have howned := (Session.raised_after files order systemTemp acts).owned hheld
  have hunknown : s.owner? slot held key = none → result = .error (.unknownOwner key) s :=
    SessionM.fileStore_of_unknown
  have hfails : ∀ e, answer result = .error e → s.owner? slot held key ≠ none →
      (∃ cause, e = .files cause) ∨ (∃ id, e = .noDirectory id) ∨ ∃ o, e = .overflow o := by
    intro e he hsome
    obtain ⟨⟨slot', owner⟩, ho⟩ := Option.ne_none_iff_exists'.1 hsome
    exact SessionM.fileStore_fails ho (htruthful.owner_named ho) he
  have hnone : s.owner? slot held key = none ↔ s.mustCopy held key := Session.owner?_eq_none
  refine ⟨hnone, ?_, ?_, ?_, ?_, ?_⟩
  · rw [← hnone]
    refine ⟨fun hlost => ⟨key, by rw [hunknown hlost, answer_error]⟩, ?_⟩
    rintro ⟨key', he⟩
    by_contra hsome
    rcases hfails _ he hsome with ⟨_, h⟩ | ⟨_, h⟩ | ⟨_, h⟩ <;> cases h
  · exact fun hcopy => hunknown (hnone.2 hcopy)
  · intro id key' he
    by_cases hlost : s.owner? slot held key = none
    · rw [hunknown hlost] at he
      cases he
    · rcases hfails _ he hlost with ⟨_, h⟩ | ⟨_, h⟩ | ⟨_, h⟩ <;> cases h
  · intro slot' owner ho
    have hk := htruthful.owner_named ho
    obtain ⟨hanswer, h', hconsumes, hslots, hregistries⟩ := SessionM.fileStore_owner ho hk
    refine ⟨Session.owner?_held hheld ho, hk, hanswer, ?_, hregistries, h', ?_, hconsumes⟩
    · intro other hother
      rw [hslots, Session.slot_of_insert, if_neg hother]
    · rw [hslots, Session.slot_of_insert, if_pos rfl]
  · intro store flush key' s' h
    have hcase := SessionM.translateCase howned h
    have hlater : ∃ held', s'.held[slot]? = some held' ∧ held'.ticket = held.ticket ∧
        s'.mustCopy held' key' = false := by
      cases hcase with
      | stands hstands => exact ⟨held, hheld, rfl, hstands⟩
      | @copied _ h' _ _ howner hid hslots =>
        refine ⟨{ held with handle := h' }, ?_, rfl, ?_⟩
        · rw [hslots, Session.slot_of_insert, if_pos rfl]
        · exact Session.mustCopy_of_own (howner.trans hid.symm)
    obtain ⟨held', hheld', hticket, hstands⟩ := hlater
    refine ⟨held', hheld', hticket, hstands, ?_⟩
    rintro store' flush' rfl
    rw [SessionM.translate_apply, hstands]
    rfl

namespace Sample

/-- Two handles of one registry, the first of which has made an object. -/
def neighbours : Session :=
  session.after (objects ++ [.create "l" "" handle.settings "" ⟨7#128⟩])

end Sample

theorem ownership_agrees_sample : ∃ held owner, Sample.neighbours.held["l"]? = some held ∧
    Sample.neighbours.owner? "l" held Sample.copy = some ("h", owner) ∧
    Sample.neighbours.mustCopy held Sample.copy = false ∧
    answer (SessionM.fileStore "l" held Sample.copy Sample.neighbours) =
      (answer (SessionM.onHandle "h" owner (HandleM.objectPath Sample.copy)
        Sample.neighbours)).map (⟨Sample.copy, ·⟩) := by
  have hfound : ((Sample.neighbours.held["l"]?).bind fun held =>
      (Sample.neighbours.owner? "l" held Sample.copy).map Prod.fst) = some "h" := by decide +kernel
  obtain ⟨held, hheld, hfound⟩ := Option.bind_eq_some_iff.1 hfound
  obtain ⟨⟨slot, owner⟩, ho, rfl⟩ := Option.map_eq_some_iff.1 hfound
  obtain ⟨hnone, -, -, -, howner, -⟩ :=
    ownership_agrees Sample.files .byName ⟨"/"⟩ (by decide) hheld Sample.copy
  have hstands : Sample.neighbours.mustCopy held Sample.copy = false := by
    rw [← Bool.not_eq_true]
    intro hcopy
    have hlost : Sample.neighbours.owner? "l" held Sample.copy = none := hnone.2 hcopy
    rw [hlost] at ho
    cases ho
  exact ⟨held, owner, hheld, ho, hstands, (howner _ owner ho).2.2.1⟩

end Depot
