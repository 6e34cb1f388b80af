import Depot.Proofs.Handle.Endings
import Depot.Proofs.Session.Ownership

/-! What comes after disposal. The handle stays as it was left and its identity stays retired, in
any session and for as long as the handle is held. All that can come of a request is that another
handle, asked for an object of its own, restores what it has been waiting for. -/

namespace Depot

open Work

/-! ## Requests to the handle itself -/

namespace Session

variable {s : Session} {slot : String} {held : Held}

/-- A registry in which an identity is retired is one of the session's. -/
theorem registry_known {name : String} {id : Identity} (h : (s.registry name).isRetired id) :
    s.registries[name]? = some (s.registry name) := by
  cases hr : s.registries[name]? with
  | some r => rw [registry, hr, Option.getD_some]
  | none =>
    rw [registry, hr] at h
    simp [Registry.empty, Registry.isRetired] at h

theorem run_ended (hheld : s.held[slot]? = some held) (hend : held.handle.Ended)
    {request : Request} (hown : (s.turn slot held request).IsOwn held.handle)
    (hlast : request ≠ .dispose) : answer (request.run slot held s) = request.lastAnswer held s ∧
      left (request.run slot held s) = s := by
  obtain ⟨hanswer, hidle⟩ := Turn.work_ended hend hown hlast
  rw [← turn_outcome hheld, Turn.answer_eq hown, Turn.left_idle hown hlast hidle, hanswer,
    turn_before hheld]
  exact ⟨rfl, rfl⟩

/-- Disposing of a handle again is reported, and that is all. -/
theorem ending_dispose (hheld : s.held[slot]? = some held) (hend : held.handle.Ended)
    (hretired : (s.registry held.registry).isRetired held.handle.id) :
    SessionM.dispose slot held s = .ok .noDirectory { s with
      events := s.events ++ [.disposed held.handle.id false .noDirectory] } := by
  have hregistries : s.registries.insert held.registry (s.registry held.registry) =
      s.registries := insert_same (registry_known hretired)
  have hslots : s.held.insert slot held = s.held := insert_same hheld
  have hend' : (Scene.mk held.handle s.files s.order s.events s.flushes).handle.Ended := hend
  rw [SessionM.dispose_apply, Registry.deregister_of_retired hretired, hregistries]
  simp only [SessionM.onHandle, Scene.dispose_ended hend', Scene.report, hslots]

theorem dispose_again (hheld : s.held[slot]? = some held) (hend : held.handle.Ended)
    (hretired : (s.registry held.registry).isRetired held.handle.id) :
    Request.dispose.run slot held s = .ok (.disposal .noDirectory) { s with
      events := s.events ++ [.disposed held.handle.id false .noDirectory] } :=
  bind_ok (ending_dispose hheld hend hretired)

end Session

/-! ## Requests that another handle answers -/

namespace HandleM

theorem left_lookUp (key : Key) (s : Scene) : left (lookUp key s) = s := by
  rw [lookUp_apply]
  split
  · rfl
  · split <;> rfl

/-- All that looking an object up can do is to restore its owner. -/
theorem left_objectPath (key : Key) (s : Scene) : left (objectPath key s) = s ∨
    s.handle.isRestoring ∧ key.owner = s.handle.id ∧ left (objectPath key s) = left (restore s) := by
  by_cases hk : key.owner = s.handle.id
  · have hleft : left (objectPath key s) = left (restore s) := by
      rw [objectPath_eq hk]
      cases hr : restore s with
      | ok u s₁ => rw [bind_ok hr, left_lookUp, left_ok]
      | error e s₁ =>
        rw [bind_error hr]
        rfl
    cases hrestoring : s.handle.isRestoring with
    | true => exact Or.inr ⟨rfl, hk, hleft⟩
    | false =>
      rw [restore_idle hrestoring] at hleft
      exact Or.inl hleft
  · rw [objectPath_of_foreign hk]
    exact Or.inl rfl

end HandleM

theorem Held.Continues.eq_of_ended {old new : Held} (h : old.Continues new)
    (hend : old.handle.Ended) : new = old := by
  obtain ⟨hticket, hregistry, turns, hturns⟩ := h
  rw [Handle.after_ended hend] at hturns
  cases old
  cases new
  cases hticket
  cases hregistry
  cases hturns
  rfl

namespace Session

variable {s : Session} {slot : String} {held : Held} {key : Key}

/-- What a handle may do to the files that is asked for an object of another. -/
theorem fileStore_files (hheld : s.held[slot]? = some held) (hk : key.owner ≠ held.handle.id) :
    let result := SessionM.fileStore slot held key s
    (left result).held[slot]? = some held ∧ (left result).registries = s.registries ∧
    ((left result).files = s.files ∨ ∃ slot' owner, s.owner? slot held key = some (slot', owner) ∧
      owner.handle.isRestoring ∧ key.owner = owner.handle.id ∧ (left result).files =
        (left (HandleM.restore ⟨owner.handle, s.files, s.order, s.events, s.flushes⟩)).files) := by
  intro result
  have hself : (left result).held[slot]? = some held := by
    have hforeign := Turn.fileStore_foreign (s.turn slot held (.fileStore key)) held.handle key hk
    rwa [turn_before hheld] at hforeign
  refine ⟨hself, ?_⟩
  cases ho : s.owner? slot held key with
  | none =>
    have hnone : result = .error (.unknownOwner key) s := SessionM.fileStore_of_unknown ho
    rw [hnone]
    exact ⟨rfl, Or.inl rfl⟩
  | some found =>
    obtain ⟨slot', owner⟩ := found
    have hleft : left result = left (SessionM.onHandle slot' owner (HandleM.objectPath key) s) := by
      rw [← left_answer _ (FileStore.mk key), ← SessionM.fileStore_of_owner ho]
    rw [hleft, SessionM.onHandle_left]
    refine ⟨rfl, ?_⟩
    rcases HandleM.left_objectPath key ⟨owner.handle, s.files, s.order, s.events, s.flushes⟩ with
      hsame | ⟨hrestoring, howner, hrestored⟩
    · rw [hsame]
      exact Or.inl rfl
    · rw [hrestored]
      exact Or.inr ⟨slot', owner, rfl, hrestoring, howner, rfl⟩

/-! ## All that follows -/

/-- The handle with the ticket of this one is this one, as long as it is held. -/
def Shows (s : Session) (held : Held) : Prop := held.ticket < s.issued ∧
  ∀ (slot : String) (held' : Held), s.held[slot]? = some held' → held'.ticket = held.ticket →
    held' = held

theorem Shows.reaches {direct : Bool} {s' : Session} (hs : s.Shows held) (hend : held.handle.Ended)
    (h : Reaches direct s s') : s'.Shows held := by
  have hfollows : s.Follows held := by
    refine ⟨hs.1, fun slot held' hheld' hticket => ?_⟩
    rw [hs.2 slot held' hheld' hticket]
    exact .refl held
  obtain ⟨hlt, hcontinues⟩ := hfollows.reaches h
  exact ⟨hlt, fun slot held' hheld' hticket =>
    (hcontinues slot held' hheld' hticket).eq_of_ended hend⟩

/-- What is left of a handle that is disposed of, and of its identity. -/
theorem Orderly.dispose (hs : s.Orderly) (hheld : s.held[slot]? = some held) :
    let gone := left (Request.dispose.run slot held s)
    gone.Shows { held with handle := held.handle.ending } ∧
      (gone.registry held.registry).isRetired held.handle.id := by
  intro gone
  have hown : (s.turn slot held .dispose).IsOwn held.handle := nofun
  have hslots : gone.held = s.held.insert slot { held with handle := held.handle.ending } := by
    rw [← Turn.next_dispose (t := s.turn slot held .dispose) held.handle rfl]
    exact held_ask hheld hown
  have hissued : gone.issued = s.issued := by
    have hleft := Turn.left_own hown
    rw [turn_outcome hheld] at hleft
    exact (congrArg Session.issued hleft).trans rfl
  refine ⟨⟨?_, ?_⟩, ?_⟩
  · have hearly := hs.early hheld
    rw [hissued]
    exact hearly
  · intro slot' held' hheld' hticket
    rw [hslots, slot_of_insert] at hheld'
    split at hheld'
    · cases hheld'
      rfl
    · next hother => exact absurd (hs.apart hheld' hheld hticket) hother
  · rw [isRetired_of_deregister (registries_ask hheld .dispose)]
    simp

end Session

/-- Disposal is final. Whatever happens in a session after a handle has been disposed of, its
identity leads nowhere, and the handle, as long as it is held, is as it was left: it refuses what
would make or place anything, has no path for any object of its own, and has nothing to dispose of.
None of this changes anything but what has been reported. An object of another handle may still be
looked up, which changes the files only by restoring that other one. -/
theorem disposal_final (files : FileSystem) (order : ListingOrder) (systemTemp : Path)
    (acts : List Act) {slot : String} {held : Held}
    (hheld : ((Session.start files order systemTemp).after acts).held[slot]? = some held)
    (later : List Act) :
    let gone := ((Session.start files order systemTemp).after acts).after [.ask slot .dispose]
    let now := gone.after later
    let last := { held with handle := held.handle.ending }
    (now.registry held.registry).isRetired held.handle.id ∧
    (now.registry held.registry).resolve now.alive held.handle.id = none ∧
    ∀ slot' held', now.held[slot']? = some held' → held'.ticket = held.ticket → held' = last ∧
      (∀ request : Request, request ≠ .dispose →
        (∀ key, request = .fileStore key → key.owner = held.handle.id) →
          answer (request.run slot' last now) = request.lastAnswer last now ∧
            left (request.run slot' last now) = now) ∧
      Request.dispose.run slot' last now = .ok (.disposal .noDirectory) { now with
        events := now.events ++ [.disposed held.handle.id false .noDirectory] } ∧
      ∀ key, key.owner ≠ held.handle.id → let result := SessionM.fileStore slot' last key now
        (left result).held[slot']? = some last ∧ (left result).registries = now.registries ∧
        ((left result).files = now.files ∨ ∃ other owner,
          now.owner? slot' last key = some (other, owner) ∧ owner.handle.isRestoring ∧
          key.owner = owner.handle.id ∧ (left result).files = (left (HandleM.restore
            ⟨owner.handle, now.files, now.order, now.events, now.flushes⟩)).files) := by
  intro gone now last
  have horderly : ((Session.start files order systemTemp).after acts).Orderly :=
    Session.orderly_after files order systemTemp acts
  have hgone : gone = left (Request.dispose.run slot held
      ((Session.start files order systemTemp).after acts)) := by
    change Act.run (.ask slot .dispose) _ = _
    rw [Act.run, hheld]
  obtain ⟨hshows, hretired⟩ := horderly.dispose hheld
  rw [← hgone] at hshows hretired
  have hend : last.handle.Ended := held.handle.ended_ending
  have hreaches : gone.Reaches true now := Session.reaches_any later gone
  have hretired' : (now.registry held.registry).isRetired held.handle.id :=
    hreaches.keeps (P := fun s => (s.registry held.registry).isRetired held.handle.id)
      (fun h hs => h.isRetired hs) hretired
  refine ⟨hretired', Registry.resolve_of_retired _ hretired', ?_⟩
  intro slot' held' hheld' hticket
  have hlast : held' = last := (hshows.reaches hend hreaches).2 slot' held' hheld' hticket
  rw [hlast] at hheld'
  refine ⟨hlast, ?_, Session.dispose_again hheld' hend hretired', ?_⟩
  · intro request hne hown
    exact Session.run_ended hheld' hend hown hne
  · intro key hk
    exact Session.fileStore_files hheld' hk

theorem disposal_final_sample : ∃ held, Sample.ended.held["h"]? = some held ∧
    answer (Request.reopen.run "h" held Sample.ended) =
      .error (.closed held.handle.id held.handle.label) ∧
    answer (Request.dispose.run "h" held Sample.ended) = .ok (.disposal .noDirectory) := by
  have hrun : ((Sample.session.after Sample.objects).held["h"]?).bind (fun held =>
      (Sample.ended.held["h"]?).map fun held' => (held.ticket, held'.ticket)) = some (0, 0) := by
    decide +kernel
  obtain ⟨held, hheld, hafter⟩ := Option.bind_eq_some_iff.1 hrun
  obtain ⟨held', hheld', htickets⟩ := Option.map_eq_some_iff.1 hafter
  rw [Prod.mk.injEq] at htickets
  have hended : Sample.ended =
      ((Session.start Sample.files .byName ⟨"/"⟩).after Sample.objects).after
        [.ask "h" .dispose] := by
    rw [Sample.ended, Sample.session, Session.after_append]
  have hfinal := disposal_final Sample.files .byName ⟨"/"⟩ Sample.objects hheld []
  simp only [Session.after_nil, ← hended] at hfinal
  obtain ⟨heq, hown, hagain, -⟩ :=
    hfinal.2.2 "h" held' hheld' (htickets.2.trans htickets.1.symm)
  rw [← heq] at hown hagain
  refine ⟨held', hheld', (hown .reopen (by simp) (by simp)).1, ?_⟩
  rw [hagain, answer_ok]

end Depot
