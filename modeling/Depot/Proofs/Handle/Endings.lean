import Depot.Proofs.Handle.Rejections

/-! The end of a handle. A disposed handle refuses before it does anything, so whatever it is asked
for, neither the handle nor the files change any more. -/

namespace Depot

open Work

/-- Disposed of, with no names, no copies remembered, no directory and no source to wait for. -/
structure Handle.Ended (h : Handle) : Prop where
  lifecycle : h.lifecycle = .disposed
  names : h.names = none
  copies : h.copies = none
  storage : h.storage = .unassigned

/-- What is left of a handle that is disposed of. -/
def Handle.ending (h : Handle) : Handle :=
  { h with
    lifecycle := .disposed
    names := none
    copies := none
    storage := .unassigned }

namespace Handle

theorem ended_ending (h : Handle) : h.ending.Ended := ⟨rfl, rfl, rfl, rfl⟩

variable {h : Handle}

theorem Ended.ending (hend : h.Ended) : h.ending = h := by
  rw [Handle.ending, ← hend.lifecycle, ← hend.names, ← hend.copies, ← hend.storage]

theorem Ended.isDisposed (hend : h.Ended) : h.isDisposed = true := by
  rw [Handle.isDisposed, hend.lifecycle]
  rfl

theorem Ended.isRestoring (hend : h.Ended) : h.isRestoring = false := by
  rw [Handle.isRestoring, hend.storage]

theorem Ended.baseDir? (hend : h.Ended) : h.baseDir? = none := by
  rw [Handle.baseDir?, hend.storage]

theorem Ended.close (hend : h.Ended) : h.close = h := by
  rw [Handle.close, if_neg (by simp [hend.lifecycle]), ← hend.names]

end Handle

namespace HandleM

variable {α : Type} {s : Scene}

/-- Work that is not done for disposed handles. -/
theorem refused (hend : s.handle.Ended) (m : HandleM α) :
    (refuseDisposed >>= fun _ => m) s = .error (.closed s.handle.id s.handle.label) s :=
  bind_error (refuseDisposed_eq_error.2 ⟨hend.isDisposed, rfl, rfl⟩)

theorem setBaseDir_ended (hend : s.handle.Ended) (dir : Path) : setBaseDir dir s =
    .error (if s.files.isDir dir then .closed s.handle.id s.handle.label
      else .missingDirectory s.handle.id dir) s := by
  rw [setBaseDir_eq, if_pos hend.isDisposed]
  cases s.files.isDir dir <;> rfl

theorem newObject_ended (hend : s.handle.Ended) (name : String) (loop? : Option LoopContext) :
    newObject name loop? s = .error (match nameFault? name with
      | some fault => .badName ⟨name, fault⟩
      | none => .closed s.handle.id s.handle.label) s := by
  apply newObject_refused
  rw [Handle.refusal?, hend.names]
  cases nameFault? name <;> rfl

theorem restore_idle (h : s.handle.isRestoring = false) : restore s = .ok () s := by
  unfold restore
  rw [bind_ok (handle_apply s), h]
  rfl

/-- No index has a place without a base directory, not even one that is out of range. -/
theorem objectPath_ended (hend : s.handle.Ended) (key : Key) : objectPath key s =
    .error (if key.owner = s.handle.id then .noDirectory s.handle.id
      else .notOwner s.handle.id key) s := by
  split
  · next hk =>
    unfold objectPath
    rw [bind_ok (handle_apply s), if_neg (not_not.2 hk)]
    exact (bind_ok (restore_idle hend.isRestoring)).trans
      (bind_error (needBase_of_none hend.baseDir?))
  · next hk => exact objectPath_of_foreign hk

end HandleM

/-- There is nothing left to dispose of, and that is reported. -/
theorem Scene.dispose_ended {s : Scene} (hend : s.handle.Ended) (found : Bool) : s.dispose found =
    (.noDirectory, s.report (.disposed s.handle.id found .noDirectory)) := by
  have hsame : s.handle.ending = s.handle := hend.ending
  unfold dispose
  rw [hend.storage]
  dsimp only [Scene.report]
  rw [← Handle.ending, hsame]

/-! ## Turns -/

/-- What a disposed handle answers to a request that comes to itself. -/
def Request.lastAnswer (held : Held) (s : Session) : Request → Except Failure Reply
  | .close => .ok .done
  | .dispose => .ok (.disposal .noDirectory)
  | .setBaseDir dir =>
    .error (if s.files.isDir dir then .closed held.handle.id held.handle.label
      else .missingDirectory held.handle.id dir)
  | .create name | .createInLoop name _ =>
    .error (match nameFault? name with
      | some fault => .badName ⟨name, fault⟩
      | none => .closed held.handle.id held.handle.label)
  | .objectPath key =>
    .error (if key.owner = held.handle.id then .noDirectory held.handle.id
      else .notOwner held.handle.id key)
  | .fileStore _ => .error (.noDirectory held.handle.id)
  | .translate store _ =>
    if s.mustCopy held store.key then .error (.closed held.handle.id held.handle.label)
    else .ok (.key store.key)
  | .reopen | .ensureRestored | .shardDir .. | .materialize .. =>
    .error (.closed held.handle.id held.handle.label)

namespace Turn

/-- Work that leaves everything as it is leaves the session as it is. -/
theorem left_idle {t : Turn} {h : Handle} (hown : t.IsOwn h) (hlast : t.request ≠ .dispose)
    (hidle : left (t.work h (t.scene h)) = t.scene h) : left (t.outcome h) = t.before h := by
  have hback := Session.insert_same (t.before_slot h)
  have hregistries : t.registries h = t.session.registries := by
    unfold registries
    split
    · next hr => exact absurd hr hlast
    · rfl
  simp only [before] at hback
  rw [left_own hown, hidle, hregistries]
  simp only [scene, before, hback]

variable {t : Turn} {h : Handle}

/-- All that a disposed handle does is answer. -/
theorem work_ended (hend : h.Ended) (hown : t.IsOwn h) (hlast : t.request ≠ .dispose) :
    answer (t.work h (t.scene h)) = t.request.lastAnswer (t.held h) (t.before h) ∧
      left (t.work h (t.scene h)) = t.scene h := by
  have hend' : (t.scene h).handle.Ended := hend
  have hanswer : ∀ {α : Type} {m : HandleM α} {f : α → Reply} {e : Failure},
      m (t.scene h) = .error e (t.scene h) →
        answer ((do return f (← m) : HandleM Reply) (t.scene h)) = .error e ∧
          left ((do return f (← m) : HandleM Reply) (t.scene h)) = t.scene h := by
    intro α m f e hm
    rw [bind_error hm]
    exact ⟨rfl, rfl⟩
  unfold work Request.lastAnswer
  cases hr : t.request with
  | reopen => exact hanswer (f := fun _ => .done) (HandleM.refused hend' _)
  | close =>
    have hclose : HandleM.update Handle.close (t.scene h) = .ok () (t.scene h) := by
      rw [HandleM.update_apply, scene, hend.close]
    dsimp only
    rw [bind_ok hclose]
    exact ⟨rfl, rfl⟩
  | setBaseDir dir => exact hanswer (f := fun _ => .done) (HandleM.setBaseDir_ended hend' dir)
  | ensureRestored => exact hanswer (f := fun _ => .done) (HandleM.refused hend' _)
  | shardDir index fill => exact hanswer (HandleM.refused hend' _)
  | objectPath key => exact hanswer (HandleM.objectPath_ended hend' key)
  | fileStore key =>
    have hk := hown key hr
    have hpath := HandleM.objectPath_ended hend' key
    have hk' : key.owner = (t.scene h).handle.id := hk
    rw [if_pos hk'] at hpath
    dsimp only
    rw [if_pos hk]
    exact hanswer (f := fun path => .store ⟨key, path⟩) hpath
  | create name => exact hanswer (HandleM.newObject_ended hend' name none)
  | createInLoop name loop => exact hanswer (HandleM.newObject_ended hend' name (some loop))
  | materialize store flush => exact hanswer (HandleM.refused hend' _)
  | translate store flush =>
    dsimp only
    split
    · exact hanswer (HandleM.refused hend' _)
    · exact ⟨rfl, rfl⟩
  | dispose => exact absurd hr hlast

theorem next_dispose (h : Handle) (hr : t.request = .dispose) : t.next h = h.ending := by
  rw [next_eq, work, hr]
  exact Scene.dispose_handle (t.scene h) _

theorem next_ended (t : Turn) (hend : h.Ended) : t.next h = h := by
  by_cases hlast : t.request = .dispose
  · rw [next_dispose h hlast, hend.ending]
  by_cases hown : t.IsOwn h
  · rw [next_eq, (work_ended hend hown hlast).2]
    rfl
  · simp only [IsOwn, not_forall] at hown
    obtain ⟨key, hr, hk⟩ := hown
    simp only [next_eq, work, hr, if_neg hk]
    rfl

end Turn

/-- There is no way on from the end. -/
theorem Handle.after_ended {h : Handle} (hend : h.Ended) (turns : List Turn) :
    h.after turns = h := by
  induction turns with
  | nil => rfl
  | cons t turns ih => rw [after_cons, t.next_ended hend, ih]

end Depot
