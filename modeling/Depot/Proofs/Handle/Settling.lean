import Depot.Proofs.Handle.Bases

/-! How a handle comes to the base directory it works with. As long as none can be made the handle
stays as it was. The one that is made is the base directory from then on, whether or not the source
can be copied into it. -/

namespace Depot

open Work

/-- `h'` is `h`, perhaps with a base directory where `h` has none. -/
def Handle.Places (h h' : Handle) : Prop :=
  h' = h ∨ h.baseDir? = none ∧ ∃ base, h' = { h with storage := .placed base }

namespace HandleM

/-- Where no directory can be made, the temporary root may have been. -/
theorem claimBase_error {e : Failure} {s s' : Scene} (h : claimBase s = .error e s') :
    ∃ cause files, e = .files cause ∧ s' = { s with files } ∧
      files = left (FileM.mkdirAll s.handle.tempRoot s.files) := by
  unfold claimBase at h
  simp only [bind_eq_error, handle_apply, onFiles_eq_ok, reduceCtorEq, false_or] at h
  obtain ⟨_, _, hh, h⟩ := h
  cases hh
  rcases h with h | ⟨_, _, ⟨made, hmade, rfl⟩, h⟩
  · obtain ⟨cause, files, hm, rfl, rfl⟩ := onFiles_eq_error.1 h
    exact ⟨cause, files, rfl, rfl, by rw [hm]; rfl⟩
  · obtain ⟨cause, files, hclaim, rfl, rfl⟩ := onFiles_eq_error.1 h
    exact ⟨cause, files, rfl, rfl, by rw [hmade, FileM.claim_error hclaim]; rfl⟩

/-- The ways in which settling on a base directory can go. -/
inductive SettleCase (s : Scene) : EStateM.Result Failure Scene Path → Prop where
  | placed {base : Path} : s.handle.storage = .placed base → SettleCase s (.ok base s)
  | unclaimed {cause : FileError} {files : FileSystem} : s.handle.baseDir? = none →
      claimBase s = .error (.files cause) { s with files } →
      SettleCase s (.error (.files cause) { s with files })
  | claimed {base : Path} {files : FileSystem} : s.handle.storage = .unassigned →
      claimBase s = .ok base { s with files } →
      SettleCase s (.ok base { s with
        handle := { s.handle with storage := .placed base }
        files
        events := s.events ++ [.assigned s.handle.id s.handle.label base] })
  | restored {source base : Path} {made files : FileSystem} {count : Nat} :
      s.handle.storage = .restoring source → claimBase s = .ok base { s with files := made } →
      FileM.copyTree source base s.order made = .ok count files →
      SettleCase s (.ok base { s with
        handle := { s.handle with storage := .placed base }
        files
        events := s.events ++ [.restored s.handle.id source base] })
  | broken {source base : Path} {made files : FileSystem} {cause : FileError} :
      s.handle.storage = .restoring source → claimBase s = .ok base { s with files := made } →
      FileM.copyTree source base s.order made = .error cause files →
      SettleCase s (.error (.files cause) { s with
        handle := { s.handle with storage := .placed base }
        files
        events := s.events ++ [.restored s.handle.id source base] })

theorem settleCase (s : Scene) : SettleCase s (settle s) := by
  rw [settle_eq]
  cases hs : s.handle.storage with
  | placed base => exact .placed hs
  | unassigned =>
    cases hc : claimBase s with
    | error e s₁ =>
      obtain ⟨cause, files, rfl, rfl, -⟩ := claimBase_error hc
      simp only [bind_error hc]
      exact .unclaimed (by rw [Handle.baseDir?, hs]) hc
    | ok base s₁ =>
      obtain ⟨-, he⟩ := claimBase_ok hc
      rw [he] at hc
      simp only [bind_ok hc, bind_ok (putStorage_apply _ _), bind_ok (report_apply _ _)]
      exact .claimed hs hc
  | restoring source =>
    cases hc : claimBase s with
    | error e s₁ =>
      obtain ⟨cause, files, rfl, rfl, -⟩ := claimBase_error hc
      simp only [bind_error hc]
      exact .unclaimed (by rw [Handle.baseDir?, hs]) hc
    | ok base s₁ =>
      obtain ⟨-, he⟩ := claimBase_ok hc
      rw [he] at hc
      simp only [bind_ok hc, bind_ok (putStorage_apply _ _), bind_ok (report_apply _ _), bind_get]
      cases hcopy : onFiles .files (FileM.copyTree source base s.order) { s with
          handle := { s.handle with storage := .placed base }
          files := s₁.files
          events := s.events ++ [.restored s.handle.id source base] } with
      | error e s₂ =>
        obtain ⟨cause, files, hcopied, rfl, rfl⟩ := onFiles_eq_error.1 hcopy
        rw [bind_error hcopy]
        exact .broken hs hc hcopied
      | ok count s₂ =>
        obtain ⟨files, hcopied, rfl⟩ := onFiles_eq_ok.1 hcopy
        rw [bind_ok hcopy]
        exact .restored hs hc hcopied

/-- Where no directory can be made, the handle is as it was. -/
theorem settle_unclaimed {e : Failure} {s s' : Scene} (hnone : s.handle.baseDir? = none)
    (h : claimBase s = .error e s') : settle s = .error e s' ∧ s'.handle = s.handle := by
  have hcase := settleCase s
  generalize settle s = result at *
  cases hcase with
  | placed hs => simp [Handle.baseDir?, hs] at hnone
  | unclaimed _ hc =>
    rw [hc] at h
    cases h
    exact ⟨rfl, rfl⟩
  | claimed _ hc => simp [hc] at h
  | restored _ hc => simp [hc] at h
  | broken _ hc => simp [hc] at h

/-- Only the files can keep a handle from having a base directory. -/
theorem settle_error {e : Failure} {s s' : Scene} (h : settle s = .error e s') :
    ∃ cause, e = .files cause ∧ s.handle.Places s'.handle := by
  have hcase := settleCase s
  rw [h] at hcase
  cases hcase with
  | unclaimed => exact ⟨_, rfl, Or.inl rfl⟩
  | broken hs =>
    exact ⟨_, rfl, Or.inr ⟨by rw [Handle.baseDir?, hs], _, rfl⟩⟩

theorem settle_places {base : Path} {s s' : Scene} (h : settle s = .ok base s') :
    s.handle.Places s'.handle := by
  have hcase := settleCase s
  rw [h] at hcase
  cases hcase with
  | placed => exact Or.inl rfl
  | claimed hs => exact Or.inr ⟨by rw [Handle.baseDir?, hs], _, rfl⟩
  | restored hs => exact Or.inr ⟨by rw [Handle.baseDir?, hs], _, rfl⟩

/-- The ways in which taking a directory for the base directory can go. -/
inductive AdoptCase (dir : Path) (s : Scene) : EStateM.Result Failure Scene Unit → Prop where
  | refused {e : Failure} : AdoptCase dir s (.error e s)
  | placed : s.handle.storage = .unassigned → s.files.isDir dir →
      AdoptCase dir s (.ok () { s with handle := { s.handle with storage := .placed dir } })
  | restored {source : Path} {files : FileSystem} {count : Nat} :
      s.handle.storage = .restoring source → s.files.isDir dir →
      FileM.copyTree source dir s.order s.files = .ok count files →
      AdoptCase dir s (.ok () { s with
        handle := { s.handle with storage := .placed dir }
        files
        events := s.events ++ [.restoredAdopted s.handle.id source dir] })
  | broken {source : Path} {files : FileSystem} {cause : FileError} :
      s.handle.storage = .restoring source → s.files.isDir dir →
      FileM.copyTree source dir s.order s.files = .error cause files →
      AdoptCase dir s (.error (.files cause) { s with
        handle := { s.handle with storage := .placed dir }
        files
        events := s.events ++ [.restoredAdopted s.handle.id source dir] })

theorem adoptCase (dir : Path) (s : Scene) : AdoptCase dir s (setBaseDir dir s) := by
  rw [setBaseDir_eq]
  split
  · exact .refused
  next hdir =>
  split
  · exact .refused
  rw [Bool.not_eq_false] at hdir
  cases hs : s.handle.storage with
  | placed base => exact .refused
  | unassigned => exact .placed hs hdir
  | restoring source =>
    simp only [bind_ok (putStorage_apply _ _), bind_ok (report_apply _ _), bind_get]
    cases hcopy : onFiles .files (FileM.copyTree source dir s.order) { s with
        handle := { s.handle with storage := .placed dir }
        events := s.events ++ [.restoredAdopted s.handle.id source dir] } with
    | error e s₂ =>
      obtain ⟨cause, files, hcopied, rfl, rfl⟩ := onFiles_eq_error.1 hcopy
      rw [bind_error hcopy]
      exact .broken hs hdir hcopied
    | ok count s₂ =>
      obtain ⟨files, hcopied, rfl⟩ := onFiles_eq_ok.1 hcopy
      rw [bind_ok hcopy]
      exact .restored hs hdir hcopied

end HandleM

end Depot
