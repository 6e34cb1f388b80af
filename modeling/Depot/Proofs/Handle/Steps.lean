import Depot.Handle.Copying
import Depot.Handle.Disposal
import Depot.Proofs.Names
import Depot.Proofs.Work

/-! What each operation does to its handle. Identity, label, settings and layout never change; most
operations change nothing but the storage, and only a key that is made moves the index. -/

namespace Depot

theorem Layout.check_eq_ok {l : Layout} {index : UInt64} :
    l.check index = .ok () ↔ index ≤ l.maxIndex := by
  unfold Layout.check
  split
  · next h => simp [UInt64.not_le.2 h]
  · next h => simp [UInt64.not_lt.1 h]

theorem UsedNames.ensureUnused_eq_ok {u : UsedNames} {name : String} :
    u.ensureUnused name = .ok () ↔ name ∉ u := by
  unfold UsedNames.ensureUnused
  split <;> simp_all

theorem UsedNames.add_of_unused {u : UsedNames} {name : String} (h : name ∉ u) : u.add name =
    .ok { u with names := name :: u.names, nodup := List.nodup_cons.2 ⟨h, u.nodup⟩ } :=
  dif_neg h

/-- `h'` is `h` with its objects perhaps elsewhere. -/
def Handle.Moves (h h' : Handle) : Prop := ∃ storage, h' = { h with storage }

namespace Handle.Moves

theorem refl (h : Handle) : Moves h h := ⟨h.storage, rfl⟩

theorem trans {a b c : Handle} (hab : Moves a b) (hbc : Moves b c) : Moves a c := by
  obtain ⟨_, rfl⟩ := hab
  obtain ⟨storage, rfl⟩ := hbc
  exact ⟨storage, rfl⟩

end Handle.Moves

namespace HandleM

open Work

variable {α ε : Type}

/-! ## Single steps -/

@[simp] theorem pure_apply (a : α) (s : Scene) : (pure a : HandleM α) s = .ok a s := rfl

@[simp] theorem throw_apply (e : Failure) (s : Scene) : (throw e : HandleM α) s = .error e s := rfl

@[simp] theorem get_apply (s : Scene) : (get : HandleM Scene) s = .ok s s := rfl

@[simp] theorem modify_apply (f : Scene → Scene) (s : Scene) :
    (modify f : HandleM Unit) s = .ok () (f s) := rfl

@[simp] theorem handle_apply (s : Scene) : handle s = .ok s.handle s := rfl

@[simp] theorem update_apply (change : Handle → Handle) (s : Scene) :
    update change s = .ok () { s with handle := change s.handle } := rfl

@[simp] theorem report_apply (e : Event) (s : Scene) :
    report e s = .ok () { s with events := s.events ++ [e] } := rfl

@[simp] theorem failClosed_apply (s : Scene) :
    (failClosed : HandleM α) s = .error (.closed s.handle.id s.handle.label) s := rfl

theorem refuseDisposed_apply (s : Scene) : refuseDisposed s =
    if s.handle.isDisposed then .error (.closed s.handle.id s.handle.label) s else .ok () s := by
  unfold refuseDisposed
  rw [bind_ok (handle_apply s)]
  split <;> rfl

theorem refuseDisposed_eq_ok {s s' : Scene} {u : Unit} :
    refuseDisposed s = .ok u s' ↔ s.handle.isDisposed = false ∧ s' = s := by
  rw [refuseDisposed_apply]
  cases s.handle.isDisposed <;> simp [eq_comm]

theorem refuseDisposed_of_live {s : Scene} (h : s.handle.isDisposed = false) :
    refuseDisposed s = .ok () s := refuseDisposed_eq_ok.2 ⟨h, rfl⟩

theorem refuseDisposed_eq_error {s s' : Scene} {e : Failure} :
    refuseDisposed s = .error e s' ↔
      s.handle.isDisposed ∧ e = .closed s.handle.id s.handle.label ∧ s' = s := by
  rw [refuseDisposed_apply]
  cases s.handle.isDisposed <;> simp [eq_comm]

theorem check_eq_ok {wrap : ε → Failure} {x : Except ε α} {s s' : Scene} {a : α} :
    check wrap x s = .ok a s' ↔ x = .ok a ∧ s' = s := by
  cases x <;> simp [check, eq_comm]

theorem onFiles_eq_ok {wrap : FileError → Failure} {work : FileM α} {s s' : Scene} {a : α} :
    onFiles wrap work s = .ok a s' ↔
      ∃ files, work s.files = .ok a files ∧ s' = { s with files } := by
  unfold onFiles
  cases work s.files <;> simp [and_assoc, eq_comm]

theorem onFiles_eq_error {wrap : FileError → Failure} {work : FileM α} {s s' : Scene}
    {e : Failure} : onFiles wrap work s = .error e s' ↔
      ∃ cause files, work s.files = .error cause files ∧ e = wrap cause ∧ s' = { s with files } := by
  unfold onFiles
  cases work s.files <;> simp [and_assoc, eq_comm]

/-- What work on the files leaves of a scene. -/
theorem left_onFiles (wrap : FileError → Failure) (work : FileM α) (s : Scene) :
    left (onFiles wrap work s) = { s with files := left (work s.files) } := by
  unfold onFiles
  cases work s.files <;> rfl

/-! ## Work that leaves the handle alone -/

/-- Whatever comes of it, the handle is as before and nobody is asked to write anything out.
Directories list their names as they did. -/
def Spares (m : HandleM α) : Prop :=
  Keeps (fun s s' => s'.handle = s.handle ∧ s'.flushes = s.flushes ∧ s'.order = s.order) m

namespace Spares

variable {β : Type} {m : HandleM α} {f : α → HandleM β}

theorem bind (hm : Spares m) (hf : ∀ a, Spares (f a)) : Spares (m >>= f) :=
  Keeps.bind (fun h₁ h₂ => ⟨h₂.1.trans h₁.1, h₂.2.1.trans h₁.2.1, h₂.2.2.trans h₁.2.2⟩) hm hf

theorem handle_ok (hm : Spares m) {s s' : Scene} {a : α} (h : m s = .ok a s') :
    s'.handle = s.handle := (Keeps.ok hm h).1

end Spares

theorem spares_pure (a : α) : Spares (pure a : HandleM α) := fun _ => ⟨rfl, rfl, rfl⟩

theorem spares_throw (e : Failure) : Spares (throw e : HandleM α) := fun _ => ⟨rfl, rfl, rfl⟩

theorem spares_throw_bind {β : Type} (e : Failure) (f : α → HandleM β) :
    Spares (throw e >>= f) := fun _ => ⟨rfl, rfl, rfl⟩

theorem spares_get : Spares get := fun _ => ⟨rfl, rfl, rfl⟩

theorem spares_handle : Spares handle := fun _ => ⟨rfl, rfl, rfl⟩

theorem spares_report (e : Event) : Spares (report e) := fun _ => ⟨rfl, rfl, rfl⟩

theorem spares_check (wrap : ε → Failure) (x : Except ε α) : Spares (check wrap x) := by
  intro s
  cases x <;> exact ⟨rfl, rfl, rfl⟩

theorem spares_onFiles (wrap : FileError → Failure) (work : FileM α) :
    Spares (onFiles wrap work) := by
  intro s
  rw [left_onFiles]
  exact ⟨rfl, rfl, rfl⟩

theorem spares_claimBase : Spares claimBase :=
  spares_handle.bind fun _ => (spares_onFiles _ _).bind fun _ => spares_onFiles _ _

theorem spares_needBase : Spares needBase := by
  refine spares_handle.bind fun h => ?_
  split
  · exact spares_pure _
  · exact spares_throw _

/-- The shard directory may fail to be made; that is reported and the failure stands. -/
theorem spares_makeShard (dir : Path) : Spares (tryCatch (onFiles .files (FileM.ensureShard dir)) fun
    | .files cause => do
      report (.shardFailed dir cause)
      throw (.files cause)
    | e => throw e) := by
  intro s
  cases hf : FileM.ensureShard dir s.files with
  | ok u files =>
    rw [tryCatch_ok (onFiles_eq_ok.2 ⟨files, hf, rfl⟩)]
    exact ⟨rfl, rfl, rfl⟩
  | error cause files =>
    rw [tryCatch_error (onFiles_eq_error.2 ⟨cause, files, hf, rfl, rfl⟩)]
    exact ⟨rfl, rfl, rfl⟩

theorem spares_locate (base : Path) (index : UInt64) (create : Bool) :
    Spares (locate base index create) := by
  refine spares_handle.bind fun h => (spares_check _ _).bind fun dir => ?_
  split
  · exact (spares_makeShard dir).bind fun _ => spares_pure _
  · exact spares_pure _

/-! ## Work that may move the objects -/

/-- Whatever comes of it, nothing but the storage of the handle is other than before, and nobody is
asked to write anything out. Directories list their names as they did. -/
def Settles (m : HandleM α) : Prop :=
  Keeps (fun s s' => s.handle.Moves s'.handle ∧ s'.flushes = s.flushes ∧ s'.order = s.order) m

namespace Settles

variable {β : Type} {m : HandleM α} {f : α → HandleM β}

theorem bind (hm : Settles m) (hf : ∀ a, Settles (f a)) : Settles (m >>= f) :=
  Keeps.bind (fun h₁ h₂ => ⟨h₁.1.trans h₂.1, h₂.2.1.trans h₁.2.1, h₂.2.2.trans h₁.2.2⟩) hm hf

theorem moves_ok (hm : Settles m) {s s' : Scene} {a : α} (h : m s = .ok a s') :
    s.handle.Moves s'.handle := (Keeps.ok hm h).1

theorem moves_error (hm : Settles m) {s s' : Scene} {e : Failure} (h : m s = .error e s') :
    s.handle.Moves s'.handle := (Keeps.error hm h).1

end Settles

theorem Spares.settles {m : HandleM α} (h : Spares m) : Settles m := by
  intro s
  obtain ⟨hs, hrest⟩ : (left (m s)).handle = s.handle ∧ (left (m s)).flushes = s.flushes ∧
    (left (m s)).order = s.order := h s
  refine ⟨?_, hrest⟩
  rw [hs]
  exact Handle.Moves.refl _

theorem settles_takeStorage : Settles takeStorage := fun _ => ⟨⟨_, rfl⟩, rfl, rfl⟩

theorem settles_putStorage (storage : Storage) : Settles (putStorage storage) :=
  fun _ => ⟨⟨_, rfl⟩, rfl, rfl⟩

/-- Where there is no new base directory, the storage is put back. -/
theorem claimOr_error {storage : Storage} {e : Failure} {s s' : Scene}
    (h : claimBase s = .error e s') : tryCatch claimBase (fun e => do
      putStorage storage
      throw e) s = .error e { s' with handle := { s'.handle with storage } } :=
  tryCatch_error h _

theorem settles_claimOr (storage : Storage) : Settles (tryCatch claimBase fun e => do
    putStorage storage
    throw e) := by
  intro s
  cases hc : claimBase s with
  | ok base s₁ =>
    rw [tryCatch_ok hc]
    exact spares_claimBase.settles.ok hc
  | error e s₁ =>
    rw [claimOr_error hc]
    obtain ⟨hmoves, hrest⟩ := spares_claimBase.settles.error hc
    exact ⟨hmoves.trans ⟨_, rfl⟩, hrest⟩

theorem settles_settle : Settles settle := by
  refine spares_handle.settles.bind fun h => settles_takeStorage.bind fun storage => ?_
  split
  · exact (settles_putStorage _).bind fun _ => (spares_pure _).settles
  · refine spares_claimBase.settles.bind fun base => (settles_putStorage _).bind fun _ => ?_
    exact ((spares_report _).bind fun _ => spares_pure base).settles
  · refine (settles_claimOr _).bind fun base => (settles_putStorage _).bind fun _ => ?_
    refine (spares_report _).settles.bind fun _ => spares_get.settles.bind fun s => ?_
    exact ((spares_onFiles _ _).bind fun _ => spares_pure base).settles

theorem spares_refuseDisposed : Spares refuseDisposed := by
  intro s
  rw [refuseDisposed_apply]
  split <;> exact ⟨rfl, rfl, rfl⟩

theorem settles_restore : Settles restore := by
  refine spares_handle.settles.bind fun h => ?_
  split
  · exact settles_settle.bind fun _ => (spares_pure _).settles
  · exact (spares_pure _).settles

theorem settles_ensureRestored : Settles ensureRestored :=
  spares_refuseDisposed.settles.bind fun _ => settles_restore

theorem settles_shardDir (index : UInt64) (create : Bool) : Settles (shardDir index create) := by
  refine spares_refuseDisposed.settles.bind fun _ => ?_
  split
  · exact settles_settle.bind fun base => (spares_locate _ _ _).settles
  · exact spares_needBase.settles.bind fun base => (spares_locate _ _ _).settles

theorem settles_objectPath (key : Key) : Settles (objectPath key) := by
  refine spares_handle.settles.bind fun h => ?_
  split
  · exact (spares_throw_bind _ _).settles
  · refine settles_restore.bind fun _ => spares_needBase.settles.bind fun base => ?_
    exact ((spares_locate _ _ _).bind fun _ => spares_pure _).settles

theorem settles_setBaseDir (dir : Path) : Settles (setBaseDir dir) := by
  refine spares_get.settles.bind fun s => ?_
  split
  · exact (spares_throw_bind _ _).settles
  · refine spares_refuseDisposed.settles.bind fun _ => settles_takeStorage.bind fun storage => ?_
    split
    · exact settles_putStorage _
    · exact (settles_putStorage _).bind fun _ => (spares_throw _).settles
    · refine (settles_putStorage _).bind fun _ => (spares_report _).settles.bind fun _ => ?_
      refine spares_get.settles.bind fun s => ?_
      exact ((spares_onFiles _ _).bind fun _ => spares_pure _).settles

/-! ## The storage while it is taken out

Nothing looks at the storage between its being taken out and its being put back, so what comes of it
can be said of the storage that there was. -/

/-- `s` with its storage taken out. -/
private def taken (s : Scene) : Scene :=
  { s with handle := { s.handle with storage := .unassigned } }

private theorem takeStorage_apply (s : Scene) : takeStorage s = .ok s.handle.storage (taken s) :=
  rfl

@[simp] theorem putStorage_apply (storage : Storage) (s : Scene) :
    putStorage storage s = .ok () { s with handle := { s.handle with storage } } := rfl

/-- A base directory is made alike with the storage there and with the storage taken out. -/
private theorem claimBase_taken (s : Scene) : claimBase (taken s) =
    match claimBase s with
    | .ok base s' => .ok base (taken s')
    | .error e s' => .error e (taken s') := by
  unfold claimBase
  simp only [bind, EStateM.bind, handle_apply]
  unfold onFiles
  have hfiles : (taken s).files = s.files := rfl
  have hroot : (taken s).handle.tempRoot = s.handle.tempRoot := rfl
  rw [hfiles, hroot]
  cases FileM.mkdirAll s.handle.tempRoot s.files with
  | error e files => rfl
  | ok u files =>
    have hcandidates : (taken s).handle.candidates = s.handle.candidates := rfl
    have hstem : (taken s).handle.stem = s.handle.stem := rfl
    dsimp only
    rw [hcandidates, hstem]
    cases FileM.claim (.noFreeName s.handle.stem s.handle.tempRoot)
      (s.handle.candidates.map s.handle.tempRoot.child) files <;> rfl

/-- What settling comes to, by the storage that there is. -/
theorem settle_eq (s : Scene) : settle s =
    match s.handle.storage with
    | .placed base => .ok base s
    | .unassigned => (do
        let base ← claimBase
        putStorage (.placed base)
        report (.assigned s.handle.id s.handle.label base)
        return base) s
    | .restoring source => (do
        let base ← claimBase
        putStorage (.placed base)
        report (.restored s.handle.id source base)
        let _ ← onFiles .files (FileM.copyTree source base (← get).order)
        return base) s := by
  unfold settle
  rw [bind_ok (handle_apply s), bind_ok (takeStorage_apply s)]
  cases hs : s.handle.storage with
  | placed base =>
    have hsame : { s with handle := { s.handle with storage := .placed base } } = s := by rw [← hs]
    exact congrArg (EStateM.Result.ok base) hsame
  | unassigned =>
    have hsame : taken s = s := by rw [taken, ← hs]
    simp only [hsame]
  | restoring source =>
    have htaken := claimBase_taken s
    cases hc : claimBase s with
    | error e s₁ =>
      have hspared := spares_claimBase.error hc
      rw [hc] at htaken
      -- What is put back is the storage that was taken out.
      have hback :
          { taken s₁ with handle := { (taken s₁).handle with storage := .restoring source } }
            = s₁ := by
        have h₁ : s₁.handle.storage = .restoring source := by rw [hspared.1, hs]
        simp only [taken, ← h₁]
      dsimp only at htaken ⊢
      rw [bind_error hc, bind_error (claimOr_error htaken), hback]
    | ok base s₁ =>
      rw [hc] at htaken
      dsimp only at htaken ⊢
      rw [bind_ok hc, bind_ok (tryCatch_ok htaken _)]
      rfl

/-- What taking a directory for the base directory comes to, by the storage that there is. -/
theorem setBaseDir_eq (dir : Path) (s : Scene) : setBaseDir dir s =
    if s.files.isDir dir = false then .error (.missingDirectory s.handle.id dir) s
    else if s.handle.isDisposed then .error (.closed s.handle.id s.handle.label) s
    else match s.handle.storage with
      | .unassigned => putStorage (.placed dir) s
      | .placed base => .error (.directoryAssigned s.handle.id base) s
      | .restoring source => (do
          putStorage (.placed dir)
          report (.restoredAdopted s.handle.id source dir)
          let _ ← onFiles .files (FileM.copyTree source dir (← get).order) : HandleM Unit) s := by
  unfold setBaseDir
  rw [bind_get]
  cases s.files.isDir dir with
  | false => rfl
  | true =>
    simp only [Bool.not_true, Bool.false_eq_true, ↓reduceIte, reduceCtorEq]
    cases hd : s.handle.isDisposed with
    | true => rw [bind_error (refuseDisposed_eq_error.2 ⟨hd, rfl, rfl⟩), if_pos rfl]
    | false =>
      rw [bind_ok (refuseDisposed_of_live hd), bind_ok (takeStorage_apply s),
        if_neg Bool.false_ne_true]
      cases hs : s.handle.storage with
      | placed base =>
        have hsame : { s with handle := { s.handle with storage := .placed base } } = s := by
          rw [← hs]
        exact congrArg (EStateM.Result.error _) hsame
      | unassigned => rfl
      | restoring source => rfl

/-! ## Making keys -/

theorem allocate_eq_ok {name : String} {loop : LoopContext} {key : Key} {s s' : Scene} :
    allocate name loop s = .ok key s' ↔
      s.handle.isDisposed = false ∧ Key.make s.handle.id s.handle.nextIndex loop name = .ok key ∧
      s.handle.layout.check s.handle.nextIndex = .ok () ∧ ∃ base s₁ dir s₂,
        settle s = .ok base s₁ ∧ locate base s.handle.nextIndex true s₁ = .ok dir s₂ ∧
        s' = { s₂ with handle := { s₂.handle with nextIndex := s₂.handle.nextIndex + 1 } } := by
  unfold allocate
  simp only [bind_eq_ok, refuseDisposed_eq_ok, handle_apply, check_eq_ok, update_apply, pure_apply,
    EStateM.Result.ok.injEq]
  constructor
  · rintro ⟨_, _, ⟨hd, rfl⟩, _, _, ⟨rfl, rfl⟩, _, _, ⟨hk, rfl⟩, _, _, ⟨hc, rfl⟩, base, s₁, hs, dir,
      s₂, hl, _, _, ⟨-, rfl⟩, rfl, rfl⟩
    exact ⟨hd, hk, hc, base, s₁, dir, s₂, hs, hl, rfl⟩
  · rintro ⟨hd, hk, hc, base, s₁, dir, s₂, hs, hl, rfl⟩
    exact ⟨(), s, ⟨hd, rfl⟩, s.handle, s, ⟨rfl, rfl⟩, key, s, ⟨hk, rfl⟩, (), s, ⟨hc, rfl⟩, base, s₁,
      hs, dir, s₂, hl, (), _, ⟨trivial, rfl⟩, rfl, rfl⟩

theorem allocate_error {name : String} {loop : LoopContext} {e : Failure} {s s' : Scene}
    (h : allocate name loop s = .error e s') : s.handle.Moves s'.handle := by
  unfold allocate at h
  simp only [bind_eq_error, refuseDisposed_eq_ok, handle_apply, check_eq_ok, update_apply,
    pure_apply, reduceCtorEq, false_or, and_false, exists_false, or_false] at h
  rcases h with h | ⟨_, _, ⟨-, rfl⟩, _, _, hh, h⟩
  · exact spares_refuseDisposed.settles.moves_error h
  cases hh
  rcases h with h | ⟨_, _, ⟨-, rfl⟩, h⟩
  · exact (spares_check _ _).settles.moves_error h
  rcases h with h | ⟨_, _, ⟨-, rfl⟩, h⟩
  · exact (spares_check _ _).settles.moves_error h
  rcases h with h | ⟨base, s₁, hs, h⟩
  · exact settles_settle.moves_error h
  · exact (settles_settle.moves_ok hs).trans ((spares_locate _ _ _).settles.moves_error h)

/-- Whatever comes of it, nobody is asked to write anything out, and directories list their names as
they did. -/
def Quiet (m : HandleM α) : Prop :=
  Keeps (fun s s' => s'.flushes = s.flushes ∧ s'.order = s.order) m

theorem Quiet.bind {β : Type} {m : HandleM α} {f : α → HandleM β} (hm : Quiet m)
    (hf : ∀ a, Quiet (f a)) : Quiet (m >>= f) :=
  Keeps.bind (fun h₁ h₂ => ⟨h₂.1.trans h₁.1, h₂.2.trans h₁.2⟩) hm hf

theorem Settles.quiet {m : HandleM α} (h : Settles m) : Quiet m := fun s => (h s).2

theorem quiet_allocate (name : String) (loop : LoopContext) : Quiet (allocate name loop) := by
  refine spares_refuseDisposed.settles.quiet.bind fun _ => spares_handle.settles.quiet.bind ?_
  intro h
  refine (spares_check _ _).settles.quiet.bind fun key => ?_
  refine (spares_check _ _).settles.quiet.bind fun _ => settles_settle.quiet.bind fun base => ?_
  refine (spares_locate _ _ _).settles.quiet.bind fun _ => ?_
  exact fun _ => ⟨rfl, rfl⟩

/-- Wherever the objects were before, afterwards they are in the directory that is answered. -/
theorem settle_ok {base : Path} {s s' : Scene} (h : settle s = .ok base s') :
    s'.handle = { s.handle with storage := .placed base } := by
  rw [settle_eq] at h
  cases hb : s.handle.storage with
  | placed b =>
    simp only [hb] at h
    cases h
    rw [← hb]
  | unassigned =>
    simp only [hb, bind_eq_ok, putStorage_apply, report_apply, pure_apply] at h
    obtain ⟨b, s₁, hc, _, _, hu, _, _, hr, hp⟩ := h
    cases hu; cases hr; cases hp
    have hs : s₁.handle = s.handle := spares_claimBase.handle_ok hc
    rw [← hs]
  | restoring source =>
    simp only [hb, bind_eq_ok, putStorage_apply, report_apply, get_apply, pure_apply] at h
    obtain ⟨b, s₁, hc, _, _, hu, _, _, hr, _, _, hg, _, _, hf, hp⟩ := h
    cases hu; cases hr; cases hg; cases hp
    obtain ⟨files, -, rfl⟩ := onFiles_eq_ok.1 hf
    have hs : s₁.handle = s.handle := spares_claimBase.handle_ok hc
    rw [← hs]

/-- A base directory that there is stays. -/
theorem settle_placed {base : Path} {s : Scene} (h : s.handle.storage = .placed base) :
    settle s = .ok base s := by
  rw [settle_eq, h]

/-- The key that the next object of a handle gets. -/
theorem allocate_ok {name : String} {loop : LoopContext} {key : Key} {s s' : Scene}
    (h : allocate name loop s = .ok key s') :
    key.owner = s.handle.id ∧ key.index = s.handle.nextIndex ∧ key.loop = loop ∧
      key.name.text = name ∧ s.handle.nextIndex ≤ s.handle.layout.maxIndex ∧ ∃ base,
      s'.handle = { s.handle with storage := .placed base, nextIndex := s.handle.nextIndex + 1 } := by
  obtain ⟨-, hk, hc, base, s₁, dir, s₂, hs, hl, rfl⟩ := allocate_eq_ok.1 h
  obtain ⟨ho, hi, hp, hn⟩ := Key.make_ok hk
  refine ⟨ho, hi, hp, hn, Layout.check_eq_ok.1 hc, base, ?_⟩
  have hl' : s₂.handle = s₁.handle := (spares_locate _ _ _).handle_ok hl
  rw [hl', settle_ok hs]

theorem openNames_eq_ok {names : UsedNames} {s s' : Scene} :
    openNames s = .ok names s' ↔ s.handle.names = some names ∧ s' = s := by
  unfold openNames
  rw [bind_ok (handle_apply s)]
  cases s.handle.names <;> simp [eq_comm]

theorem spares_openNames : Spares openNames := by
  refine spares_handle.bind fun h => ?_
  split
  · exact spares_pure _
  · exact fun _ => ⟨rfl, rfl, rfl⟩

/-- An open handle that has made a key puts a new name on record. -/
theorem record_apply {names : UsedNames} {name : String} (key : Key) {s : Scene}
    (hl : s.handle.names = some names) (hn : name ∉ names) : (do
      let names ← check .nameInUse ((← openNames).add name)
      update ({ · with names := some names })
      return key : HandleM Key) s = .ok key { s with
        handle := { s.handle with
          names := some { names with
            names := name :: names.names
            nodup := List.nodup_cons.2 ⟨hn, names.nodup⟩ } } } := by
  rw [bind_ok (openNames_eq_ok.2 ⟨hl, rfl⟩), UsedNames.add_of_unused hn]
  rfl

/-- A name is recorded once its key is made. It cannot be refused then: making a key records no
name. -/
theorem createObject_ok {name : String} {key : Key} {s s' : Scene}
    (h : createObject name s = .ok key s') : ∃ names names' s₁,
      s.handle.names = some names ∧ name ∉ names ∧ names.add name = .ok names' ∧
      allocate name .empty s = .ok key s₁ ∧
      s' = { s₁ with handle := { s₁.handle with names := some names' } } := by
  unfold createObject at h
  simp only [bind_eq_ok, check_eq_ok, openNames_eq_ok, update_apply, pure_apply] at h
  obtain ⟨_, _, ⟨-, rfl⟩, names, _, ⟨hn, rfl⟩, _, _, ⟨hu, rfl⟩, k, s₁, ha, names', _, ⟨hn', rfl⟩,
    added, _, ⟨hadd, rfl⟩, _, _, hup, hk⟩ := h
  cases hup
  cases hk
  obtain ⟨-, -, -, -, -, base, hs⟩ := allocate_ok ha
  rw [hs, hn] at hn'
  cases hn'
  exact ⟨names, added, _, hn, UsedNames.ensureUnused_eq_ok.1 hu, hadd, ha, rfl⟩

theorem createObject_error {name : String} {e : Failure} {s s' : Scene}
    (h : createObject name s = .error e s') : s.handle.Moves s'.handle := by
  rcases bind_eq_error.1 h with hc | ⟨_, _, hchecked, h₁⟩
  · exact (spares_check _ _).settles.moves_error hc
  obtain ⟨-, rfl⟩ := check_eq_ok.1 hchecked
  rcases bind_eq_error.1 h₁ with hc | ⟨names, _, hopen, h₂⟩
  · exact spares_openNames.settles.moves_error hc
  obtain ⟨hl, rfl⟩ := openNames_eq_ok.1 hopen
  rcases bind_eq_error.1 h₂ with hc | ⟨_, _, hunused, h₃⟩
  · exact (spares_check _ _).settles.moves_error hc
  obtain ⟨hu, rfl⟩ := check_eq_ok.1 hunused
  rcases bind_eq_error.1 h₃ with ha | ⟨key, s₁, ha, h₄⟩
  · exact allocate_error ha
  · obtain ⟨-, -, -, -, -, base, hs⟩ := allocate_ok ha
    have hl' : s₁.handle.names = some names := by rw [hs]; exact hl
    rw [record_apply key hl' (UsedNames.ensureUnused_eq_ok.1 hu)] at h₄
    cases h₄

theorem createInLoop_ok {name : String} {loop : LoopContext} {key : Key} {s s' : Scene}
    (h : createInLoop name loop s = .ok key s') :
    s.handle.isOpen ∧ allocate name loop s = .ok key s' := by
  unfold createInLoop at h
  simp only [bind_eq_ok, check_eq_ok, openNames_eq_ok] at h
  obtain ⟨_, _, ⟨-, rfl⟩, names, _, ⟨hn, rfl⟩, ha⟩ := h
  exact ⟨by simp [Handle.isOpen, hn], ha⟩

theorem createInLoop_error {name : String} {loop : LoopContext} {e : Failure} {s s' : Scene}
    (h : createInLoop name loop s = .error e s') : s.handle.Moves s'.handle := by
  unfold createInLoop at h
  simp only [bind_eq_error, check_eq_ok, openNames_eq_ok] at h
  rcases h with h | ⟨_, _, ⟨-, rfl⟩, h⟩
  · exact (spares_check _ _).settles.moves_error h
  rcases h with h | ⟨names, _, ⟨-, rfl⟩, h⟩
  · exact spares_openNames.settles.moves_error h
  · exact allocate_error h

end HandleM

end Depot
