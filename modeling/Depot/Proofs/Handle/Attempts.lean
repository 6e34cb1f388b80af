import Depot.Proofs.Handle.Settling

/-! Attempts to copy a source. Each is reported just before the copying begins, so the reports of
some work show every attempt that it makes: none, unless the handle is restoring and gets its base
directory, and then one. -/

namespace Depot

open Work

/-- The source that is about to be copied, and the base directory it is copied to. -/
def Event.attempt? : Event → Option (Path × Path)
  | .restored _ source target | .restoredAdopted _ source target => some (source, target)
  | _ => none

def Event.attempts (events : List Event) : List (Path × Path) := events.filterMap attempt?

theorem Event.attempts_append (l₁ l₂ : List Event) :
    attempts (l₁ ++ l₂) = attempts l₁ ++ attempts l₂ :=
  List.filterMap_append

/-- What a handle stores where, before and after work that attempts some copies. -/
inductive Storage.Advances : Storage → List (Path × Path) → Storage → Prop where
  | idle (storage : Storage) : Advances storage [] storage
  | assigned (base : Path) : Advances .unassigned [] (.placed base)
  | restored (source base : Path) : Advances (.restoring source) [(source, base)] (.placed base)

theorem Storage.Advances.trans {a b c : Storage} {l₁ l₂ : List (Path × Path)}
    (hab : Advances a l₁ b) (hbc : Advances b l₂ c) : Advances a (l₁ ++ l₂) c := by
  cases hab with
  | idle => exact hbc
  | assigned base =>
    cases hbc with
    | idle => exact .assigned base
  | restored source base =>
    cases hbc with
    | idle => exact .restored source base

/-- More has been reported, and the attempts among it are those that the storage tells of. -/
def Scene.Advances (s s' : Scene) : Prop :=
  ∃ new, s'.events = s.events ++ new ∧
    s.handle.storage.Advances (Event.attempts new) s'.handle.storage

namespace Scene.Advances

variable {s s' : Scene}

theorem idle (he : s'.events = s.events) (hs : s'.handle.storage = s.handle.storage) :
    s.Advances s' := by
  refine ⟨[], by rw [he, List.append_nil], ?_⟩
  rw [hs]
  exact .idle _

theorem refl (s : Scene) : s.Advances s := .idle rfl rfl

theorem trans {a b c : Scene} (hab : a.Advances b) (hbc : b.Advances c) : a.Advances c := by
  obtain ⟨new₁, he₁, hs₁⟩ := hab
  obtain ⟨new₂, he₂, hs₂⟩ := hbc
  refine ⟨new₁ ++ new₂, by rw [he₂, he₁, List.append_assoc], ?_⟩
  rw [Event.attempts_append]
  exact hs₁.trans hs₂

end Scene.Advances

namespace HandleM

variable {α β ε : Type}

/-- Whatever comes of the work, it attempts no more than the storage tells of. -/
def Advancing (m : HandleM α) : Prop := Keeps Scene.Advances m

theorem Advancing.bind {m : HandleM α} {f : α → HandleM β} (hm : Advancing m)
    (hf : ∀ a, Advancing (f a)) : Advancing (m >>= f) := Keeps.bind .trans hm hf

theorem advancing_pure (a : α) : Advancing (pure a : HandleM α) := Scene.Advances.refl

theorem advancing_throw (e : Failure) : Advancing (throw e : HandleM α) := Scene.Advances.refl

theorem advancing_handle : Advancing handle := Scene.Advances.refl

theorem advancing_check (wrap : ε → Failure) (x : Except ε α) : Advancing (check wrap x) := by
  intro s
  cases x <;> exact .refl s

theorem advancing_onFiles (wrap : FileError → Failure) (work : FileM α) :
    Advancing (onFiles wrap work) := by
  intro s
  rw [left_onFiles]
  exact .idle rfl rfl

theorem advancing_update {change : Handle → Handle} (h : ∀ h, (change h).storage = h.storage) :
    Advancing (update change) := fun s => .idle rfl (h s.handle)

theorem advancing_report {e : Event} (h : e.attempt? = none) : Advancing (report e) := by
  intro s
  refine ⟨[e], rfl, ?_⟩
  rw [Event.attempts, List.filterMap_cons_none h]
  exact .idle _

theorem advancing_refuseDisposed : Advancing refuseDisposed := by
  intro s
  rw [refuseDisposed_apply]
  split <;> exact .refl s

theorem advancing_openNames : Advancing openNames := by
  refine advancing_handle.bind fun h => ?_
  split
  · exact advancing_pure _
  · exact Scene.Advances.refl

theorem advancing_needBase : Advancing needBase := by
  refine advancing_handle.bind fun h => ?_
  split
  · exact advancing_pure _
  · exact advancing_throw _

/-! ## Where the base directory comes from -/

theorem advancing_settle : Advancing settle := by
  intro s
  have hcase := settleCase s
  generalize settle s = result at *
  cases hcase with
  | placed => exact .refl s
  | unclaimed => exact .idle rfl rfl
  | claimed hs =>
    refine ⟨_, rfl, ?_⟩
    rw [hs]
    exact .assigned _
  | restored hs =>
    refine ⟨_, rfl, ?_⟩
    rw [hs]
    exact .restored _ _
  | broken hs =>
    refine ⟨_, rfl, ?_⟩
    rw [hs]
    exact .restored _ _

theorem advancing_setBaseDir (dir : Path) : Advancing (setBaseDir dir) := by
  intro s
  have hcase := adoptCase dir s
  generalize setBaseDir dir s = result at *
  cases hcase with
  | refused => exact .refl s
  | placed hs =>
    refine ⟨[], (List.append_nil _).symm, ?_⟩
    rw [hs]
    exact .assigned dir
  | restored hs =>
    refine ⟨_, rfl, ?_⟩
    rw [hs]
    exact .restored _ _
  | broken hs =>
    refine ⟨_, rfl, ?_⟩
    rw [hs]
    exact .restored _ _

/-! ## Where objects are placed and keys made -/

theorem advancing_locate (base : Path) (index : UInt64) (create : Bool) :
    Advancing (locate base index create) := by
  refine advancing_handle.bind fun h => (advancing_check _ _).bind fun dir => ?_
  split
  · refine Advancing.bind (fun s => ?_) fun _ => advancing_pure _
    cases hf : FileM.ensureShard dir s.files with
    | ok u files =>
      rw [tryCatch_ok (onFiles_eq_ok.2 ⟨files, hf, rfl⟩)]
      exact .idle rfl rfl
    | error cause files =>
      rw [tryCatch_error (onFiles_eq_error.2 ⟨cause, files, hf, rfl, rfl⟩)]
      exact ⟨[.shardFailed dir cause], rfl, .idle _⟩
  · exact advancing_pure _

theorem advancing_restore : Advancing restore := by
  refine advancing_handle.bind fun h => ?_
  split
  · exact advancing_settle.bind fun _ => advancing_pure _
  · exact advancing_pure _

theorem advancing_ensureRestored : Advancing ensureRestored :=
  advancing_refuseDisposed.bind fun _ => advancing_restore

theorem advancing_shardDir (index : UInt64) (create : Bool) :
    Advancing (shardDir index create) := by
  refine advancing_refuseDisposed.bind fun _ => ?_
  split
  · exact advancing_settle.bind fun base => advancing_locate _ _ _
  · exact advancing_needBase.bind fun base => advancing_locate _ _ _

theorem advancing_objectPath (key : Key) : Advancing (objectPath key) := by
  refine advancing_handle.bind fun h => ?_
  split
  · exact Scene.Advances.refl
  · refine advancing_restore.bind fun _ => advancing_needBase.bind fun base => ?_
    exact (advancing_locate _ _ _).bind fun _ => advancing_pure _

theorem advancing_allocate (name : String) (loop : LoopContext) :
    Advancing (allocate name loop) := by
  refine advancing_refuseDisposed.bind fun _ => advancing_handle.bind fun h => ?_
  refine (advancing_check _ _).bind fun key => (advancing_check _ _).bind fun _ => ?_
  refine advancing_settle.bind fun base => (advancing_locate _ _ _).bind fun _ => ?_
  refine Advancing.bind ?_ fun _ => advancing_pure _
  exact advancing_update fun _ => rfl

theorem advancing_reopen : Advancing reopen :=
  advancing_refuseDisposed.bind fun _ => advancing_update fun _ => rfl

theorem advancing_close : Advancing (update Handle.close) := advancing_update fun _ => rfl

theorem advancing_createObject (name : String) : Advancing (createObject name) := by
  refine (advancing_check _ _).bind fun _ => advancing_openNames.bind fun _ => ?_
  refine (advancing_check _ _).bind fun _ => (advancing_allocate _ _).bind fun key => ?_
  refine advancing_openNames.bind fun _ => (advancing_check _ _).bind fun names => ?_
  refine Advancing.bind ?_ fun _ => advancing_pure _
  exact advancing_update fun _ => rfl

theorem advancing_createInLoop (name : String) (loop : LoopContext) :
    Advancing (createInLoop name loop) :=
  (advancing_check _ _).bind fun _ => advancing_openNames.bind fun _ => advancing_allocate _ _

/-! ## Copies of the objects of other handles -/

theorem advancing_recallCopies (foreign : Key) (live : List Identity) :
    Advancing (recallCopies foreign live) := by
  refine advancing_handle.bind fun h => ?_
  split
  · exact advancing_pure _
  · refine (advancing_report rfl).bind fun _ => (advancing_report rfl).bind fun _ => ?_
    refine Advancing.bind ?_ fun _ => advancing_pure _
    exact advancing_update fun _ => rfl

theorem advancing_copyObject (store : FileStore) (flush : FileM Unit) :
    Advancing (copyObject store flush) := by
  refine Advancing.bind (fun s => .idle rfl rfl) fun _ => ?_
  refine (advancing_onFiles _ _).bind fun _ => advancing_handle.bind fun h => ?_
  refine (advancing_allocate _ _).bind fun key => advancing_needBase.bind fun base => ?_
  refine (advancing_locate _ _ _).bind fun dir => ?_
  refine Advancing.bind Scene.Advances.refl fun _ => ?_
  exact (advancing_onFiles _ _).bind fun _ => advancing_pure _

theorem advancing_materializeCopy (store : FileStore) (live : List Identity)
    (flush : FileM Unit) : Advancing (materializeCopy store live flush) := by
  refine advancing_refuseDisposed.bind fun _ => (advancing_recallCopies _ _).bind fun copies => ?_
  split
  · refine Advancing.bind ?_ fun _ => advancing_pure _
    exact advancing_update fun _ => rfl
  · refine (advancing_copyObject _ _).bind fun key => ?_
    refine Advancing.bind (advancing_update fun _ => rfl) fun _ => ?_
    exact (advancing_report rfl).bind fun _ => advancing_pure _

/-! ## Reports and copies

A handle comes to a base directory in two parts. The first tells of the source that is to be copied,
if there is one, and copies nothing; the second copies it and tells of nothing. -/

/-- The first part of settling on a base directory. It answers the directory, and the source. -/
def assign : HandleM (Path × Option Path) := do
  let h ← handle
  match h.storage with
  | .placed base => return (base, none)
  | .unassigned =>
    let base ← claimBase
    putStorage (.placed base)
    report (.assigned h.id h.label base)
    return (base, none)
  | .restoring source =>
    let base ← claimBase
    putStorage (.placed base)
    report (.restored h.id source base)
    return (base, some source)

/-- The first part of taking a directory for the base directory. -/
def adopt (dir : Path) : HandleM (Path × Option Path) := do
  let s ← get
  let h := s.handle
  if !s.files.isDir dir then throw (.missingDirectory h.id dir)
  refuseDisposed
  match h.storage with
  | .unassigned =>
    putStorage (.placed dir)
    return (dir, none)
  | .placed base => throw (.directoryAssigned h.id base)
  | .restoring source =>
    putStorage (.placed dir)
    report (.restoredAdopted h.id source dir)
    return (dir, some source)

/-- The second part. -/
def fill : Path × Option Path → HandleM Path
  | (base, none) => return base
  | (base, some source) => do
    let _ ← onFiles .files (FileM.copyTree source base (← get).order)
    return base

theorem settle_parts : settle = assign >>= fill := by
  funext s
  rw [settle_eq, assign, bind_assoc, bind_ok (handle_apply s)]
  cases s.handle.storage with
  | placed base => rfl
  | unassigned => simp only [bind_assoc, pure_bind, fill]
  | restoring source => simp only [bind_assoc, pure_bind, fill]

theorem setBaseDir_parts (dir : Path) : setBaseDir dir = (do let _ ← adopt dir >>= fill) := by
  funext s
  rw [setBaseDir_eq, adopt]
  simp only [bind_assoc, bind_get]
  cases s.files.isDir dir with
  | false => rfl
  | true =>
    simp only [Bool.not_true, Bool.false_eq_true, ↓reduceIte, reduceCtorEq, bind_assoc]
    cases hd : s.handle.isDisposed with
    | true => rw [bind_error (refuseDisposed_eq_error.2 ⟨hd, rfl, rfl⟩), if_pos rfl]
    | false =>
      rw [bind_ok (refuseDisposed_of_live hd), if_neg Bool.false_ne_true]
      cases s.handle.storage with
      | placed base => rfl
      | unassigned => rfl
      | restoring source => simp only [bind_assoc, pure_bind, fill]

/-- What the second part copies, and where to. -/
def due : Except Failure (Path × Option Path) → List (Path × Path)
  | .ok (base, some source) => [(source, base)]
  | _ => []

/-- Work that tells of what is to be copied after it, and of no other attempt. -/
def Announces (m : HandleM (Path × Option Path)) : Prop := ∀ s, ∃ new,
  (left (m s)).events = s.events ++ new ∧ Event.attempts new = due (answer (m s))

theorem announces_claim (announce : Path → Event) {source? : Option Path}
    (h : ∀ base, Event.attempts [announce base] = due (.ok (base, source?))) :
    Announces (do
      let base ← claimBase
      putStorage (.placed base)
      report (announce base)
      return (base, source?)) := by
  intro s
  cases hc : claimBase s with
  | error e s₁ =>
    obtain ⟨cause, files, -, rfl, -⟩ := claimBase_error hc
    rw [bind_error hc]
    exact ⟨[], (List.append_nil _).symm, rfl⟩
  | ok base s₁ =>
    obtain ⟨-, he⟩ := claimBase_ok hc
    rw [bind_ok hc, he]
    exact ⟨[announce base], rfl, h base⟩

theorem announces_assign : Announces assign := by
  intro s
  rw [assign, bind_ok (handle_apply s)]
  cases s.handle.storage with
  | placed base => exact ⟨[], (List.append_nil _).symm, rfl⟩
  | unassigned => exact announces_claim (.assigned s.handle.id s.handle.label) (fun _ => rfl) s
  | restoring source => exact announces_claim (.restored s.handle.id source) (fun _ => rfl) s

theorem announces_adopt (dir : Path) : Announces (adopt dir) := by
  intro s
  have hnone : ∃ new, s.events = s.events ++ new ∧ Event.attempts new = [] :=
    ⟨[], (List.append_nil _).symm, rfl⟩
  rw [adopt, bind_get]
  cases s.files.isDir dir with
  | false => exact hnone
  | true =>
    simp only [Bool.not_true, Bool.false_eq_true, ↓reduceIte]
    cases hd : s.handle.isDisposed with
    | true =>
      rw [bind_error (refuseDisposed_eq_error.2 ⟨hd, rfl, rfl⟩)]
      exact hnone
    | false =>
      rw [bind_ok (refuseDisposed_of_live hd)]
      cases s.handle.storage with
      | placed base => exact hnone
      | unassigned => exact hnone
      | restoring source => exact ⟨_, rfl, rfl⟩

theorem fill_events (parts : Path × Option Path) :
    Keeps (fun s s' : Scene => s'.events = s.events) (fill parts) := by
  obtain ⟨base, source?⟩ := parts
  cases source? with
  | none => exact fun _ => rfl
  | some source =>
    refine Keeps.bind (fun h₁ h₂ => h₂.trans h₁) (fun _ => rfl) fun scene => ?_
    refine Keeps.bind (fun h₁ h₂ => h₂.trans h₁) (fun s => ?_) fun _ _ => rfl
    rw [left_onFiles]

/-- What is told of is what is copied: the one copy that the second part makes, if it makes one. -/
theorem Announces.attempts {m : HandleM (Path × Option Path)} (h : Announces m) (s : Scene) :
    ∃ new, (left ((m >>= fill) s)).events = s.events ++ new ∧
      Event.attempts new = due (answer (m s)) := by
  obtain ⟨new, he, hdue⟩ := h s
  refine ⟨new, Eq.trans ?_ he, hdue⟩
  cases hm : m s with
  | error e s₁ => rw [bind_error hm, left_error, left_error]
  | ok parts s₁ =>
    rw [bind_ok hm]
    exact fill_events parts s₁

/-- Each report of an attempt has its copy, and each copy of a source its report. -/
theorem attempts_settle (s : Scene) : ∃ new, (left (settle s)).events = s.events ++ new ∧
    Event.attempts new = due (answer (assign s)) := by
  rw [settle_parts]
  exact announces_assign.attempts s

theorem attempts_setBaseDir (dir : Path) (s : Scene) : ∃ new,
    (left (setBaseDir dir s)).events = s.events ++ new ∧
      Event.attempts new = due (answer (adopt dir s)) := by
  rw [setBaseDir_parts, left_answer]
  exact (announces_adopt dir).attempts s

end HandleM

end Depot
