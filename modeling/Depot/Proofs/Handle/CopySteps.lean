import Depot.Proofs.Handle.Steps

/-! How a copy is made: the copies made so far are looked through, a key is reserved for the new
one, the content is copied to its place, and the copy is remembered. The copying is the one step
that can fail after the index has moved. -/

namespace Depot

/-- The copies a handle remembers; none before there was one to make. -/
def Handle.memory (h : Handle) : Recency Key Key :=
  h.copies.getD (.empty h.settings.copyLimit.toNat)

/-- The name of the next copy. -/
def Handle.copyName (h : Handle) (foreign : Key) : String :=
  toString h.nextIndex.toNat ++ "_" ++ foreign.name.text

theorem Handle.baseDir?_eq_some {h : Handle} {base : Path} :
    h.baseDir? = some base ↔ h.storage = .placed base := by
  unfold baseDir?
  cases h.storage <;> simp

namespace HandleM

open Work

/-- What there is once the copies made so far have been looked for. -/
def recalled (foreign : Key) (live : List Identity) (s : Scene) : Scene :=
  left (recallCopies foreign live s)

theorem recallCopies_apply (foreign : Key) (live : List Identity) (s : Scene) :
    recallCopies foreign live s = .ok s.handle.memory (recalled foreign live s) := by
  unfold recalled recallCopies Handle.memory
  rw [bind_ok (handle_apply s)]
  cases s.handle.copies <;> rfl

theorem recalled_handle (foreign : Key) (live : List Identity) (s : Scene) :
    (recalled foreign live s).handle = { s.handle with copies := some s.handle.memory } := by
  unfold recalled recallCopies Handle.memory
  rw [bind_ok (handle_apply s)]
  cases h : s.handle.copies with
  | none => rfl
  | some copies =>
    show s.handle = _
    rw [Option.getD_some, ← h]

theorem recalled_files (foreign : Key) (live : List Identity) (s : Scene) :
    (recalled foreign live s).files = s.files := by
  unfold recalled recallCopies
  rw [bind_ok (handle_apply s)]
  cases s.handle.copies <;> rfl

theorem recalled_flushes (foreign : Key) (live : List Identity) (s : Scene) :
    (recalled foreign live s).flushes = s.flushes := by
  unfold recalled recallCopies
  rw [bind_ok (handle_apply s)]
  cases s.handle.copies <;> rfl

theorem recalled_order (foreign : Key) (live : List Identity) (s : Scene) :
    (recalled foreign live s).order = s.order := by
  unfold recalled recallCopies
  rw [bind_ok (handle_apply s)]
  cases s.handle.copies <;> rfl

/-- All of a copy but the copying: the content is written out, and a key and its place are made. -/
def reserve (store : FileStore) (flush : FileM Unit) : HandleM (Key × Path) := do
  modify fun s => { s with flushes := s.flushes + 1 }
  onFiles (.copyFailed store.key) flush
  let key ← allocate ((← handle).copyName store.key) .empty
  let dir ← locate (← needBase) key.index false
  return (key, dir.child key.name.text)

theorem copyObject_eq (store : FileStore) (flush : FileM Unit) : copyObject store flush = (do
    let (key, target) ← reserve store flush
    let _ ← onFiles (.copyFailed store.key) (FileM.copyTree store.path target (← get).order)
    return key) := by
  unfold copyObject reserve
  simp only [bind_assoc, pure_bind]
  rfl

theorem needBase_of_none {s : Scene} (h : s.handle.baseDir? = none) :
    needBase s = .error (.noDirectory s.handle.id) s := by
  unfold needBase
  rw [bind_ok (handle_apply s), h]
  rfl

theorem needBase_eq_ok {base : Path} {s s' : Scene} :
    needBase s = .ok base s' ↔ s.handle.baseDir? = some base ∧ s' = s := by
  unfold needBase
  rw [bind_ok (handle_apply s)]
  cases s.handle.baseDir? <;> simp [eq_comm]

theorem locate_lookup {base dir : Path} {index : UInt64} {s : Scene}
    (h : s.handle.layout.path base index = .ok dir) : locate base index false s = .ok dir s := by
  unfold locate
  rw [bind_ok (handle_apply s), h]
  rfl

theorem locate_overflow {base : Path} {index : UInt64} {o : Overflow} {s : Scene}
    (h : s.handle.layout.path base index = .error o) :
    locate base index false s = .error (.overflow o) s := by
  unfold locate
  rw [bind_ok (handle_apply s), h]
  rfl

theorem locate_eq_ok {base dir : Path} {index : UInt64} {create : Bool} {s s' : Scene}
    (h : locate base index create s = .ok dir s') : s.handle.layout.path base index = .ok dir := by
  unfold locate at h
  simp only [bind_eq_ok, handle_apply, check_eq_ok] at h
  obtain ⟨_, _, hh, dir', _, ⟨hp, rfl⟩, h⟩ := h
  cases hh
  split at h
  · obtain ⟨_, _, -, h⟩ := bind_eq_ok.1 h
    cases h
    exact hp
  · cases h
    exact hp

/-- A key that has been made has a base directory, and a place below it. -/
theorem allocate_placed {name : String} {loop : LoopContext} {key : Key} {s s' : Scene}
    (h : allocate name loop s = .ok key s') : ∃ base dir, s'.handle.storage = .placed base ∧
      s'.handle.layout.path base key.index = .ok dir := by
  obtain ⟨-, hk, hc, base, s₁, dir, s₂, hs, hl, rfl⟩ := allocate_eq_ok.1 h
  have h₁ := settle_ok hs
  have h₂ : s₂.handle = s₁.handle := (spares_locate _ _ _).handle_ok hl
  refine ⟨base, dir, by rw [h₂, h₁], ?_⟩
  have hp := locate_eq_ok hl
  rw [h₂, (Key.make_ok hk).2.1]
  exact hp

theorem reserve_eq_ok {store : FileStore} {flush : FileM Unit} {key : Key} {target : Path}
    {s s' : Scene} (h : reserve store flush s = .ok (key, target) s') : ∃ files base dir,
      flush s.files = .ok () files ∧
      allocate (s.handle.copyName store.key) .empty
        { s with files, flushes := s.flushes + 1 } = .ok key s' ∧
      s'.handle.storage = .placed base ∧ s'.handle.layout.path base key.index = .ok dir ∧
      target = dir.child key.name.text := by
  unfold reserve at h
  simp only [bind_eq_ok, modify_apply, onFiles_eq_ok, handle_apply, needBase_eq_ok, pure_apply,
    EStateM.Result.ok.injEq] at h
  obtain ⟨_, _, ⟨-, rfl⟩, _, _, ⟨files, hf, rfl⟩, _, _, ⟨rfl, rfl⟩, k, s₁, ha, base, _,
    ⟨hb, rfl⟩, dir, s₂, hl, hk, rfl⟩ := h
  cases hk
  obtain ⟨base', dir', hs, hp⟩ := allocate_placed ha
  have hbase : base' = base := by simpa [Handle.baseDir?, hs] using hb
  subst hbase
  rw [locate_lookup hp] at hl
  cases hl
  exact ⟨files, base', dir, hf, ha, hs, hp, rfl⟩

/-- An object that cannot be written out is not copied. -/
theorem reserve_of_flush_error {store : FileStore} {flush : FileM Unit} {s : Scene}
    {cause : FileError} {files : FileSystem} (h : flush s.files = .error cause files) :
    reserve store flush s =
      .error (.copyFailed store.key cause) { s with files, flushes := s.flushes + 1 } := by
  unfold reserve
  rw [bind_ok (modify_apply _ _)]
  exact bind_error (onFiles_eq_error.2 ⟨cause, files, h, rfl, rfl⟩)

/-- Once the content is written out, only making the key can fail: a key that is made has its base
directory and its place. -/
theorem reserve_fails {store : FileStore} {flush : FileM Unit} {files : FileSystem} {e : Failure}
    {s s' : Scene} (hf : flush s.files = .ok () files) (h : reserve store flush s = .error e s') :
    allocate (s.handle.copyName store.key) .empty { s with files, flushes := s.flushes + 1 } =
      .error e s' := by
  have hflushed : onFiles (.copyFailed store.key) flush { s with flushes := s.flushes + 1 } =
      .ok () { s with files, flushes := s.flushes + 1 } := onFiles_eq_ok.2 ⟨files, hf, rfl⟩
  unfold reserve at h
  rw [bind_ok (modify_apply _ _), bind_ok hflushed, bind_ok (handle_apply _)] at h
  rcases bind_eq_error.1 h with ha | ⟨key, s₁, ha, h₁⟩
  · exact ha
  obtain ⟨base, dir, hs, hp⟩ := allocate_placed ha
  have hbase : needBase s₁ = .ok base s₁ := needBase_eq_ok.2 ⟨Handle.baseDir?_eq_some.2 hs, rfl⟩
  rw [bind_ok hbase, bind_ok (locate_lookup hp)] at h₁
  cases h₁

theorem reserve_error {store : FileStore} {flush : FileM Unit} {e : Failure} {s s' : Scene}
    (h : reserve store flush s = .error e s') : s.handle.Moves s'.handle := by
  cases hf : flush s.files with
  | error cause files =>
    rw [reserve_of_flush_error hf] at h
    cases h
    exact .refl s.handle
  | ok u files =>
    have hm := allocate_error (reserve_fails hf h)
    exact hm

/-- Whatever comes of it, the content was asked for once. -/
theorem reserve_asks (store : FileStore) (flush : FileM Unit) (s : Scene) :
    (left (reserve store flush s)).flushes = s.flushes + 1 ∧
      (left (reserve store flush s)).order = s.order := by
  have hquiet : Quiet (do
      onFiles (.copyFailed store.key) flush
      let key ← allocate ((← handle).copyName store.key) .empty
      let dir ← locate (← needBase) key.index false
      return (key, dir.child key.name.text)) := by
    refine (spares_onFiles _ _).settles.quiet.bind fun _ => spares_handle.settles.quiet.bind ?_
    intro h
    refine (quiet_allocate _ _).bind fun key => spares_needBase.settles.quiet.bind fun base => ?_
    exact ((spares_locate _ _ _).bind fun _ => spares_pure _).settles.quiet
  exact hquiet { s with flushes := s.flushes + 1 }

theorem reserve_flushes (store : FileStore) (flush : FileM Unit) (s : Scene) :
    (left (reserve store flush s)).flushes = s.flushes + 1 := (reserve_asks store flush s).1

theorem reserve_order {store : FileStore} {flush : FileM Unit} {key : Key} {target : Path}
    {s s' : Scene} (h : reserve store flush s = .ok (key, target) s') : s'.order = s.order := by
  have hasks := (reserve_asks store flush s).2
  rwa [h] at hasks

/-- The ways in which asking for a copy can go. -/
inductive CopyCase (store : FileStore) (live : List Identity) (flush : FileM Unit) (s : Scene) :
    EStateM.Result Failure Scene Key → Prop where
  | closed : s.handle.isDisposed → CopyCase store live flush s
      (.error (.closed s.handle.id s.handle.label) s)
  | remembered {key : Key} {memory : Recency Key Key} : s.handle.isDisposed = false →
      s.handle.memory.use store.key = some (key, memory) → CopyCase store live flush s
        (.ok key { recalled store.key live s with
          handle := { s.handle with copies := some memory } })
  | unreserved {e : Failure} {s' : Scene} : s.handle.isDisposed = false →
      s.handle.memory.use store.key = none →
      reserve store flush (recalled store.key live s) = .error e s' →
      CopyCase store live flush s (.error e s')
  | broken {key : Key} {target : Path} {s₁ : Scene} {cause : FileError} {files : FileSystem} :
      s.handle.isDisposed = false → s.handle.memory.use store.key = none →
      reserve store flush (recalled store.key live s) = .ok (key, target) s₁ →
      FileM.copyTree store.path target s₁.order s₁.files = .error cause files →
      CopyCase store live flush s (.error (.copyFailed store.key cause) { s₁ with files })
  | made {key : Key} {target : Path} {s₁ : Scene} {count : Nat} {files : FileSystem} :
      s.handle.isDisposed = false → s.handle.memory.use store.key = none →
      reserve store flush (recalled store.key live s) = .ok (key, target) s₁ →
      FileM.copyTree store.path target s₁.order s₁.files = .ok count files →
      CopyCase store live flush s (.ok key
        { s₁ with
          files
          handle := { s₁.handle with copies := s₁.handle.copies.map (·.put store.key key) }
          events := s₁.events ++ [.copied store.key key] })

theorem copyCase (store : FileStore) (live : List Identity) (flush : FileM Unit) (s : Scene) :
    CopyCase store live flush s (materializeCopy store live flush s) := by
  unfold materializeCopy
  cases hd : s.handle.isDisposed with
  | true =>
    rw [bind_error (refuseDisposed_eq_error.2 ⟨hd, rfl, rfl⟩)]
    exact .closed hd
  | false =>
    rw [bind_ok (refuseDisposed_of_live hd), bind_ok (recallCopies_apply store.key live s)]
    cases hu : s.handle.memory.use store.key with
    | some found =>
      obtain ⟨key, memory⟩ := found
      simp only [bind_ok (update_apply _ _), recalled_handle]
      exact .remembered hd hu
    | none =>
      simp only [copyObject_eq]
      cases hr : reserve store flush (recalled store.key live s) with
      | error e s' =>
        rw [bind_error (bind_error hr)]
        exact .unreserved hd hu hr
      | ok reserved s₁ =>
        obtain ⟨key, target⟩ := reserved
        rw [bind_assoc, bind_ok hr, bind_assoc, bind_get]
        cases hc : FileM.copyTree store.path target s₁.order s₁.files with
        | error cause files =>
          rw [bind_error (bind_error (onFiles_eq_error.2 ⟨cause, files, hc, rfl, rfl⟩))]
          exact .broken hd hu hr hc
        | ok count files =>
          rw [bind_assoc, bind_ok (onFiles_eq_ok.2 ⟨files, hc, rfl⟩)]
          have made := CopyCase.made hd hu hr hc
          exact made

end HandleM

end Depot
