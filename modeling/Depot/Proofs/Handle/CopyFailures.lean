import Depot.Proofs.Handle.Effects
import Depot.Proofs.Handle.Rejections

/-! Copies that are not made. The name of a copy is never refused, so only the room for keys, the
files and what has to be written out can be in the way. What the handle remembers and the names it
has given out stay, and an index is lost only when the copying itself breaks off. -/

namespace Depot

open Work

/-- Digits in front make no name worse. -/
theorem Handle.copyName_sound (h : Handle) (foreign : Key) :
    nameFault? (h.copyName foreign) = none := by
  have hforeign := foreign.name.allowed
  have hnum : ∀ c : Char, c.isDigit = false → c ∉ (toString h.nextIndex.toNat).toList :=
    fun _ hc => Text.notMem_toString hc _
  have htext : (h.copyName foreign).toList =
      (toString h.nextIndex.toNat).toList ++ '_' :: foreign.name.text.toList := by
    simp [copyName]
  refine nameFault?_eq_none.2 ⟨?_, ?_, ?_, ?_⟩
  · rw [Ne, ← String.toList_eq_nil_iff, htext]
    simp
  · rw [htext]
    cases hd : (toString h.nextIndex.toNat).toList with
    | nil => simp
    | cons d ds =>
      intro he
      have hdot : d = '.' := by simpa using he
      exact hnum '.' (by decide) (by rw [hd, hdot]; exact List.mem_cons_self ..)
  · rw [htext]
    simpa [hforeign.noSlash] using hnum '/' (by decide)
  · rw [htext]
    simpa [hforeign.noBackslash] using hnum '\\' (by decide)

namespace HandleM

variable {store : FileStore} {live : List Identity} {flush : FileM Unit} {e : Failure}
  {s s' : Scene}

/-- What keeps a handle from reserving a key and a place for a copy. -/
inductive Unreserved (store : FileStore) (flush : FileM Unit) (s : Scene) :
    Failure → Scene → Prop where
  | unflushed {cause : FileError} {files : FileSystem} : flush s.files = .error cause files →
      Unreserved store flush s (.copyFailed store.key cause)
        { s with files, flushes := s.flushes + 1 }
  | full {files : FileSystem} {o : Overflow} : flush s.files = .ok () files →
      Unreserved store flush s (.overflow o) { s with files, flushes := s.flushes + 1 }
  | stuck {files : FileSystem} {cause : FileError} {s' : Scene} : flush s.files = .ok () files →
      s.handle.Places s'.handle → Unreserved store flush s (.files cause) s'

theorem unreserved (hlive : s.handle.isDisposed = false)
    (h : reserve store flush s = .error e s') : Unreserved store flush s e s' := by
  cases hf : flush s.files with
  | error cause files =>
    rw [reserve_of_flush_error hf] at h
    cases h
    exact .unflushed hf
  | ok u files =>
    have ha := reserve_fails hf h
    generalize hflushed : { s with files, flushes := s.flushes + 1 : Scene } = flushed at ha
    have hhandle : flushed.handle = s.handle := by rw [← hflushed]
    cases hr : s.handle.keyRefusal? (s.handle.copyName store.key) with
    | none =>
      obtain ⟨cause, rfl, hplaces⟩ := allocate_stuck (by rw [hhandle]; exact hr) ha
      exact .stuck hf (hhandle ▸ hplaces)
    | some refusal =>
      -- the handle is not disposed and the name is sound, so there is no room for another key
      rw [allocate_refused (by rw [hhandle]; exact hr), ← hflushed] at ha
      cases ha
      unfold Handle.keyRefusal? at hr
      rw [hlive, s.handle.copyName_sound store.key] at hr
      cases hc : s.handle.layout.check s.handle.nextIndex with
      | ok u =>
        rw [hc] at hr
        cases hr
      | error o =>
        rw [hc] at hr
        cases hr
        exact .full hf

/-- What there is when no copy has been made. -/
structure Uncopied (store : FileStore) (live : List Identity) (flush : FileM Unit) (s : Scene)
    (e : Failure) (s' : Scene) : Prop where
  /-- A disposed handle refuses; any other may lack room, or the files or the flush may fail it. -/
  reason : s.handle.isDisposed ∧ e = .closed s.handle.id s.handle.label ∨
    s.handle.isDisposed = false ∧ s.handle.remembers store.key = false ∧
      ((∃ o, e = .overflow o) ∨ (∃ cause, e = .files cause) ∨
        ∃ cause, e = .copyFailed store.key cause)
  memory : s'.handle.memory = s.handle.memory
  lifecycle : s'.handle.lifecycle = s.handle.lifecycle
  names : s'.handle.names = s.handle.names
  index : s'.handle.nextIndex.toNat =
    s.handle.nextIndex.toNat + if breaksOff store live flush s then 1 else 0
  brokenOff : breaksOff store live flush s → ∃ cause, e = .copyFailed store.key cause
  /-- A flush that fails leaves what it has done to the files, and nothing else. -/
  unflushed : ∀ cause files, s.handle.isDisposed = false → flush s.files = .error cause files →
    e = .copyFailed store.key cause ∧ s'.handle.nextIndex = s.handle.nextIndex ∧
      s'.handle.storage = s.handle.storage ∧ s'.files = files

theorem uncopied_of_unreserved (hlive : s.handle.isDisposed = false)
    (hmiss : s.handle.memory.use store.key = none)
    (h : reserve store flush (recalled store.key live s) = .error e s') :
    Uncopied store live flush s e s' := by
  have hhandle := recalled_handle store.key live s
  have hoff : breaksOff store live flush s = false := by simp [breaksOff, h]
  have hr : s.handle.remembers store.key = false := by simp [Handle.remembers, hmiss]
  have hcase : Unreserved store flush (recalled store.key live s) e s' :=
    unreserved (by rw [hhandle]; exact hlive) h
  have hmoves := reserve_error h
  rw [hhandle] at hmoves
  obtain ⟨storage, hs⟩ := hmoves
  have hsame : s'.handle.memory = s.handle.memory ∧ s'.handle.lifecycle = s.handle.lifecycle ∧
      s'.handle.names = s.handle.names ∧ s'.handle.nextIndex = s.handle.nextIndex := by
    rw [hs]
    exact ⟨rfl, rfl, rfl, rfl⟩
  obtain ⟨hmemory, hlifecycle, hnames, hindex⟩ := hsame
  refine ⟨Or.inr ⟨hlive, hr, ?_⟩, hmemory, hlifecycle, hnames, by rw [hindex, hoff]; rfl,
    by simp [hoff], ?_⟩
  · cases hcase with
    | unflushed => exact Or.inr (Or.inr ⟨_, rfl⟩)
    | full => exact Or.inl ⟨_, rfl⟩
    | stuck => exact Or.inr (Or.inl ⟨_, rfl⟩)
  · intro cause files _ hf
    rw [← recalled_files store.key live s] at hf
    rw [reserve_of_flush_error hf] at h
    cases h
    exact ⟨rfl, hindex, by rw [hhandle], rfl⟩

theorem uncopied_of_broken {key : Key} {target : Path} {cause : FileError} {files : FileSystem}
    (hlive : s.handle.isDisposed = false) (hmiss : s.handle.memory.use store.key = none)
    (hr : reserve store flush (recalled store.key live s) = .ok (key, target) s')
    (hc : FileM.copyTree store.path target s'.order s'.files = .error cause files) :
    Uncopied store live flush s (.copyFailed store.key cause) { s' with files } := by
  have hnew : s.handle.remembers store.key = false := by simp [Handle.remembers, hmiss]
  have hoff : breaksOff store live flush s = true := by simp [breaksOff, hlive, hnew, hr, hc]
  obtain ⟨hmint, base, hs⟩ := reserve_mints hr
  rw [recalled_handle] at hmint hs
  refine ⟨Or.inr ⟨hlive, hnew, Or.inr (Or.inr ⟨cause, rfl⟩)⟩, ?_, ?_, ?_, ?_,
    fun _ => ⟨cause, rfl⟩, ?_⟩
  · rw [hs]
    rfl
  · rw [hs]
  · rw [hs]
  · rw [hs, hoff]
    exact Layout.toNat_succ hmint.room
  · -- the flush has not failed, since a key was reserved
    intro cause files _ hf
    rw [← recalled_files store.key live s] at hf
    rw [reserve_of_flush_error hf] at hr
    cases hr

/-- A copy that is not made leaves the handle in order, and the content is asked for once if there
is a copy to make and not at all if there is none. -/
theorem copy_failures (store : FileStore) (live : List Identity) (flush : FileM Unit) (s : Scene) :
    (left (materializeCopy store live flush s)).flushes = s.flushes +
        (if s.handle.isDisposed || s.handle.remembers store.key then 0 else 1) ∧
      match materializeCopy store live flush s with
      | .error e s' => Uncopied store live flush s e s'
      | .ok _ _ => s.handle.isDisposed = false ∧
        (s.handle.remembers store.key = false → ∃ files, flush s.files = .ok () files) := by
  have hcase := copyCase store live flush s
  generalize materializeCopy store live flush s = result at *
  cases hcase with
  | closed hd =>
    refine ⟨by simp [hd], ⟨Or.inl ⟨hd, rfl⟩, rfl, rfl, rfl, ?_, ?_, ?_⟩⟩
    · simp [breaksOff, hd]
    · simp [breaksOff, hd]
    · intro _ _ hlive
      rw [hd] at hlive
      cases hlive
  | @remembered key memory hlive hu =>
    have hr : s.handle.remembers store.key = true := by
      rw [Handle.remembers, hu]
      rfl
    refine ⟨by simp [hr, recalled_flushes], hlive, fun hmiss => ?_⟩
    rw [hr] at hmiss
    cases hmiss
  | @unreserved e s' hlive hu h =>
    have hflushes := reserve_flushes store flush (recalled store.key live s)
    rw [h, recalled_flushes] at hflushes
    refine ⟨by simp [hlive, Handle.remembers, hu, hflushes.symm], ?_⟩
    exact uncopied_of_unreserved hlive hu h
  | @broken key target s₁ cause files hlive hu hr hc =>
    have hflushes := reserve_flushes store flush (recalled store.key live s)
    rw [hr, recalled_flushes] at hflushes
    refine ⟨by simp [hlive, Handle.remembers, hu, hflushes.symm], ?_⟩
    exact uncopied_of_broken hlive hu hr hc
  | @made key target s₁ count files hlive hu hr hc =>
    have hflushes := reserve_flushes store flush (recalled store.key live s)
    rw [hr, recalled_flushes] at hflushes
    refine ⟨by simp [hlive, Handle.remembers, hu, hflushes.symm], hlive, fun _ => ?_⟩
    obtain ⟨files, -, -, hf, -⟩ := reserve_eq_ok hr
    rw [recalled_files] at hf
    exact ⟨files, hf⟩

end HandleM

theorem HandleM.copy_failures_sample : ∃ e s',
    materializeCopy ⟨Sample.foreign 0, ⟨"/a"⟩⟩ [] (throw (.reported "lost")) Sample.opened =
      .error e s' ∧
    e = .copyFailed (Sample.foreign 0) (.reported "lost") ∧ s'.flushes = 1 ∧
    s'.handle.nextIndex = 0 ∧ s'.handle.names = Sample.opened.handle.names := by
  obtain ⟨hflushes, hcopy⟩ :=
    copy_failures ⟨Sample.foreign 0, ⟨"/a"⟩⟩ [] (throw (.reported "lost")) Sample.opened
  cases hr : materializeCopy ⟨Sample.foreign 0, ⟨"/a"⟩⟩ [] (throw (.reported "lost"))
      Sample.opened with
  | error e s' =>
    rw [hr] at hflushes hcopy
    obtain ⟨he, hindex, -⟩ := hcopy.unflushed (.reported "lost") Sample.files rfl rfl
    exact ⟨e, s', rfl, he, hflushes, hindex, hcopy.names⟩
  | ok key s' =>
    rw [hr] at hcopy
    obtain ⟨files, hflush⟩ := hcopy.2 rfl
    cases hflush

end Depot
