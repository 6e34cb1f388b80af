import Depot.Proofs.Handle.Turns

/-! What a turn does to its handle, in one case analysis: which key it makes, whether it uses up an
index for nothing, and what the handle is afterwards. -/

namespace Depot

open Work

/-- The handle has a copy of the object and still remembers it. -/
def Handle.remembers (h : Handle) (foreign : Key) : Bool := (h.memory.use foreign).isSome

/-- A key for a copy is reserved, and then the content cannot be copied. -/
def HandleM.breaksOff (store : FileStore) (live : List Identity) (flush : FileM Unit)
    (s : Scene) : Bool :=
  !s.handle.isDisposed && !s.handle.remembers store.key &&
    match reserve store flush (recalled store.key live s) with
    | .error _ _ => false
    | .ok (_, target) s₁ =>
      match FileM.copyTree store.path target s₁.order s₁.files with
      | .error _ _ => true
      | .ok _ _ => false

namespace Turn

/-- Whether the turn makes a new key if it succeeds. -/
def asksKey (t : Turn) (h : Handle) : Bool :=
  match t.request, t.asked? h with
  | .create _, _ => true
  | .createInLoop _ _, _ => true
  | _, some (store, _) => !h.remembers store.key
  | _, none => false

/-- The key that the turn makes. -/
def minted? (t : Turn) (h : Handle) : Option Key :=
  match answer (t.outcome h) with
  | .ok (.key key) => if t.asksKey h then some key else none
  | _ => none

def breaksOff (t : Turn) (h : Handle) : Bool :=
  match t.asked? h with
  | some (store, flush) => HandleM.breaksOff store (t.live h) flush (t.scene h)
  | none => false

end Turn

/-- The key that a handle makes next. -/
structure Handle.Mints (h : Handle) (key : Key) : Prop where
  owner : key.owner = h.id
  index : key.index = h.nextIndex
  room : h.nextIndex ≤ h.layout.maxIndex

theorem Handle.close_isDisposed (h : Handle) : h.close.isDisposed = h.isDisposed := by
  unfold isDisposed close
  cases h.lifecycle <;> rfl

/-- A request that makes an object, and the names that are on record then. Names in loops are not
recorded. -/
inductive Request.Makes (h : Handle) (key : Key) : Request → UsedNames → Prop where
  | alone {used names : UsedNames} : h.names = some used → key.name.text ∉ used →
      names.names = key.name.text :: used.names → Makes h key (.create key.name.text) names
  | looped {names : UsedNames} {loop : LoopContext} : h.names = some names →
      Makes h key (.createInLoop key.name.text loop) names

/-- What a turn may do: the handle it leaves, the key it makes, and whether a copy broke off. -/
inductive Turn.Effect (t : Turn) (h : Handle) : Handle → Option Key → Bool → Prop where
  | settled {h' : Handle} : t.asked? h = none → h.Moves h' → Effect t h h' none false
  | reopened : t.request = .reopen → h.isDisposed = false → Effect t h
      { h with names := some (.none h.id), lifecycle := .opened } none false
  | closed : t.request = .close → Effect t h h.close none false
  | disposed : t.request = .dispose → Effect t h
      { h with
        lifecycle := .disposed
        names := none
        copies := none
        storage := .unassigned } none false
  | created {key : Key} {base : Path} {names : UsedNames} : t.asked? h = none →
      h.isDisposed = false → h.Mints key → t.request.Makes h key names → Effect t h
        { h with
          names := some names
          storage := .placed base
          nextIndex := h.nextIndex + 1 } (some key) false
  | refused {asked : FileStore × FileM Unit} : t.asked? h = some asked → h.isDisposed →
      Effect t h h none false
  | remembered {store : FileStore} {flush : FileM Unit} {key : Key} {memory : Recency Key Key} :
      t.asked? h = some (store, flush) → h.isDisposed = false →
      h.memory.use store.key = some (key, memory) → answer (t.outcome h) = .ok (.key key) →
      Effect t h { h with copies := some memory } none false
  | unreserved {store : FileStore} {flush : FileM Unit} {e : Failure} {h' : Handle} :
      t.asked? h = some (store, flush) → h.isDisposed = false → h.memory.use store.key = none →
      answer (t.outcome h) = .error e → { h with copies := some h.memory }.Moves h' →
      Effect t h h' none false
  | broken {store : FileStore} {flush : FileM Unit} {base : Path} {e : Failure} :
      t.asked? h = some (store, flush) → h.isDisposed = false → h.memory.use store.key = none →
      answer (t.outcome h) = .error e → h.nextIndex ≤ h.layout.maxIndex →
      Effect t h
        { h with
          storage := .placed base
          nextIndex := h.nextIndex + 1
          copies := some h.memory } none true
  | copied {store : FileStore} {flush : FileM Unit} {key : Key} {base : Path} :
      t.asked? h = some (store, flush) → h.isDisposed = false → h.memory.use store.key = none →
      answer (t.outcome h) = .ok (.key key) → h.Mints key →
      key.name.text = h.copyName store.key → Effect t h
        { h with
          storage := .placed base
          nextIndex := h.nextIndex + 1
          copies := some (h.memory.put store.key key) } (some key) false

namespace HandleM

theorem createObject_mints {name : String} {key : Key} {s s' : Scene}
    (h : createObject name s = .ok key s') :
    s.handle.isDisposed = false ∧ s.handle.Mints key ∧
      ∃ base names, (Request.create name).Makes s.handle key names ∧ s'.handle =
        { s.handle with
          names := some names
          storage := .placed base
          nextIndex := s.handle.nextIndex + 1 } := by
  obtain ⟨used, names, s₁, hl, hnew, hadd, ha, rfl⟩ := createObject_ok h
  obtain ⟨ho, hi, -, rfl, hr, base, hs⟩ := allocate_ok ha
  obtain ⟨hlive, -⟩ := allocate_eq_ok.1 ha
  have hnames : names.names = key.name.text :: used.names := by
    rw [UsedNames.add_of_unused hnew] at hadd
    cases hadd
    rfl
  refine ⟨hlive, ⟨ho, hi, hr⟩, base, names, .alone hl hnew hnames, ?_⟩
  simp only [hs]

theorem createInLoop_mints {name : String} {loop : LoopContext} {key : Key} {s s' : Scene}
    (h : createInLoop name loop s = .ok key s') :
    s.handle.isDisposed = false ∧ s.handle.Mints key ∧
      ∃ base names, (Request.createInLoop name loop).Makes s.handle key names ∧ s'.handle =
        { s.handle with
          names := some names
          storage := .placed base
          nextIndex := s.handle.nextIndex + 1 } := by
  obtain ⟨hopen, ha⟩ := createInLoop_ok h
  obtain ⟨ho, hi, -, rfl, hr, base, hs⟩ := allocate_ok ha
  obtain ⟨hlive, -⟩ := allocate_eq_ok.1 ha
  obtain ⟨names, hl⟩ := Option.isSome_iff_exists.1 hopen
  refine ⟨hlive, ⟨ho, hi, hr⟩, base, names, .looped hl, ?_⟩
  rw [hs, ← hl]

theorem reserve_mints {store : FileStore} {flush : FileM Unit} {key : Key} {target : Path}
    {s s' : Scene} (h : reserve store flush s = .ok (key, target) s') : s.handle.Mints key ∧
      ∃ base, s'.handle =
        { s.handle with storage := .placed base, nextIndex := s.handle.nextIndex + 1 } := by
  obtain ⟨files, base, dir, -, ha, -⟩ := reserve_eq_ok h
  obtain ⟨ho, hi, -, -, hr, base', hs⟩ := allocate_ok ha
  exact ⟨⟨ho, hi, hr⟩, base', hs⟩

/-- The key of a copy is named after its index and the object it is a copy of. -/
theorem reserve_name {store : FileStore} {flush : FileM Unit} {key : Key} {target : Path}
    {s s' : Scene} (h : reserve store flush s = .ok (key, target) s') :
    key.name.text = s.handle.copyName store.key := by
  obtain ⟨files, base, dir, -, ha, -⟩ := reserve_eq_ok h
  obtain ⟨-, -, -, hname, -⟩ := allocate_ok ha
  exact hname

end HandleM

theorem Scene.removeBase_handle (s : Scene) (base : Path) :
    (s.removeBase base).2.handle = s.handle := by
  unfold removeBase
  dsimp only
  split <;> rfl

theorem Scene.dispose_handle (s : Scene) (found : Bool) : (s.dispose found).2.handle =
    { s.handle with
      lifecycle := .disposed
      names := none
      copies := none
      storage := .unassigned } := by
  unfold dispose
  dsimp only
  split
  · rfl
  · rfl
  · exact removeBase_handle _ _

namespace Turn

/-! ## Turns that ask for a copy -/

section Asked

variable {t : Turn} {h : Handle} {store : FileStore} {flush : FileM Unit}

theorem work_of_asked (ha : t.asked? h = some (store, flush)) : t.work h = (do
    return .key (← HandleM.materializeCopy store (t.live h) flush)) := by
  unfold asked? at ha
  unfold work
  split at ha
  · next hr =>
    cases ha
    rw [hr]
  · next hr =>
    rw [hr]
    split at ha
    · next hc =>
      cases ha
      exact if_pos hc
    · cases ha
  · cases ha

theorem own_of_asked (ha : t.asked? h = some (store, flush)) : t.IsOwn h := by
  intro key hr
  rw [asked?, hr] at ha
  cases ha

theorem next_of_asked (ha : t.asked? h = some (store, flush)) :
    t.next h = (left (HandleM.materializeCopy store (t.live h) flush (t.scene h))).handle := by
  rw [next_eq, work_of_asked ha, left_answer]

theorem answer_of_asked (ha : t.asked? h = some (store, flush)) : answer (t.outcome h) =
    (answer (HandleM.materializeCopy store (t.live h) flush (t.scene h))).map .key := by
  rw [answer_eq (own_of_asked ha), work_of_asked ha, answer_answer]

theorem left_of_asked (ha : t.asked? h = some (store, flush)) :
    let scene := left (HandleM.materializeCopy store (t.live h) flush (t.scene h))
    (left (t.outcome h)).files = scene.files ∧ (left (t.outcome h)).flushes = scene.flushes := by
  have hleft := left_eq (own_of_asked ha)
  rwa [work_of_asked ha, left_answer] at hleft

theorem asksKey_of_asked (ha : t.asked? h = some (store, flush)) :
    t.asksKey h = !h.remembers store.key := by
  unfold asksKey
  rw [ha]
  unfold asked? at ha
  split at ha <;> simp_all

theorem breaksOff_of_asked (ha : t.asked? h = some (store, flush)) :
    t.breaksOff h = HandleM.breaksOff store (t.live h) flush (t.scene h) := by
  rw [breaksOff, ha]

theorem minted?_of_error {e : Failure} (he : answer (t.outcome h) = .error e) :
    t.minted? h = none := by
  rw [minted?, he]

theorem effect_of_asked (ha : t.asked? h = some (store, flush)) :
    Effect t h (t.next h) (t.minted? h) (t.breaksOff h) := by
  have hnext := next_of_asked ha
  have hans := answer_of_asked ha
  have hasks := asksKey_of_asked ha
  have hbreaks := breaksOff_of_asked ha
  have hcase := HandleM.copyCase store (t.live h) flush (t.scene h)
  generalize HandleM.materializeCopy store (t.live h) flush (t.scene h) = result at *
  cases hcase with
  | closed hd =>
    have hoff : t.breaksOff h = false := by simp [hbreaks, HandleM.breaksOff, hd]
    rw [hnext, minted?_of_error hans, hoff]
    exact .refused ha hd
  | @remembered key memory hd hu =>
    have hr : h.remembers store.key = true := by
      rw [Handle.remembers]
      exact Option.isSome_iff_exists.2 ⟨_, hu⟩
    have hm : t.minted? h = none := by simp [minted?, hans, Except.map, hasks, hr]
    have hoff : t.breaksOff h = false := by
      have hr' : (t.scene h).handle.remembers store.key = true := hr
      simp [hbreaks, HandleM.breaksOff, hr']
    rw [hnext, hm, hoff]
    exact .remembered ha hd hu hans
  | unreserved hd hu hres =>
    have hoff : t.breaksOff h = false := by simp [hbreaks, HandleM.breaksOff, hres]
    rw [hnext, minted?_of_error hans, hoff]
    refine .unreserved ha hd hu hans ?_
    have hmoves := HandleM.reserve_error hres
    rwa [HandleM.recalled_handle] at hmoves
  | @broken key target s₁ cause files hd hu hres hc =>
    have hr : (t.scene h).handle.remembers store.key = false := by simp [Handle.remembers, hu]
    have hoff : t.breaksOff h = true := by
      simp [hbreaks, HandleM.breaksOff, hd, hr, hres, hc]
    obtain ⟨hmint, base, hs⟩ := HandleM.reserve_mints hres
    rw [HandleM.recalled_handle] at hmint hs
    have hnext' : t.next h = s₁.handle := hnext
    rw [hnext', minted?_of_error hans, hoff, hs]
    exact .broken ha hd hu hans hmint.room
  | @made key target s₁ count files hd hu hres hc =>
    have hr : h.remembers store.key = false := by
      have hu' : h.memory.use store.key = none := hu
      simp [Handle.remembers, hu']
    have hm : t.minted? h = some key := by simp [minted?, hans, Except.map, hasks, hr]
    have hoff : t.breaksOff h = false := by simp [hbreaks, HandleM.breaksOff, hres, hc]
    obtain ⟨hmint, base, hs⟩ := HandleM.reserve_mints hres
    have hname := HandleM.reserve_name hres
    rw [HandleM.recalled_handle] at hmint hs hname
    rw [hnext, hm, hoff]
    simp only [left_ok, hs]
    exact .copied ha hd hu hans ⟨hmint.owner, hmint.index, hmint.room⟩ hname

end Asked

/-! ## All turns -/

section Unasked

variable {t : Turn} {h : Handle}

theorem breaksOff_of_unasked (ha : t.asked? h = none) : t.breaksOff h = false := by
  rw [breaksOff, ha]

theorem minted?_of_idle (hk : t.asksKey h = false) : t.minted? h = none := by
  unfold minted?
  split
  · rw [hk]
    rfl
  · rfl

/-- A turn that makes no key, and at most moves the objects. -/
theorem effect_of_settles (ha : t.asked? h = none) (hk : t.asksKey h = false)
    (hw : HandleM.Settles (t.work h)) : Effect t h (t.next h) (t.minted? h) (t.breaksOff h) := by
  rw [minted?_of_idle hk, breaksOff_of_unasked ha, next_eq]
  exact .settled ha (hw (t.scene h)).1

theorem next_reopen (hr : t.request = .reopen) :
    t.next h = if h.isDisposed then h
      else { h with names := some (.none h.id), lifecycle := .opened } := by
  rw [next_eq, work, hr, left_answer, HandleM.reopen]
  split
  · next hd =>
    rw [bind_error (HandleM.refuseDisposed_eq_error (s := t.scene h).2 ⟨hd, rfl, rfl⟩)]
    rfl
  · next hd =>
    rw [bind_ok (HandleM.refuseDisposed_of_live (s := t.scene h) (Bool.eq_false_iff.2 hd))]
    rfl

theorem next_close (hr : t.request = .close) : t.next h = h.close := by
  rw [next_eq, work, hr, left_answer]
  rfl

theorem effect_of_reopen (hr : t.request = .reopen) :
    Effect t h (t.next h) (t.minted? h) (t.breaksOff h) := by
  have ha : t.asked? h = none := by rw [asked?, hr]
  have hk : t.asksKey h = false := by rw [asksKey, hr, ha]
  rw [minted?_of_idle hk, breaksOff_of_unasked ha, next_reopen hr]
  split
  · exact .settled ha (.refl h)
  · next hd => exact .reopened hr (Bool.eq_false_iff.2 hd)

theorem effect_of_close (hr : t.request = .close) :
    Effect t h (t.next h) (t.minted? h) (t.breaksOff h) := by
  have ha : t.asked? h = none := by rw [asked?, hr]
  have hk : t.asksKey h = false := by rw [asksKey, hr, ha]
  rw [minted?_of_idle hk, breaksOff_of_unasked ha, next_close hr]
  exact .closed hr

theorem effect_of_dispose (hr : t.request = .dispose) :
    Effect t h (t.next h) (t.minted? h) (t.breaksOff h) := by
  have ha : t.asked? h = none := by rw [asked?, hr]
  have hk : t.asksKey h = false := by rw [asksKey, hr, ha]
  have hnext : t.next h =
      { h with
        lifecycle := .disposed
        names := none
        copies := none
        storage := .unassigned } := by
    rw [next_eq, work, hr]
    exact Scene.dispose_handle (t.scene h) _
  rw [minted?_of_idle hk, breaksOff_of_unasked ha, hnext]
  exact .disposed hr

/-- A turn that makes the key of a new object, or fails to. -/
theorem effect_of_creation {m : HandleM Key} (ha : t.asked? h = none) (hk : t.asksKey h)
    (hw : t.work h = (do return .key (← m))) (hr : ∀ key, t.request ≠ .fileStore key)
    (hok : ∀ {key s'}, m (t.scene h) = .ok key s' → h.isDisposed = false ∧ h.Mints key ∧
      ∃ base names, t.request.Makes h key names ∧ s'.handle =
        { h with
          names := some names
          storage := .placed base
          nextIndex := h.nextIndex + 1 })
    (herr : ∀ {e s'}, m (t.scene h) = .error e s' → h.Moves s'.handle) :
    Effect t h (t.next h) (t.minted? h) (t.breaksOff h) := by
  have hnext : t.next h = (left (m (t.scene h))).handle := by rw [next_eq, hw, left_answer]
  have hans : answer (t.outcome h) = (answer (m (t.scene h))).map .key := by
    rw [answer_eq fun key he => absurd he (hr key), hw, answer_answer]
  rw [hnext, breaksOff_of_unasked ha]
  cases hm : m (t.scene h) with
  | ok key s' =>
    obtain ⟨hlive, hmint, base, names, hmakes, hs⟩ := hok hm
    have hkey : t.minted? h = some key := by simp [minted?, hans, hm, Except.map, hk]
    rw [hkey, left_ok, hs]
    exact .created ha hlive hmint hmakes
  | error e s' =>
    have hkey : t.minted? h = none := by simp [minted?, hans, hm, Except.map]
    rw [hkey]
    exact .settled ha (herr hm)

end Unasked

theorem effect (t : Turn) (h : Handle) : Effect t h (t.next h) (t.minted? h) (t.breaksOff h) := by
  cases ha : t.asked? h with
  | some asked => exact effect_of_asked ha
  | none =>
    cases hr : t.request with
    | reopen => exact effect_of_reopen hr
    | close => exact effect_of_close hr
    | dispose => exact effect_of_dispose hr
    | create name =>
      refine effect_of_creation (m := HandleM.createObject name) ha (by rw [asksKey, hr])
        (by rw [work, hr]) (by simp [hr]) ?_ ?_
      · rw [hr]
        exact HandleM.createObject_mints
      · exact HandleM.createObject_error
    | createInLoop name loop =>
      refine effect_of_creation (m := HandleM.createInLoop name loop) ha (by rw [asksKey, hr])
        (by rw [work, hr]) (by simp [hr]) ?_ ?_
      · rw [hr]
        exact HandleM.createInLoop_mints
      · exact HandleM.createInLoop_error
    | materialize store flush => simp [asked?, hr] at ha
    | translate store flush =>
      refine effect_of_settles ha (by rw [asksKey, hr, ha]) ?_
      have hc : (t.before h).mustCopy (t.held h) store.key = false := by
        simpa [asked?, hr] using ha
      rw [work, hr]
      simp only [hc, Bool.false_eq_true, ↓reduceIte]
      exact (HandleM.spares_pure _).settles
    | setBaseDir dir =>
      refine effect_of_settles ha (by rw [asksKey, hr, ha]) ?_
      rw [work, hr]
      exact (HandleM.settles_setBaseDir dir).bind fun _ => (HandleM.spares_pure _).settles
    | ensureRestored =>
      refine effect_of_settles ha (by rw [asksKey, hr, ha]) ?_
      rw [work, hr]
      exact HandleM.settles_ensureRestored.bind fun _ => (HandleM.spares_pure _).settles
    | shardDir index fill =>
      refine effect_of_settles ha (by rw [asksKey, hr, ha]) ?_
      rw [work, hr]
      exact (HandleM.settles_shardDir index fill).bind fun _ => (HandleM.spares_pure _).settles
    | objectPath key =>
      refine effect_of_settles ha (by rw [asksKey, hr, ha]) ?_
      rw [work, hr]
      exact (HandleM.settles_objectPath key).bind fun _ => (HandleM.spares_pure _).settles
    | fileStore key =>
      refine effect_of_settles ha (by rw [asksKey, hr, ha]) ?_
      rw [work, hr]
      dsimp only
      split
      · exact (HandleM.settles_objectPath key).bind fun _ => (HandleM.spares_pure _).settles
      · exact (HandleM.spares_pure _).settles

end Turn

end Depot
