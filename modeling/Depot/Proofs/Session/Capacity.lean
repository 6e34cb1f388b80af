import Depot.Proofs.Handle.CopyFailures
import Depot.Proofs.Session.Phases

/-! The room for keys. Every index that is used up takes one place of those that are left, so the
index never gets further than one past the last place. From there on nothing new is made, and what
there is can still be asked for. -/

namespace Depot

open Work

namespace Handle

/-- No place is left for another key. -/
def IsFull (h : Handle) : Prop := h.layout.maxIndex < h.nextIndex

/-- How many places are left. -/
def room (h : Handle) : Nat := h.layout.maxIndex.toNat + 1 - h.nextIndex.toNat

/-- How many indices are used up in some turns, for keys or for nothing. -/
def spent (h : Handle) (turns : List Turn) : Nat := (h.minted turns).length + h.wasted turns

theorem room_of_full {h : Handle} (hfull : h.IsFull) : h.room = 0 := by
  have hlt := UInt64.lt_iff_toNat_lt.1 hfull
  unfold room
  omega

end Handle

/-! ## Using up indices -/

namespace Turn

variable {t : Turn} {h : Handle}

/-- An index is used up only where it has a place. -/
theorem room_of_spends (hs : t.spends h) : h.nextIndex ≤ h.layout.maxIndex := by
  have he := t.effect h
  unfold spends at hs
  generalize t.next h = h', t.minted? h = minted?, t.breaksOff h = breaksOff at he hs
  cases he with
  | created _ _ hmint => exact hmint.room
  | broken _ _ _ _ hroom => exact hroom
  | copied _ _ _ _ hmint => exact hmint.room
  | _ => simp at hs

/-- The index moves by one or not at all: there is a number behind every index with a place. -/
theorem next_index_exact (t : Turn) (h : Handle) : (t.next h).nextIndex = h.nextIndex ∨
    h.nextIndex.toNat + 1 < UInt64.size ∧
      (t.next h).nextIndex.toNat = h.nextIndex.toNat + 1 := by
  have hindex := t.next_index h
  cases hs : t.spends h with
  | false => exact Or.inl (UInt64.toNat_inj.1 (by simpa [hs] using hindex))
  | true =>
    have hroom := UInt64.le_iff_toNat_le.1 (room_of_spends hs)
    have hfits : h.layout.capacity < UInt64.size := h.layout.fits
    have hpos := h.layout.capacity_pos
    rw [Layout.maxIndex_toNat] at hroom
    refine Or.inr ⟨by omega, ?_⟩
    rw [hindex, hs]
    rfl

/-- A key is made or a copy breaks off, never both. -/
theorem spends_eq (t : Turn) (h : Handle) : (if t.spends h then 1 else 0) =
    (t.minted? h).toList.length + if t.breaksOff h then 1 else 0 := by
  have he := t.effect h
  unfold spends
  generalize t.next h = h', t.minted? h = minted?, t.breaksOff h = breaksOff at he ⊢
  cases he <;> rfl

theorem next_room (t : Turn) (h : Handle) :
    (t.next h).room + (if t.spends h then 1 else 0) = h.room := by
  have hindex := t.next_index h
  unfold Handle.room
  rw [(t.next_same h).layout, hindex]
  split
  · next hs =>
    have hroom := UInt64.le_iff_toNat_le.1 (room_of_spends hs)
    omega
  · rfl

end Turn

namespace Handle

theorem spent_cons (h : Handle) (t : Turn) (turns : List Turn) :
    h.spent (t :: turns) = (if t.spends h then 1 else 0) + (t.next h).spent turns := by
  rw [t.spends_eq h, spent, spent, minted, wasted, List.length_append]
  omega

/-- What is used up is taken off the room. -/
theorem after_room (h : Handle) (turns : List Turn) :
    (h.after turns).room + h.spent turns = h.room := by
  induction turns generalizing h with
  | nil => rfl
  | cons t turns ih =>
    have hstep := t.next_room h
    have hrest := ih (t.next h)
    rw [after_cons, spent_cons]
    omega

theorem after_index (h : Handle) (turns : List Turn) :
    (h.after turns).nextIndex.toNat = h.nextIndex.toNat + h.spent turns := by
  induction turns generalizing h with
  | nil => rfl
  | cons t turns ih =>
    have hstep := t.next_index h
    have hrest := ih (t.next h)
    rw [after_cons, spent_cons]
    omega

/-- A handle that is full stays where it is. -/
theorem after_full {h : Handle} (hfull : h.IsFull) (turns : List Turn) :
    (h.after turns).nextIndex = h.nextIndex := by
  have hroom := h.after_room turns
  have hindex := h.after_index turns
  rw [room_of_full hfull] at hroom
  apply UInt64.toNat_inj.1
  omega

theorem IsFull.after {h : Handle} (hfull : h.IsFull) (turns : List Turn) :
    (h.after turns).IsFull := by
  rw [IsFull, (h.after_same turns).layout, after_full hfull]
  exact hfull

end Handle

/-! ## At the wall -/

namespace Handle

variable {h : Handle} {name : String}

/-- What a full handle says when it is asked for a key. -/
def overflow (h : Handle) : Failure := .overflow ⟨h.nextIndex, h.layout.maxIndex⟩

theorem keyRefusal?_of_full (hfull : h.IsFull) (hlive : h.isDisposed = false)
    (hf : nameFault? name = none) : h.keyRefusal? name = some h.overflow := by
  have hcheck : h.layout.check h.nextIndex = .error ⟨h.nextIndex, h.layout.maxIndex⟩ :=
    if_pos hfull
  unfold keyRefusal?
  rw [hlive, hf, hcheck]
  rfl

theorem refusal?_of_full (hfull : h.IsFull) (hlive : h.isDisposed = false) {names : UsedNames}
    (hl : h.names = some names) (hf : nameFault? name = none) {loop? : Option LoopContext}
    (hu : loop? = none → name ∉ names) : h.refusal? name loop? = some h.overflow := by
  have hnew : ¬(loop? = none ∧ name ∈ names) := fun hused => hu hused.1 hused.2
  unfold refusal?
  rw [hf, hl]
  exact (if_neg hnew).trans (keyRefusal?_of_full hfull hlive hf)

end Handle

namespace HandleM

variable {store : FileStore} {live : List Identity} {flush : FileM Unit} {s : Scene}

/-- The content is written out, and then there is no key for it. -/
theorem reserve_full (store : FileStore) (hfull : s.handle.IsFull)
    (hlive : s.handle.isDisposed = false) {files : FileSystem}
    (hf : flush s.files = .ok () files) : reserve store flush s =
      .error s.handle.overflow { s with files, flushes := s.flushes + 1 } := by
  have hflushed : onFiles (.copyFailed store.key) flush { s with flushes := s.flushes + 1 } =
      .ok () { s with files, flushes := s.flushes + 1 } := onFiles_eq_ok.2 ⟨files, hf, rfl⟩
  have hrefused := Handle.keyRefusal?_of_full hfull hlive (s.handle.copyName_sound store.key)
  unfold reserve
  rw [bind_ok (modify_apply _ _), bind_ok hflushed, bind_ok (handle_apply _)]
  exact bind_error (allocate_refused hrefused)

theorem materializeCopy_full (hfull : s.handle.IsFull) (hlive : s.handle.isDisposed = false)
    (hmiss : s.handle.memory.find? store.key = none) {files : FileSystem}
    (hf : flush s.files = .ok () files) : ∃ s', materializeCopy store live flush s =
      .error s.handle.overflow s' ∧ s'.files = files ∧
        s'.handle = { s.handle with copies := some s.handle.memory } := by
  have hhandle := recalled_handle store.key live s
  have hreserve := reserve_full store (s := recalled store.key live s)
    (by rw [hhandle]; exact hfull) (by rw [hhandle]; exact hlive)
    (by rw [recalled_files]; exact hf)
  have huse := Recency.use_eq_none.2 hmiss
  have hcase := copyCase store live flush s
  generalize materializeCopy store live flush s = result at hcase
  cases hcase with
  | closed hd => simp [hlive] at hd
  | remembered _ hu => simp [huse] at hu
  | unreserved _ _ hr =>
    rw [hreserve, hhandle] at hr
    cases hr
    exact ⟨_, rfl, rfl, rfl⟩
  | broken _ _ hr =>
    rw [hreserve] at hr
    cases hr
  | made _ _ hr =>
    rw [hreserve] at hr
    cases hr

/-- Where a handle has its objects or waits for them, looking one up is settling down and then
going to its place; the next index does not come into it. -/
theorem objectPath_settles {key : Key} (howner : key.owner = s.handle.id)
    (hs : s.handle.storage ≠ .unassigned) (hroom : key.index ≤ s.handle.layout.maxIndex) :
    objectPath key s = (do
      let base ← settle
      return base.join (.ofComponents (s.handle.layout.names key)) : HandleM Path) s := by
  have hcheck := Layout.check_eq_ok.2 hroom
  cases hstorage : s.handle.storage with
  | unassigned => exact absurd hstorage hs
  | placed base =>
    rw [objectPath_placed howner hstorage hcheck, bind_ok (settle_placed hstorage)]
    rfl
  | restoring source =>
    cases hsettle : settle s with
    | ok base s' =>
      rw [objectPath_restoring howner hstorage hcheck hsettle, bind_ok hsettle]
      rfl
    | error e s' =>
      have hrestore : restore s = .error e s' := by
        unfold restore
        rw [bind_ok (handle_apply s), if_pos (by rw [Handle.isRestoring, hstorage])]
        exact bind_error hsettle
      rw [objectPath_eq howner, bind_error hrestore, bind_error hsettle]

end HandleM

/-- What a handle at the wall refuses and what it still does. -/
structure Scene.Walled (s : Scene) : Prop where
  create : ∀ name names, s.handle.isDisposed = false → s.handle.names = some names →
    nameFault? name = none → name ∉ names →
    HandleM.createObject name s = .error s.handle.overflow s
  createInLoop : ∀ name loop, s.handle.isDisposed = false → s.handle.isOpen →
    nameFault? name = none → HandleM.createInLoop name loop s = .error s.handle.overflow s
  /-- The files are as writing the content out has left them. -/
  copy : ∀ store live flush files, s.handle.isDisposed = false →
    s.handle.memory.find? store.key = none → flush s.files = .ok () files →
    ∃ s', HandleM.materializeCopy store live flush s = .error s.handle.overflow s' ∧
      s'.files = files ∧ s'.handle = { s.handle with copies := some s.handle.memory }
  remembered : ∀ store live flush key, s.handle.isDisposed = false →
    s.handle.memory.find? store.key = some key →
    ∃ s', HandleM.materializeCopy store live flush s = .ok key s' ∧ s'.files = s.files ∧
      s'.flushes = s.flushes ∧
      s'.handle = { s.handle with copies := some (s.handle.memory.put store.key key) }
  lookUp : ∀ key : Key, key.owner = s.handle.id → s.handle.storage ≠ .unassigned →
    key.index ≤ s.handle.layout.maxIndex → HandleM.objectPath key s = (do
      let base ← HandleM.settle
      return base.join (.ofComponents (s.handle.layout.names key)) : HandleM Path) s

theorem Scene.walled {s : Scene} (hfull : s.handle.IsFull) : s.Walled where
  create name names hlive hl hf hnew := by
    have hrefused : s.handle.refusal? name none = some s.handle.overflow :=
      Handle.refusal?_of_full hfull hlive hl hf fun _ => hnew
    exact HandleM.newObject_refused hrefused
  createInLoop name loop hlive hopen hf := by
    obtain ⟨names, hl⟩ := Option.isSome_iff_exists.1 hopen
    have hrefused : s.handle.refusal? name (some loop) = some s.handle.overflow :=
      Handle.refusal?_of_full hfull hlive hl hf nofun
    exact HandleM.newObject_refused hrefused
  copy _ _ _ _ hlive hmiss hf := HandleM.materializeCopy_full hfull hlive hmiss hf
  remembered store live flush key hlive hfound := by
    rw [HandleM.materializeCopy_remembered hlive hfound]
    exact ⟨_, rfl, HandleM.recalled_files .., HandleM.recalled_flushes .., rfl⟩
  lookUp _ howner hs hroom := HandleM.objectPath_settles howner hs hroom

/-! ## Keys that there are -/

/-- A handle that has made a key has its base directory. -/
theorem Turn.next_placed_of_minted {t : Turn} {h : Handle} {key : Key}
    (hk : t.minted? h = some key) : ∃ base, (t.next h).storage = .placed base := by
  have he := t.effect h
  rw [hk] at he
  generalize t.next h = h', t.breaksOff h = breaksOff at he
  cases he with
  | created => exact ⟨_, rfl⟩
  | copied => exact ⟨_, rfl⟩

namespace Handle

theorem disposed_of_request {h : Handle} {turns : List Turn} {t : Turn} (ht : t ∈ turns)
    (hr : t.request = .dispose) : (h.after turns).isDisposed := by
  obtain ⟨before, later, rfl⟩ := List.append_of_mem ht
  rw [after_append, after_cons]
  refine after_disposed ?_ later
  rw [Turn.next_dispose _ hr]
  rfl

theorem placed_of_minted {h : Handle} {turns : List Turn} {key : Key} (hk : key ∈ h.minted turns)
    (hlive : (h.after turns).isDisposed = false) : ∃ base, (h.after turns).storage = .placed base := by
  induction turns generalizing h with
  | nil => cases hk
  | cons t turns ih =>
    rcases List.mem_append.1 hk with hk | hk
    · obtain ⟨base, hbase⟩ := Turn.next_placed_of_minted (Option.mem_toList.1 hk)
      refine ⟨base, after_placed hbase fun u hu hr => ?_⟩
      have hd : ((t.next h).after turns).isDisposed := disposed_of_request hu hr
      rw [after_cons, hd] at hlive
      cases hlive
    · exact ih hk hlive

/-- The objects that a handle has made can be looked up until it is disposed of. -/
theorem objectPath_of_minted {h : Handle} {turns : List Turn} {key : Key}
    (hk : key ∈ h.minted turns) (hlive : (h.after turns).isDisposed = false) :
    ∃ base : Path, ∀ s : Scene, s.handle = h.after turns → HandleM.objectPath key s =
      .ok (base.join (.ofComponents (h.layout.names key))) s := by
  obtain ⟨base, hbase⟩ := placed_of_minted hk hlive
  have hsame := h.after_same turns
  refine ⟨base, fun s hs => ?_⟩
  rw [← hsame.layout, ← hs]
  refine HandleM.objectPath_placed ?_ (by rw [hs, hbase]) ?_
  · rw [hs, hsame.id]
    exact (minted_bounds hk).1
  · rw [hs, hsame.layout]
    exact check_of_minted hk

end Handle

/-- The room for keys is a wall. Whatever index a handle starts at, its turns use up no more than
the places that are left, and no addition wraps around; once none is left the index stays, every
request for a new key is refused with that index and the last one that there is, and changes
nothing, while copies that are remembered and objects that there are can still be had. -/
theorem capacity_wall (h : Handle) (turns : List Turn) :
    (h.minted turns).length + h.wasted turns ≤
        h.layout.maxIndex.toNat + 1 - h.nextIndex.toNat ∧
    (∀ t : Turn, (t.next (h.after turns)).nextIndex = (h.after turns).nextIndex ∨
      (h.after turns).nextIndex.toNat + 1 < UInt64.size ∧
      (t.next (h.after turns)).nextIndex.toNat = (h.after turns).nextIndex.toNat + 1) ∧
    (h.layout.maxIndex < (h.after turns).nextIndex → ∀ later,
      (h.after (turns ++ later)).nextIndex = (h.after turns).nextIndex ∧
      (∀ s : Scene, s.handle = h.after (turns ++ later) → s.Walled) ∧
      ∀ key ∈ h.minted (turns ++ later), (h.after (turns ++ later)).isDisposed = false →
        ∃ base : Path, ∀ s : Scene, s.handle = h.after (turns ++ later) →
          HandleM.objectPath key s =
            .ok (base.join (.ofComponents (h.layout.names key))) s) := by
  refine ⟨?_, fun t => t.next_index_exact _, ?_⟩
  · have hroom := h.after_room turns
    unfold Handle.room Handle.spent at hroom
    omega
  · intro hpast later
    have hfull : (h.after turns).IsFull := by
      rw [Handle.IsFull, (h.after_same turns).layout]
      exact hpast
    rw [h.after_append]
    refine ⟨Handle.after_full hfull later, ?_, ?_⟩
    · intro s hs
      exact Scene.walled (hs ▸ hfull.after later)
    · intro key hk hlive
      rw [← h.after_append] at hlive ⊢
      exact Handle.objectPath_of_minted hk hlive

/-- A handle with room for four keys, after four copies. -/
example : Sample.handle.layout.maxIndex <
    (Sample.handle.after ([0, 1, 2, 3].map Sample.ask)).nextIndex := by decide +kernel

namespace Sample

/-- The handle with room for one more object. -/
def nearly : Handle := { handle with nextIndex := 3 }

/-- The handle once it has made one more. -/
def wall : Scene := ⟨nearly.after [ask 0], files, .byName, [], 0⟩

end Sample

theorem capacity_wall_sample : ∃ s',
    HandleM.materializeCopy ⟨Sample.foreign 1, ⟨"/a"⟩⟩ [] (pure ()) Sample.wall =
      .error (.overflow ⟨4, 3⟩) s' ∧ s'.files = Sample.files := by
  obtain ⟨-, -, hwall⟩ := capacity_wall Sample.nearly [Sample.ask 0]
  obtain ⟨-, hwalled, -⟩ := hwall (by decide +kernel) []
  have hthere : Sample.wall.handle = Sample.nearly.after ([Sample.ask 0] ++ []) := by
    rw [List.append_nil, Sample.wall]
  have hlive : Sample.wall.handle.isDisposed = false := by decide +kernel
  have hmiss : Sample.wall.handle.memory.find? (Sample.foreign 1) = none := by decide +kernel
  have hfull : Sample.wall.handle.overflow = .overflow ⟨4, 3⟩ := by decide +kernel
  obtain ⟨s', hrefused, hfiles, -⟩ := (hwalled Sample.wall hthere).copy ⟨Sample.foreign 1, ⟨"/a"⟩⟩
    [] (pure ()) Sample.files hlive hmiss rfl
  exact ⟨s', hrefused.trans (by rw [hfull]), hfiles⟩

end Depot
