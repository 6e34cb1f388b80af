import Depot.Proofs.Session.Ownership

/-! What the copies are that a handle remembers. Only a turn that copies an object puts a new key in
front, a remembered one comes to the front again, and disposal forgets all of them, so every key
goes back to the turn that made it. -/

namespace Depot

open Work

/-- The turn makes a key as a copy of an object: it is asked for a copy, reserves the key and its
place, and the content is copied there. -/
structure Turn.Copies (t : Turn) (h : Handle) (foreign key : Key) : Prop where
  minted : t.minted? h = some key
  copied : ∃ path flush, t.asked? h = some (⟨foreign, path⟩, flush) ∧ ∃ target s count files,
    HandleM.reserve ⟨foreign, path⟩ flush
      (HandleM.recalled foreign (t.live h) (t.scene h)) = .ok (key, target) s ∧
    FileM.copyTree path target s.order s.files = .ok count files

/-! ## One turn -/

namespace Turn

/-- What becomes of the copies that are remembered. -/
inductive MemoryCase (t : Turn) (h : Handle) : Recency Key Key → Prop where
  | kept : MemoryCase t h h.memory
  | renewed {foreign key : Key} : (foreign, key) ∈ h.memory.entries →
      MemoryCase t h (h.memory.put foreign key)
  | copied {foreign key : Key} : t.Copies h foreign key →
      MemoryCase t h (h.memory.put foreign key)
  | emptied : MemoryCase t h (.empty h.settings.copyLimit.toNat)

variable {t : Turn} {h : Handle} {store : FileStore} {flush : FileM Unit} {foreign key : Key}

/-- A key that is answered for a copy that was not remembered stands for content that was copied. -/
theorem copies_of_forgotten (ha : t.asked? h = some (store, flush))
    (hu : h.memory.use store.key = none) (hans : answer (t.outcome h) = .ok (.key key))
    (hm : t.minted? h = some key) : t.Copies h store.key key := by
  rw [answer_of_asked ha] at hans
  have hcase := HandleM.copyCase store (t.live h) flush (t.scene h)
  generalize HandleM.materializeCopy store (t.live h) flush (t.scene h) = result at hcase hans
  cases hcase with
  | made _ _ hreserve hcopy =>
    cases hans
    exact ⟨hm, store.path, flush, ha, _, _, _, _, hreserve, hcopy⟩
  | remembered _ hfound =>
    have hfound' : h.memory.use store.key = some _ := hfound
    simp [hu] at hfound'
  | _ => cases hans

theorem memoryCase (t : Turn) (h : Handle) : MemoryCase t h (t.next h).memory := by
  have he := t.effect h
  generalize hnext : t.next h = h', hm : t.minted? h = minted?, t.breaksOff h = breaksOff at he ⊢
  cases he with
  | settled _ hmoves =>
    rw [hmoves.memory]
    exact .kept
  | unreserved _ _ _ _ hmoves =>
    rw [hmoves.memory]
    exact .kept
  | disposed => exact .emptied
  | remembered _ _ hu =>
    obtain ⟨hf, rfl⟩ := Recency.use_eq_some.1 hu
    exact .renewed (Recency.find?_mem hf)
  | copied ha _ hu hans => exact .copied (copies_of_forgotten ha hu hans hm)
  | _ => exact .kept

/-- A turn that is asked for a copy and fails leaves what is remembered as it was. -/
theorem next_memory_of_error {e : Failure} (ha : t.asked? h = some (store, flush))
    (he : answer (t.outcome h) = .error e) : (t.next h).memory = h.memory := by
  have heffect := t.effect h
  generalize t.next h = h', t.minted? h = minted?, t.breaksOff h = breaksOff at heffect ⊢
  cases heffect with
  | settled _ hmoves => exact hmoves.memory
  | unreserved _ _ _ _ hmoves => exact hmoves.memory
  | disposed hr => simp [asked?, hr] at ha
  | remembered _ _ _ hans => simp [he] at hans
  | copied _ _ _ hans => simp [he] at hans
  | _ => rfl

theorem mem_next_memory {p : Key × Key} (hp : p ∈ (t.next h).memory.entries) :
    p ∈ h.memory.entries ∨ t.Copies h p.1 p.2 := by
  have hcase := t.memoryCase h
  generalize (t.next h).memory = memory at hcase hp
  cases hcase with
  | kept => exact Or.inl hp
  | renewed hmem =>
    rcases Recency.mem_put hp with rfl | hp
    · exact Or.inl hmem
    · exact Or.inl hp
  | copied hcopies =>
    rcases Recency.mem_put hp with rfl | hp
    · exact Or.inr hcopies
    · exact Or.inl hp
  | emptied => cases hp

end Turn

/-- The copies that are remembered are of different objects, and as many as the settings allow. -/
structure Handle.Limited (h : Handle) : Prop where
  distinct : h.memory.Distinct
  limit : h.memory.limit = max h.settings.copyLimit.toNat 1

theorem Turn.next_limited {t : Turn} {h : Handle} (hl : h.Limited) : (t.next h).Limited := by
  have hcase := t.memoryCase h
  have hsettings := (t.next_same h).settings
  suffices hmemory : (t.next h).memory.Distinct ∧
      (t.next h).memory.limit = max h.settings.copyLimit.toNat 1 by
    refine ⟨hmemory.1, ?_⟩
    rw [hmemory.2, hsettings]
  generalize (t.next h).memory = memory at hcase
  cases hcase with
  | kept => exact ⟨hl.distinct, hl.limit⟩
  | renewed => exact ⟨hl.distinct.put _ _, hl.limit⟩
  | copied => exact ⟨hl.distinct.put _ _, hl.limit⟩
  | emptied => exact ⟨Recency.distinct_empty _, rfl⟩

namespace Turn.Copies

variable {t : Turn} {h : Handle} {foreign key : Key}

/-- The key belongs to the handle, takes its next index, and is named after that and the object. -/
theorem key_eq (hc : t.Copies h foreign key) : key.owner = h.id ∧ key.index = h.nextIndex ∧
    key.loop = .empty ∧ key.name.text = toString key.index.toNat ++ "_" ++ foreign.name.text := by
  obtain ⟨-, path, flush, -, target, s, count, files, hreserve, -⟩ := hc
  obtain ⟨files', base, dir, -, ha, -⟩ := HandleM.reserve_eq_ok hreserve
  obtain ⟨howner, hindex, hloop, hname, -⟩ := HandleM.allocate_ok ha
  dsimp only at howner hindex
  rw [HandleM.recalled_handle] at howner hindex hname
  refine ⟨howner, hindex, hloop, ?_⟩
  rw [hname, hindex]
  rfl

/-- A turn copies one object at most. -/
theorem foreign_eq {foreign' key' : Key} (hc : t.Copies h foreign key)
    (hc' : t.Copies h foreign' key') : foreign = foreign' := by
  obtain ⟨-, path, flush, ha, -⟩ := hc
  obtain ⟨-, path', flush', ha', -⟩ := hc'
  rw [ha] at ha'
  cases ha'
  rfl

end Turn.Copies

/-! ## Runs -/

namespace Handle

variable {h : Handle} {turns : List Turn}

theorem Limited.after (hl : h.Limited) (turns : List Turn) : (h.after turns).Limited := by
  induction turns generalizing h with
  | nil => exact hl
  | cons t turns ih => exact ih (Turn.next_limited hl)

theorem Admitted.limited (hadm : h.Admitted) : h.Limited where
  distinct := hadm.distinct
  limit := by
    rw [memory, hadm.copies]
    rfl

/-- One of the turns makes a key as a copy of an object. -/
def MadeIn (h : Handle) (turns : List Turn) (foreign key : Key) : Prop :=
  ∃ before t later, turns = before ++ t :: later ∧ t.Copies (h.after before) foreign key

theorem MadeIn.append {foreign key : Key} (hm : h.MadeIn turns foreign key) (more : List Turn) :
    h.MadeIn (turns ++ more) foreign key := by
  obtain ⟨before, t, later, rfl, hc⟩ := hm
  exact ⟨before, t, later ++ more, by simp, hc⟩

theorem madeIn_cons {t : Turn} {foreign key : Key} (hm : (t.next h).MadeIn turns foreign key) :
    h.MadeIn (t :: turns) foreign key := by
  obtain ⟨before, u, later, rfl, hc⟩ := hm
  exact ⟨t :: before, u, later, rfl, hc⟩

/-- What is remembered was so from the start, or has been made since. -/
theorem mem_after_memory {p : Key × Key} (hp : p ∈ (h.after turns).memory.entries) :
    p ∈ h.memory.entries ∨ h.MadeIn turns p.1 p.2 := by
  induction turns generalizing h with
  | nil => exact Or.inl hp
  | cons t turns ih =>
    rcases ih hp with hp | hm
    · rcases Turn.mem_next_memory hp with hp | hc
      · exact Or.inl hp
      · exact Or.inr ⟨[], t, turns, rfl, hc⟩
    · exact Or.inr (madeIn_cons hm)

theorem Admitted.madeIn (hadm : h.Admitted) {p : Key × Key}
    (hp : p ∈ (h.after turns).memory.entries) : h.MadeIn turns p.1 p.2 := by
  rcases mem_after_memory hp with hp | hm
  · simp [memory, hadm.copies, Recency.empty] at hp
  · exact hm

theorem MadeIn.mem_minted {foreign key : Key} (hm : h.MadeIn turns foreign key) :
    key ∈ h.minted turns := by
  obtain ⟨before, t, later, rfl, hc⟩ := hm
  rw [minted_append, minted, hc.minted]
  simp

/-- An index that was used up does not come again. -/
theorem index_lt_of_copies {before later : List Turn} {t u : Turn} {foreign key foreign' key' : Key}
    (hc : t.Copies (h.after before) foreign key)
    (hc' : u.Copies (h.after (before ++ t :: later)) foreign' key') :
    key.index.toNat < key'.index.toNat := by
  have hstep := t.next_index (h.after before)
  have hrest := (t.next (h.after before)).le_after later
  have hlater : h.after (before ++ t :: later) = (t.next (h.after before)).after later := by
    rw [after_append]
    rfl
  simp only [Turn.spends, hc.minted, Option.isSome_some, Bool.true_or, ↓reduceIte] at hstep
  rw [hc.key_eq.2.1, hc'.key_eq.2.1, hlater]
  omega

theorem foreign_eq_of_copies {before between later later' : List Turn} {t u : Turn}
    {foreign key foreign' key' : Key} (hc : t.Copies (h.after before) foreign key)
    (hc' : u.Copies (h.after (before ++ between)) foreign' key')
    (hrest : t :: later = between ++ u :: later') (hindex : key.index = key'.index) :
    foreign = foreign' := by
  cases between with
  | nil =>
    obtain ⟨rfl, -⟩ := List.cons.inj hrest
    rw [List.append_nil] at hc'
    exact hc.foreign_eq hc'
  | cons v between =>
    obtain ⟨rfl, -⟩ := List.cons.inj hrest
    have hlt := index_lt_of_copies hc hc'
    rw [hindex] at hlt
    exact absurd hlt (Nat.lt_irrefl _)

/-- A key is made for one object: of two turns that make one key neither comes before the other. -/
theorem MadeIn.foreign_eq {foreign key foreign' key' : Key} (hm : h.MadeIn turns foreign key)
    (hm' : h.MadeIn turns foreign' key') (hindex : key.index = key'.index) :
    foreign = foreign' := by
  obtain ⟨before, t, later, rfl, hc⟩ := hm
  obtain ⟨before', t', later', heq, hc'⟩ := hm'
  rcases List.append_eq_append_iff.1 heq with ⟨between, rfl, hrest⟩ | ⟨between, rfl, hrest⟩
  · exact foreign_eq_of_copies hc hc' hrest hindex
  · exact (foreign_eq_of_copies hc' hc hrest hindex.symm).symm

/-- What the copies are that a handle remembers some turns after it was taken up. -/
structure Vouches (h : Handle) (turns : List Turn) : Prop where
  few : (h.after turns).memory.entries.length ≤ h.settings.copyLimit.toNat
  counted : (h.after turns).copiedCount = (h.after turns).memory.entries.length
  foreign : ((h.after turns).memory.entries.map (·.1)).Nodup
  /-- A key stands for one object, now and at any time before. -/
  single : ∀ earlier, earlier <+: turns → ∀ p ∈ (h.after earlier).memory.entries,
    ∀ q ∈ (h.after turns).memory.entries, p.2.index = q.2.index → p.1 = q.1
  made : ∀ p ∈ (h.after turns).memory.entries, h.MadeIn turns p.1 p.2
  keys : ∀ p ∈ (h.after turns).memory.entries, p.2 ∈ h.minted turns ∧ p.2.owner = h.id ∧
    p.2.index < (h.after turns).nextIndex ∧ p.2.loop = .empty ∧
    p.2.name.text = toString p.2.index.toNat ++ "_" ++ p.1.name.text
  /-- A request for a copy that fails leaves them as they are. -/
  failed : ∀ (t : Turn) asked e, t.asked? (h.after turns) = some asked →
    answer (t.outcome (h.after turns)) = .error e →
    (t.next (h.after turns)).memory = (h.after turns).memory

theorem Admitted.vouches (hadm : h.Admitted) (turns : List Turn) : h.Vouches turns where
  few := by
    have hlimited := hadm.limited.after turns
    have hbounded := (h.after turns).memory.bounded
    rw [hlimited.limit, (h.after_same turns).settings, ← hadm.limited.limit,
      hadm.memory_limit] at hbounded
    exact hbounded
  counted := by
    unfold copiedCount memory
    cases (h.after turns).copies <;> rfl
  foreign := (hadm.limited.after turns).distinct
  single earlier hpre p hp q hq hindex := by
    obtain ⟨more, rfl⟩ := hpre
    exact ((hadm.madeIn hp).append more).foreign_eq (hadm.madeIn hq) hindex
  made p hp := hadm.madeIn hp
  keys p hp := by
    have hm := hadm.madeIn hp
    have hdated := after_dated hadm.dated turns p hp
    refine ⟨hm.mem_minted, (minted_bounds hm.mem_minted).1, UInt64.lt_iff_toNat_lt.2 hdated, ?_⟩
    obtain ⟨before, t, later, -, hc⟩ := hm
    exact hc.key_eq.2.2
  failed _ _ _ ha he := Turn.next_memory_of_error ha he

end Handle

/-- Remembered copies are what they are said to be. Every handle that is held was taken up some
turns ago, and after any turns of a handle the copies that it remembers are those that it made. -/
theorem copies_vouched :
    (∀ files order systemTemp acts (slot : String) (held : Held),
      ((Session.start files order systemTemp).after acts).held[slot]? = some held →
        ∃ h turns, h.Admitted ∧ h.id = held.handle.id ∧ held.handle = Handle.after h turns) ∧
    ∀ h : Handle, h.Admitted → ∀ turns, h.Vouches turns := by
  refine ⟨?_, fun h hadm turns => hadm.vouches turns⟩
  intro files order systemTemp acts slot held hheld
  obtain ⟨h, turns, hadm, hturns⟩ :=
    Session.raised_after files order systemTemp acts slot held hheld
  refine ⟨h, turns, hadm, ?_, hturns⟩
  rw [hturns]
  exact (h.after_same turns).id.symm

example : (Sample.handle.after [Sample.ask 0, Sample.ask 1]).memory.entries.map (·.1) =
    [Sample.foreign 1, Sample.foreign 0] := by decide +kernel

theorem copies_vouched_sample : (Sample.foreign 0, Sample.copy) ∈
      (Sample.handle.after [Sample.ask 0]).memory.entries ∧
    Sample.handle.MadeIn [Sample.ask 0] (Sample.foreign 0) Sample.copy := by
  have hremembered : (Sample.foreign 0, Sample.copy) ∈
      (Sample.handle.after [Sample.ask 0]).memory.entries := by decide +kernel
  exact ⟨hremembered, (copies_vouched.2 Sample.handle Sample.admitted [Sample.ask 0]).made _
    hremembered⟩

end Depot
