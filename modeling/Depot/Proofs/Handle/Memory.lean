import Depot.Proofs.Files.Directories
import Depot.Proofs.Handle.Indices
import Depot.Proofs.Recency

/-! Which copies a handle remembers after a run. Every request for a copy that succeeds, whether the
copy was made or remembered, puts its object in front; nothing else touches the order. -/

namespace Depot

open Work

/-- A handle as it is when it is taken up. -/
structure Handle.Admitted (h : Handle) : Prop where
  valid : h.settings.validate = .ok h.layout
  fresh : h.lifecycle = .fresh
  names : h.names = none
  copies : h.copies = none

theorem SessionM.takeUp_admitted {slot registry : String} {settings : Settings}
    {saved : SavedHandle} {storage : Storage} {h : Handle} {s s' : Session}
    (hs : takeUp slot registry settings saved storage s = .ok h s') : h.Admitted := by
  obtain ⟨layout, hv, rfl⟩ := takeUp_ok hs
  exact ⟨hv, rfl, rfl, rfl⟩

/-! ## One turn -/

namespace Handle

theorem Moves.isDisposed {h h' : Handle} (hm : h.Moves h') : h'.isDisposed = h.isDisposed := by
  obtain ⟨storage, rfl⟩ := hm
  rfl

theorem Moves.memory {h h' : Handle} (hm : h.Moves h') : h'.memory = h.memory := by
  obtain ⟨storage, rfl⟩ := hm
  rfl

/-- Every copy that is remembered was made before the index got where it is. -/
def Dated (h : Handle) : Prop :=
  ∀ p ∈ h.memory.entries, p.2.index.toNat < h.nextIndex.toNat

end Handle

namespace Turn

/-- The object that the turn asks a copy of, and the key it gets. -/
def served? (t : Turn) (h : Handle) : Option (Key × Key) :=
  match t.asked? h, answer (t.outcome h) with
  | some (store, _), .ok (.key key) => some (store.key, key)
  | _, _ => none

section Served

variable {t : Turn} {h : Handle} {store : FileStore} {flush : FileM Unit}

theorem served?_of_unasked (ha : t.asked? h = none) : t.served? h = none := by
  rw [served?, ha]

theorem served?_of_key (ha : t.asked? h = some (store, flush)) {key : Key}
    (hk : answer (t.outcome h) = .ok (.key key)) : t.served? h = some (store.key, key) := by
  rw [served?, ha, hk]

theorem served?_of_error (ha : t.asked? h = some (store, flush)) {e : Failure}
    (he : answer (t.outcome h) = .error e) : t.served? h = none := by
  rw [served?, ha, he]

end Served

/-- There is no way back from disposal. -/
theorem next_disposed {t : Turn} {h : Handle} (hd : h.isDisposed) : (t.next h).isDisposed := by
  have he := t.effect h
  generalize t.next h = h', t.minted? h = minted?, t.breaksOff h = breaksOff at he ⊢
  cases he with
  | settled _ hm => rwa [hm.isDisposed]
  | reopened _ hn => simp [hn] at hd
  | closed _ => rwa [Handle.close_isDisposed]
  | disposed _ => rfl
  | created _ hn _ => simp [hn] at hd
  | refused _ _ => exact hd
  | remembered _ hn _ _ => simp [hn] at hd
  | unreserved _ hn _ _ _ => simp [hn] at hd
  | broken _ hn _ _ _ => simp [hn] at hd
  | copied _ hn _ _ _ => simp [hn] at hd

theorem next_memory {t : Turn} {h : Handle} (hlive : (t.next h).isDisposed = false) :
    (t.next h).memory = h.memory.putAll (t.served? h).toList := by
  have he := t.effect h
  generalize t.next h = h', t.minted? h = minted?, t.breaksOff h = breaksOff at he hlive ⊢
  cases he with
  | settled ha hm =>
    rw [served?_of_unasked ha, hm.memory]
    rfl
  | reopened hr =>
    rw [served?_of_unasked (by rw [asked?, hr])]
    rfl
  | closed hr =>
    rw [served?_of_unasked (by rw [asked?, hr])]
    rfl
  | disposed _ => cases hlive
  | created ha _ _ =>
    rw [served?_of_unasked ha]
    rfl
  | refused _ hd => simp [hd] at hlive
  | remembered ha _ hu hk =>
    rw [served?_of_key ha hk]
    exact (Recency.use_eq_some.1 hu).2
  | unreserved ha _ _ he hm =>
    rw [served?_of_error ha he, hm.memory]
    rfl
  | broken ha _ _ he _ =>
    rw [served?_of_error ha he]
    rfl
  | copied ha _ _ hk _ =>
    rw [served?_of_key ha hk]
    rfl

/-- The key of a copy is older than the index it leaves, and so are those that are remembered. -/
theorem next_dated {t : Turn} {h : Handle} (hdated : h.Dated) : (t.next h).Dated ∧
    ∀ p, t.served? h = some p → p.2.index.toNat < (t.next h).nextIndex.toNat := by
  have he := t.effect h
  have hindex := t.next_index h
  unfold spends at hindex
  have hkeep : ∀ p ∈ h.memory.entries, p.2.index.toNat < (t.next h).nextIndex.toNat := by
    intro p hp
    have hlt := hdated p hp
    omega
  generalize t.next h = h', t.minted? h = minted?, t.breaksOff h = breaksOff at he hindex hkeep ⊢
  cases he with
  | settled ha hm =>
    refine ⟨?_, by simp [served?_of_unasked ha]⟩
    intro p hp
    rw [hm.memory] at hp
    exact hkeep p hp
  | reopened hr =>
    have ha : t.asked? h = none := by rw [asked?, hr]
    exact ⟨hkeep, by simp [served?_of_unasked ha]⟩
  | closed hr =>
    have ha : t.asked? h = none := by rw [asked?, hr]
    exact ⟨hkeep, by simp [served?_of_unasked ha]⟩
  | disposed hr =>
    have ha : t.asked? h = none := by rw [asked?, hr]
    exact ⟨by simp [Handle.Dated, Handle.memory, Recency.empty], by simp [served?_of_unasked ha]⟩
  | created ha _ _ => exact ⟨hkeep, by simp [served?_of_unasked ha]⟩
  | @refused asked ha hd =>
    have hs : t.served? h = none := by
      have hans := answer_of_asked ha
      rw [HandleM.materializeCopy, bind_error
        (HandleM.refuseDisposed_eq_error (s := t.scene h).2 ⟨hd, rfl, rfl⟩)] at hans
      exact served?_of_error ha hans
    exact ⟨hkeep, by simp [hs]⟩
  | @remembered store flush key memory ha _ hu hk =>
    obtain ⟨hf, rfl⟩ := Recency.use_eq_some.1 hu
    have hold : key.index.toNat < h.nextIndex.toNat := hdated _ (Recency.find?_mem hf)
    refine ⟨?_, by simpa [served?_of_key ha hk] using hold⟩
    intro p hp
    rcases Recency.mem_put hp with rfl | hp
    · exact hold
    · exact hkeep p hp
  | unreserved ha _ _ he hm =>
    refine ⟨?_, by simp [served?_of_error ha he]⟩
    intro p hp
    rw [hm.memory] at hp
    exact hkeep p hp
  | broken ha _ _ he _ => exact ⟨hkeep, by simp [served?_of_error ha he]⟩
  | @copied store flush key base ha _ _ hk hm =>
    have hnew : key.index.toNat < (h.nextIndex + 1).toNat := by
      rw [hm.index, Layout.toNat_succ hm.room]
      omega
    refine ⟨?_, by simpa [served?_of_key ha hk] using hnew⟩
    intro p hp
    rcases Recency.mem_put hp with rfl | hp
    · exact hnew
    · exact hkeep p hp

end Turn

/-! ## Runs -/

namespace Handle

/-- The objects of which copies were asked for with success, and the keys they got, oldest first. -/
def served (h : Handle) : List Turn → List (Key × Key)
  | [] => []
  | t :: turns => (t.served? h).toList ++ (t.next h).served turns

theorem served_append (h : Handle) (l₁ l₂ : List Turn) :
    h.served (l₁ ++ l₂) = h.served l₁ ++ (h.after l₁).served l₂ := by
  induction l₁ generalizing h with
  | nil => rfl
  | cons t l₁ ih =>
    rw [List.cons_append, served, ih, served, List.append_assoc]
    rfl

theorem after_disposed {h : Handle} (hd : h.isDisposed) (turns : List Turn) :
    (h.after turns).isDisposed := by
  induction turns generalizing h with
  | nil => exact hd
  | cons t turns ih => exact ih (Turn.next_disposed hd)

theorem live_of_after {h : Handle} {turns : List Turn} (hlive : (h.after turns).isDisposed = false) :
    h.isDisposed = false := by
  cases hd : h.isDisposed with
  | false => rfl
  | true => simp [after_disposed hd turns] at hlive

/-- What is remembered at the end of a run is what its successes put in. -/
theorem after_memory {h : Handle} {turns : List Turn} (hlive : (h.after turns).isDisposed = false) :
    (h.after turns).memory = h.memory.putAll (h.served turns) := by
  induction turns generalizing h with
  | nil => rfl
  | cons t turns ih =>
    have hnext : (t.next h).isDisposed = false := live_of_after hlive
    rw [served, Recency.putAll_append, ← Turn.next_memory hnext]
    exact ih hlive

theorem after_dated {h : Handle} (hdated : h.Dated) (turns : List Turn) :
    (h.after turns).Dated := by
  induction turns generalizing h with
  | nil => exact hdated
  | cons t turns ih => exact ih (Turn.next_dated hdated).1

namespace Admitted

variable {h : Handle}

theorem dated (hadm : h.Admitted) : h.Dated := by
  intro p hp
  rw [memory, hadm.copies] at hp
  cases hp

theorem distinct (hadm : h.Admitted) : h.memory.Distinct := by
  rw [memory, hadm.copies]
  exact Recency.distinct_empty _

/-- Settings that hold good leave room for a copy, so the limit is as it is set. -/
theorem memory_limit (hadm : h.Admitted) : h.memory.limit = h.settings.copyLimit.toNat := by
  have hvalid := hadm.valid
  unfold Settings.validate at hvalid
  split at hvalid
  · cases hvalid
  · next hne =>
    have hpos : h.settings.copyLimit.toNat ≠ 0 := fun h0 => hne (UInt64.toNat_inj.1 h0)
    rw [memory, hadm.copies]
    change max _ 1 = _
    omega

end Admitted

end Handle

/-! ## Asking again -/

/-- A copy that is remembered comes to the front, and that is all. -/
theorem HandleM.materializeCopy_remembered {store : FileStore} {live : List Identity}
    {flush : FileM Unit} {s : Scene} (hlive : s.handle.isDisposed = false) {key : Key}
    (hf : s.handle.memory.find? store.key = some key) : materializeCopy store live flush s =
      .ok key { recalled store.key live s with
        handle := { s.handle with copies := some (s.handle.memory.put store.key key) } } := by
  have huse := Recency.use_eq_some.2 ⟨hf, rfl⟩
  have hcase := copyCase store live flush s
  generalize materializeCopy store live flush s = result at hcase ⊢
  cases hcase with
  | closed hd => simp [hlive] at hd
  | remembered _ hu =>
    rw [huse] at hu
    cases hu
    rfl
  | unreserved _ hu => simp [huse] at hu
  | broken _ hu => simp [huse] at hu
  | made _ hu => simp [huse] at hu

namespace Turn

variable {t : Turn} {h : Handle} {store : FileStore} {flush : FileM Unit}

/-- A copy that is remembered is answered, and nothing but the order of the copies changes. -/
theorem outcome_of_remembered (ha : t.asked? h = some (store, flush))
    (hlive : h.isDisposed = false) {key : Key} (hf : h.memory.find? store.key = some key) :
    answer (t.outcome h) = .ok (.key key) ∧
      (left (t.outcome h)).files = t.session.files ∧
      (left (t.outcome h)).flushes = t.session.flushes ∧
      t.next h = { h with copies := some (h.memory.put store.key key) } := by
  have hans := answer_of_asked ha
  have hleft := left_of_asked ha
  have hnext := next_of_asked ha
  rw [HandleM.materializeCopy_remembered (s := t.scene h) hlive hf] at hans hleft hnext
  exact ⟨hans, hleft.1.trans (HandleM.recalled_files ..),
    hleft.2.trans (HandleM.recalled_flushes ..), hnext⟩

/-- A copy that is not remembered has the content written out once and, if it is made, a new key. -/
theorem outcome_of_forgotten (ha : t.asked? h = some (store, flush))
    (hlive : h.isDisposed = false) (hf : h.memory.find? store.key = none) :
    (left (t.outcome h)).flushes = t.session.flushes + 1 ∧
      (∀ key, answer (t.outcome h) = .ok (.key key) → key.index = h.nextIndex) ∧
      ∀ cause files, flush t.session.files = .error cause files →
        answer (t.outcome h) = .error (.copyFailed store.key cause) ∧
          (left (t.outcome h)).files = files := by
  have hans := answer_of_asked ha
  have hleft := left_of_asked ha
  have hcase := HandleM.copyCase store (t.live h) flush (t.scene h)
  have huse : h.memory.use store.key = none := Recency.use_eq_none.2 hf
  have hflush := HandleM.reserve_flushes store flush
    (HandleM.recalled store.key (t.live h) (t.scene h))
  have hfail : ∀ cause files, flush t.session.files = .error cause files →
      HandleM.reserve store flush (HandleM.recalled store.key (t.live h) (t.scene h)) =
        .error (.copyFailed store.key cause)
          { HandleM.recalled store.key (t.live h) (t.scene h) with
            files
            flushes := (HandleM.recalled store.key (t.live h) (t.scene h)).flushes + 1 } := by
    intro cause files he
    apply HandleM.reserve_of_flush_error
    rw [HandleM.recalled_files]
    exact he
  rw [HandleM.recalled_flushes] at hflush
  generalize HandleM.materializeCopy store (t.live h) flush (t.scene h) = result at *
  cases hcase with
  | closed hd => exact absurd hd (by simp [scene, hlive])
  | remembered _ hu =>
    have hu' : h.memory.use store.key = some _ := hu
    simp [huse] at hu'
  | unreserved _ _ hr =>
    rw [hr] at hflush
    refine ⟨hleft.2.trans hflush, ?_, ?_⟩
    · intro key hk
      rw [hans] at hk
      cases hk
    · intro cause files he
      rw [hfail cause files he] at hr
      cases hr
      exact ⟨hans, hleft.1⟩
  | broken _ _ hr _ =>
    rw [hr] at hflush
    refine ⟨hleft.2.trans hflush, ?_, ?_⟩
    · intro key hk
      rw [hans] at hk
      cases hk
    · intro cause files he
      rw [hfail cause files he] at hr
      cases hr
  | made _ _ hr _ =>
    rw [hr] at hflush
    refine ⟨hleft.2.trans hflush, ?_, ?_⟩
    · intro key hk
      rw [hans] at hk
      cases hk
      obtain ⟨hmint, -⟩ := HandleM.reserve_mints hr
      rw [HandleM.recalled_handle] at hmint
      exact hmint.index
    · intro cause files he
      rw [hfail cause files he] at hr
      cases hr

end Turn

/-- One copy of an object, as long as fewer than `copyLimit` others have been asked for since it was
last asked for: then it is answered again, wherever its content is said to be and whatever writing
that out would do. After that many it is forgotten, and if there is a copy it is another one. -/
theorem copied_once {h : Handle} (hadm : h.Admitted) {earlier since : List Turn} {last again : Turn}
    {foreign key : Key} {store : FileStore} {flush : FileM Unit}
    (hlast : last.served? (h.after earlier) = some (foreign, key))
    (hsince : ∀ p ∈ (h.after (earlier ++ [last])).served since, p.1 ≠ foreign)
    (hlive : (h.after (earlier ++ [last] ++ since)).isDisposed = false)
    (hagain : again.asked? (h.after (earlier ++ [last] ++ since)) = some (store, flush))
    (hkey : store.key = foreign) :
    let now := h.after (earlier ++ [last] ++ since)
    let others := (((h.after (earlier ++ [last])).served since).map (·.1)).toFinset
    (others.card < h.settings.copyLimit.toNat →
      answer (again.outcome now) = .ok (.key key) ∧
      (left (again.outcome now)).files = again.session.files ∧
      (left (again.outcome now)).flushes = again.session.flushes ∧
      ∃ memory, again.next now = { now with copies := some memory } ∧
        memory.entries.Perm now.memory.entries ∧ memory.limit = now.memory.limit) ∧
    (h.settings.copyLimit.toNat ≤ others.card →
      answer (again.outcome now) ≠ .ok (.key key) ∧
      (left (again.outcome now)).flushes = again.session.flushes + 1 ∧
      ∀ cause files, flush again.session.files = .error cause files →
        answer (again.outcome now) = .error (.copyFailed foreign cause) ∧
          (left (again.outcome now)).files = files) := by
  intro now others
  subst hkey
  have hserved : h.served (earlier ++ [last] ++ since) =
      h.served earlier ++ (store.key, key) :: (h.after (earlier ++ [last])).served since := by
    rw [Handle.served_append, Handle.served_append, List.append_assoc]
    simp only [Handle.served, hlast, Option.toList_some, List.append_nil, List.cons_append,
      List.nil_append]
  have hmemory : now.memory = ((h.memory.putAll (h.served earlier)).put store.key key).putAll
      ((h.after (earlier ++ [last])).served since) := by
    rw [Handle.after_memory hlive, hserved, Recency.putAll_append]
    rfl
  have hlimit : (h.memory.putAll (h.served earlier)).limit = h.settings.copyLimit.toNat := by
    rw [Recency.putAll_limit, hadm.memory_limit]
  have hfind : now.memory.find? store.key =
      if others.card < h.settings.copyLimit.toNat then some key else none := by
    rw [hmemory, ← hlimit]
    exact Recency.find?_putAll _ _ _ _ hsince
  have hdistinct : now.memory.Distinct := by
    rw [Handle.after_memory hlive]
    exact hadm.distinct.putAll _
  have hold : key.index.toNat < now.nextIndex.toNat := by
    have hdated := Handle.after_dated hadm.dated earlier
    have hlt := (Turn.next_dated (t := last) hdated).2 _ hlast
    have hle := (h.after (earlier ++ [last])).le_after since
    rw [← Handle.after_append, Handle.after_append h earlier] at hle
    exact Nat.lt_of_lt_of_le hlt hle
  constructor
  · intro hfew
    rw [if_pos hfew] at hfind
    obtain ⟨hans, hfiles, hflushes, hnext⟩ := Turn.outcome_of_remembered hagain hlive hfind
    have hperm := hdistinct.perm_of_use (Recency.use_eq_some.2 ⟨hfind, rfl⟩)
    exact ⟨hans, hfiles, hflushes, _, hnext, hperm⟩
  · intro hmany
    rw [if_neg (by omega)] at hfind
    obtain ⟨hflushes, hnew, hfail⟩ := Turn.outcome_of_forgotten hagain hlive hfind
    refine ⟨fun hans => ?_, hflushes, hfail⟩
    rw [hnew key hans] at hold
    exact Nat.lt_irrefl _ hold

namespace Sample

theorem admitted : handle.Admitted := ⟨by decide, rfl, rfl, rfl⟩

theorem tidy_files : files.Tidy := by
  have hplain : Path.IsPlain "a" ∧ Path.IsPlain "b" ∧ Path.IsPlain "0" := by decide
  apply FileSystem.Tidy.add
  · apply FileSystem.Tidy.add
    · exact FileSystem.tidy_empty.add [] hplain.1 (by simp)
    · exact hplain.2.1
    · simp
  · exact hplain.2.2
  · simp

theorem ask_asked (index : UInt64) (h : Handle) :
    (ask index).asked? h = some (⟨foreign index, ⟨"/a"⟩⟩, pure ()) := rfl

end Sample

theorem copied_once_sample : answer ((Sample.ask 0).outcome
    (Sample.handle.after ([] ++ [Sample.ask 0] ++ [Sample.ask 1]))) = .ok (.key Sample.copy) := by
  have hlast : (Sample.ask 0).served? (Sample.handle.after []) =
      some (Sample.foreign 0, Sample.copy) := by decide +kernel
  have hsince : ∀ p ∈ (Sample.handle.after ([] ++ [Sample.ask 0])).served [Sample.ask 1],
      p.1 ≠ Sample.foreign 0 := by decide +kernel
  have hlive : (Sample.handle.after ([] ++ [Sample.ask 0] ++ [Sample.ask 1])).isDisposed =
      false := by decide +kernel
  have hboth := copied_once Sample.admitted hlast hsince hlive (Sample.ask_asked 0 _) rfl
  exact (hboth.1 (by decide +kernel)).1

end Depot
