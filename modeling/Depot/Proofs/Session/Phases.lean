import Depot.Proofs.Handle.Endings
import Depot.Proofs.Session.Ownership
import Depot.Proofs.Session.Restorations

/-! The life of a handle. Opening, closing and disposal take it from one phase to the next, and
nothing else does. The record of names comes and goes apart from the phase; that both always agree
is an invariant of every turn, done or refused. A base directory comes with the first request that
needs one and stays until disposal; a source is waited for from the start or never. -/

namespace Depot

open Work

namespace Lifecycle

/-- The phase that a request leads to, done or refused. -/
def after : Lifecycle → Request → Lifecycle
  | .disposed, _ => .disposed
  | _, .dispose => .disposed
  | _, .reopen => .opened
  | .opened, .close => .closed
  | phase, _ => phase

/-- The ways from one phase to another. -/
inductive Change : Lifecycle → Request → Lifecycle → Prop where
  | opened : Change .fresh .reopen .opened
  | reopened : Change .closed .reopen .opened
  | closed : Change .opened .close .closed
  | disposed (phase : Lifecycle) : Change phase .dispose .disposed

theorem change_after {phase : Lifecycle} {request : Request} (h : phase.after request ≠ phase) :
    Change phase request (phase.after request) := by
  cases phase with
  | fresh =>
    cases request with
    | reopen => exact .opened
    | dispose => exact .disposed _
    | _ => exact absurd rfl h
  | opened =>
    cases request with
    | close => exact .closed
    | dispose => exact .disposed _
    | _ => exact absurd rfl h
  | closed =>
    cases request with
    | reopen => exact .reopened
    | dispose => exact .disposed _
    | _ => exact absurd rfl h
  | disposed => exact absurd rfl h

end Lifecycle

namespace Handle

variable {h h' : Handle}

theorem isDisposed_iff : h.isDisposed ↔ h.lifecycle = .disposed := by
  rw [isDisposed, decide_eq_true_iff]

theorem Moves.lifecycle (hm : h.Moves h') : h'.lifecycle = h.lifecycle := by
  obtain ⟨storage, rfl⟩ := hm
  rfl

theorem Moves.names (hm : h.Moves h') : h'.names = h.names := by
  obtain ⟨storage, rfl⟩ := hm
  rfl

/-- What a handle has agrees with the phase it is in: names just when it is open, and after disposal
nothing at all. -/
structure Coherent (h : Handle) : Prop where
  names : h.names.isSome ↔ h.lifecycle = .opened
  ended : h.lifecycle = .disposed → h.Ended

theorem Admitted.coherent (hadm : h.Admitted) : h.Coherent where
  names := by rw [hadm.names, hadm.fresh]; decide
  ended hd := by rw [hadm.fresh] at hd; cases hd

theorem Ended.coherent (hend : h.Ended) : h.Coherent where
  names := by rw [hend.names, hend.lifecycle]; decide
  ended _ := hend

/-- A live handle stays coherent as long as its phase stays, and whether it has names. -/
theorem Coherent.of_same (hc : h.Coherent) (hlive : h.lifecycle ≠ .disposed)
    (hlifecycle : h'.lifecycle = h.lifecycle) (hnames : h'.names.isSome = h.names.isSome) :
    h'.Coherent where
  names := by rw [hnames, hlifecycle]; exact hc.names
  ended hd := absurd (hlifecycle.symm.trans hd) hlive

/-- A handle that is not open is closed already. -/
theorem Coherent.close (hc : h.Coherent) (hopen : h.lifecycle ≠ .opened) : h.close = h := by
  have hnone : h.names = none := by
    rw [← Option.not_isSome_iff_eq_none, hc.names]
    exact hopen
  rw [Handle.close, if_neg hopen, ← hnone]

end Handle

theorem HandleM.ensureRestored_left (s : Scene) :
    Consumes s.handle (left (ensureRestored s)).handle := by
  unfold ensureRestored
  cases hd : s.handle.isDisposed with
  | true =>
    rw [bind_error (refuseDisposed_eq_error.2 ⟨hd, rfl, rfl⟩)]
    exact Or.inl rfl
  | false =>
    rw [bind_ok (refuseDisposed_of_live hd)]
    exact restore_left s

namespace Turn

variable {t : Turn} {h : Handle}

/-! ## From phase to phase -/

/-- All other requests leave the phase as it is. -/
theorem next_lifecycle_kept (hreopen : t.request ≠ .reopen) (hclose : t.request ≠ .close)
    (hlast : t.request ≠ .dispose) : (t.next h).lifecycle = h.lifecycle := by
  have he := t.effect h
  generalize t.next h = h', t.minted? h = minted?, t.breaksOff h = breaksOff at he ⊢
  cases he with
  | settled _ hm => exact hm.lifecycle
  | reopened hr => exact absurd hr hreopen
  | closed hr => exact absurd hr hclose
  | disposed hr => exact absurd hr hlast
  | unreserved _ _ _ _ hm => exact hm.lifecycle
  | _ => rfl

theorem next_lifecycle (t : Turn) (h : Handle) :
    (t.next h).lifecycle = h.lifecycle.after t.request := by
  by_cases hreopen : t.request = .reopen
  · rw [next_reopen hreopen, hreopen, Handle.isDisposed]
    cases hl : h.lifecycle <;> simp [hl, Lifecycle.after]
  by_cases hclose : t.request = .close
  · rw [next_close hclose, hclose, Handle.close]
    cases hl : h.lifecycle <;> simp [Lifecycle.after]
  by_cases hlast : t.request = .dispose
  · rw [next_dispose h hlast, hlast]
    cases h.lifecycle <;> rfl
  rw [next_lifecycle_kept hreopen hclose hlast]
  generalize t.request = request at *
  cases h.lifecycle <;> cases request <;> simp_all [Lifecycle.after]

/-- Whatever a handle is asked for, and however that goes, it stays coherent. -/
theorem next_coherent (t : Turn) (hc : h.Coherent) : (t.next h).Coherent := by
  -- a disposed handle has nothing left to disagree
  by_cases hd : h.lifecycle = .disposed
  · rw [t.next_ended (hc.ended hd)]
    exact hc
  have he := t.effect h
  generalize t.next h = h', t.minted? h = minted?, t.breaksOff h = breaksOff at he ⊢
  cases he with
  | settled _ hm => exact hc.of_same hd hm.lifecycle (by rw [hm.names])
  | reopened => exact ⟨⟨fun _ => rfl, fun _ => rfl⟩, nofun⟩
  | closed =>
    have hphase : h.close.lifecycle ≠ .opened ∧ h.close.lifecycle ≠ .disposed := by
      unfold Handle.close
      cases hl : h.lifecycle <;> simp_all
    exact ⟨⟨nofun, fun ho => absurd ho hphase.1⟩, fun hlast => absurd hlast hphase.2⟩
  | disposed => exact h.ended_ending.coherent
  | created _ _ _ hmakes =>
    refine hc.of_same hd rfl ?_
    generalize t.request = request at hmakes
    cases hmakes with
    | alone hused => rw [hused]; rfl
    | looped hsame => rw [hsame]
  | refused => exact hc
  | unreserved _ _ _ _ hm => exact hc.of_same hd hm.lifecycle (by rw [hm.names])
  | remembered => exact hc.of_same hd rfl rfl
  | broken => exact hc.of_same hd rfl rfl
  | copied => exact hc.of_same hd rfl rfl

/-- Closing a handle that is not open changes nothing. -/
theorem outcome_close (hc : h.Coherent) (hr : t.request = .close) (hopen : h.lifecycle ≠ .opened) :
    t.outcome h = .ok .done (t.before h) := by
  have hown : t.IsOwn h := by
    intro key hk
    rw [hr] at hk
    cases hk
  have hwork : t.work h (t.scene h) = .ok .done (t.scene h) := by
    have hclose : HandleM.update Handle.close (t.scene h) = .ok () (t.scene h) := by
      rw [HandleM.update_apply, scene, hc.close hopen]
    rw [work, hr]
    exact bind_ok hclose
  have hanswer : answer (t.outcome h) = .ok .done := by rw [answer_eq hown, hwork, answer_ok]
  have hleft := left_idle hown (by simp [hr]) (by rw [hwork, left_ok])
  rw [ok_of_answer hanswer, hleft]

/-! ## To a base directory -/

/-- Whether the turn is one in which the handle can come to a base directory. An object that is
looked up through another handle is a path to its owner. -/
def mayPlace (t : Turn) (h : Handle) : Bool :=
  match t.request with
  | .create _ | .createInLoop .. | .setBaseDir _ | .shardDir _ true => true
  | .ensureRestored => h.isRestoring
  | .objectPath key | .fileStore key => h.isRestoring && decide (key.owner = h.id)
  | .materialize store _ => !h.remembers store.key
  | .translate store _ => (t.before h).mustCopy (t.held h) store.key && !h.remembers store.key
  | .reopen | .close | .dispose | .shardDir _ false => false

/-- A copy that is remembered is not placed anywhere. -/
theorem next_storage_of_asked {store : FileStore} {flush : FileM Unit}
    (ha : t.asked? h = some (store, flush)) (hr : h.remembers store.key) :
    (t.next h).storage = h.storage := by
  have he := t.effect h
  have hmiss : ∀ {store' : FileStore} {flush' : FileM Unit},
      t.asked? h = some (store', flush') → h.memory.use store'.key = none → False := by
    intro store' flush' ha' hu
    rw [ha] at ha'
    cases ha'
    rw [Handle.remembers, hu] at hr
    cases hr
  generalize t.next h = h', t.minted? h = minted?, t.breaksOff h = breaksOff at he ⊢
  cases he with
  | settled ha' => rw [ha] at ha'; cases ha'
  | created ha' => rw [ha] at ha'; cases ha'
  | disposed hd => rw [asked?, hd] at ha; cases ha
  | unreserved ha' _ hu => exact (hmiss ha' hu).elim
  | broken ha' _ hu => exact (hmiss ha' hu).elim
  | copied ha' _ hu => exact (hmiss ha' hu).elim
  | _ => rfl

theorem next_storage (hidle : t.mayPlace h = false) (hlast : t.request ≠ .dispose) :
    (t.next h).storage = h.storage := by
  have hconsumes : h.isRestoring = false → ∀ h', HandleM.Consumes h h' →
      h'.storage = h.storage := by
    rintro hr h' (rfl | ⟨source, base, hs, -⟩)
    · rfl
    · rw [Handle.isRestoring, hs] at hr
      cases hr
  have hpath : ∀ key : Key, (h.isRestoring && decide (key.owner = h.id)) = false →
      (left (HandleM.objectPath key (t.scene h))).handle.storage = h.storage := by
    intro key hk
    by_cases howner : key.owner = h.id
    · have hk' : h.isRestoring = false := by simpa [howner] using hk
      exact hconsumes hk' _ (HandleM.objectPath_left (s := t.scene h) howner)
    · rw [HandleM.objectPath_of_foreign (s := t.scene h) howner]
      rfl
  cases hr : t.request with
  | reopen =>
    rw [next_reopen hr]
    split <;> rfl
  | close =>
    rw [next_close hr]
    rfl
  | dispose => exact absurd hr hlast
  | shardDir index fill =>
    cases fill with
    | true => simp [mayPlace, hr] at hidle
    | false =>
      have hspares : HandleM.Spares (HandleM.shardDir index false) :=
        HandleM.spares_refuseDisposed.bind fun _ => HandleM.spares_needBase.bind fun base =>
          HandleM.spares_locate base index false
      rw [next_eq, work, hr, left_answer]
      exact congrArg Handle.storage (hspares (t.scene h)).1
  | ensureRestored =>
    have hidle' : h.isRestoring = false := by simpa [mayPlace, hr] using hidle
    rw [next_eq, work, hr, left_answer]
    exact hconsumes hidle' _ (HandleM.ensureRestored_left (t.scene h))
  | objectPath key =>
    rw [next_eq, work, hr, left_answer]
    exact hpath key (by simpa [mayPlace, hr] using hidle)
  | fileStore key =>
    rw [next_eq, work, hr]
    dsimp only
    split
    · rw [left_answer]
      exact hpath key (by simpa [mayPlace, hr] using hidle)
    · rfl
  | materialize store flush =>
    have hmem : h.remembers store.key := by simpa [mayPlace, hr] using hidle
    exact next_storage_of_asked (by rw [asked?, hr]) hmem
  | translate store flush =>
    cases hcopy : (t.before h).mustCopy (t.held h) store.key with
    | true =>
      have hmem : h.remembers store.key := by simpa [mayPlace, hr, hcopy] using hidle
      have ha : t.asked? h = some (store, flush) := by simp [asked?, hr, hcopy]
      exact next_storage_of_asked ha hmem
    | false =>
      rw [next_eq, work, hr]
      simp only [hcopy]
      rfl
  | _ => simp [mayPlace, hr] at hidle

theorem next_placed {base : Path} (hbase : h.storage = .placed base)
    (hlast : t.request ≠ .dispose) : (t.next h).storage = .placed base := by
  have hadvances := t.advances h hlast
  rw [hbase] at hadvances
  generalize t.attempts h = attempted, (t.next h).storage = storage at hadvances
  cases hadvances
  rfl

end Turn

/-! ## Runs -/

namespace Handle

variable {h : Handle}

/-- A handle is coherent throughout its life. -/
theorem Coherent.after (hc : h.Coherent) (turns : List Turn) : (h.after turns).Coherent := by
  induction turns generalizing h with
  | nil => exact hc
  | cons t turns ih => exact ih (t.next_coherent hc)

theorem after_placed {base : Path} (hbase : h.storage = .placed base) {turns : List Turn}
    (hlive : ∀ t ∈ turns, t.request ≠ .dispose) : (h.after turns).storage = .placed base := by
  induction turns generalizing h with
  | nil => exact hbase
  | cons t turns ih =>
    rw [List.forall_mem_cons] at hlive
    exact ih (Turn.next_placed hbase hlive.1) hlive.2

end Handle

/-- The states of a handle, in any run. It is open just in its open phase, and keeps a record of
names just then. Its phase changes when it is opened, closed or disposed of, whatever phase that
finds it in; a disposed handle has no record, no copies, no base directory and no source. A base
directory stays until disposal, a handle that does not wait for a source never does, and a base
directory comes with a request that makes a key or places an index, that is for a copy which is not
remembered or that sets one, or, where a source is waited for, with one that needs what it holds. -/
theorem handle_phases {h : Handle} (hadm : h.Admitted) (turns : List Turn) (t : Turn) :
    let now := h.after turns
    let next := t.next now
    (now.isOpen ↔ now.lifecycle = .opened) ∧ (now.names.isSome ↔ now.lifecycle = .opened) ∧
    next.lifecycle = now.lifecycle.after t.request ∧
    (next.lifecycle ≠ now.lifecycle →
      Lifecycle.Change now.lifecycle t.request next.lifecycle) ∧
    (t.request = .close → now.lifecycle ≠ .opened → t.outcome now = .ok .done (t.before now)) ∧
    (now.lifecycle = .disposed → now.names = none ∧ now.copies = none ∧ now.baseDir? = none ∧
      now.isRestoring = false) ∧
    (∀ base, now.baseDir? = some base → ∀ later : List Turn, (∀ t ∈ later, t.request ≠ .dispose) →
      (now.after later).baseDir? = some base) ∧
    (now.isRestoring = false → ∀ later, (now.after later).isRestoring = false) ∧
    (∀ base, now.baseDir? = none → next.baseDir? = some base → t.mayPlace now) := by
  intro now next
  have hcoherent : now.Coherent := hadm.coherent.after turns
  have hphase : next.lifecycle = now.lifecycle.after t.request := t.next_lifecycle now
  refine ⟨hcoherent.names, hcoherent.names, hphase, ?_, Turn.outcome_close hcoherent, ?_, ?_, ?_,
    ?_⟩
  · intro hchange
    rw [hphase] at hchange ⊢
    exact Lifecycle.change_after hchange
  · intro hlast
    have hend : now.Ended := hcoherent.ended hlast
    exact ⟨hend.names, hend.copies, hend.baseDir?, hend.isRestoring⟩
  · intro base hbase later hlive
    rw [Handle.baseDir?_eq_some] at hbase ⊢
    exact Handle.after_placed hbase hlive
  · exact fun hr later => (Handle.attempts_of_restored hr later).2
  · intro base hnone hsome
    by_contra hidle
    rw [Bool.not_eq_true] at hidle
    by_cases hlast : t.request = .dispose
    · have hend : next.Ended := by
        rw [show next = now.ending from Turn.next_dispose now hlast]
        exact now.ended_ending
      rw [hend.baseDir?] at hsome
      cases hsome
    · have hsame : next.storage = now.storage := Turn.next_storage hidle hlast
      rw [Handle.baseDir?, hsame, ← Handle.baseDir?, hnone] at hsome
      cases hsome

namespace Sample

theorem waiting_admitted : waiting.Admitted := ⟨by decide, rfl, rfl, rfl⟩

end Sample

theorem handle_phases_sample : Sample.waiting.Admitted ∧
    (Sample.placing.next Sample.waiting).baseDir? = some ⟨"/fs--00000000"⟩ ∧
    Sample.placing.mayPlace Sample.waiting ∧
    (Sample.placing.next Sample.waiting).lifecycle = .fresh := by
  obtain ⟨-, -, hphase, -, -, -, -, -, hplace⟩ :=
    handle_phases Sample.waiting_admitted [] Sample.placing
  have hbase : (Sample.placing.next Sample.waiting).baseDir? = some ⟨"/fs--00000000"⟩ := by
    decide +kernel
  exact ⟨Sample.waiting_admitted, hbase, hplace _ rfl hbase, hphase⟩

end Depot
