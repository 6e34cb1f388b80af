import Depot.Proofs.Handle.Bases
import Depot.Proofs.Handle.Effects

/-! What asking a handle keeps. Files change in few ways: a base directory is settled on, the
directory of an index is made in it, and a copy is put into it. Whatever these three keep,
everything keeps that a handle can be asked for but its end and a base directory that others made.
-/

namespace Depot

open FileSystem Work

/-- The files that a handle finds when it makes a copy. It has the content written out only if it
does not remember a copy. -/
def Handle.flushed (h : Handle) (store : FileStore) (flush : FileM Unit) (fs : FileSystem) :
    FileSystem :=
  if h.isDisposed ∨ h.remembers store.key then fs else left (flush fs)

/-- The files as the handle finds them that takes the turn. -/
def Turn.flushed (t : Turn) (h : Handle) : FileSystem :=
  match t.asked? h with
  | some (store, flush) => h.flushed store flush t.session.files
  | none => t.session.files

/-- What holds between the scenes before and after whatever a handle is asked for. -/
structure Steady (R : Scene → Scene → Prop) : Prop where
  trans : ∀ {a b c}, R a b → R b c → R a c
  still : ∀ {s s' : Scene}, s'.handle.storage = s.handle.storage →
    s'.handle.tempRoot = s.handle.tempRoot → s'.files = s.files → R s s'
  settle : Keeps R HandleM.settle
  shard : ∀ {s : Scene} {base : Path} (index : UInt64), s.handle.storage = .placed base →
    R s { s with files := left (FileM.ensureShard
      (base.join (.ofComponents (s.handle.layout.shard index))) s.files) }
  copy : ∀ {s : Scene} {base : Path} (source : Path) (key : Key),
    s.handle.storage = .placed base →
    s.files.isDir (base.join (.ofComponents (s.handle.layout.shard key.index))) →
    R s { s with files := left (FileM.copyTree source
      (base.join (.ofComponents (s.handle.layout.names key))) s.order s.files) }

namespace Steady

open HandleM

variable {R : Scene → Scene → Prop} (hR : Steady R) {α β ε : Type}
include hR

theorem refl (s : Scene) : R s s := hR.still rfl rfl rfl

theorem bind {m : HandleM α} {f : α → HandleM β} (hm : Keeps R m) (hf : ∀ a, Keeps R (f a)) :
    Keeps R (m >>= f) := Keeps.bind hR.trans hm hf

/-! ## Work that leaves the files alone -/

theorem pure (a : α) : Keeps R (Pure.pure a : HandleM α) := hR.refl

theorem throw (e : Failure) : Keeps R (MonadExcept.throw e : HandleM α) := hR.refl

theorem handle : Keeps R HandleM.handle := hR.refl

theorem update {change : Handle → Handle} (hs : ∀ h, (change h).storage = h.storage)
    (ht : ∀ h, (change h).tempRoot = h.tempRoot) : Keeps R (update change) := fun s =>
  hR.still (hs s.handle) (ht s.handle) rfl

theorem check (wrap : ε → Failure) (x : Except ε α) : Keeps R (check wrap x) := by
  intro s
  cases x <;> exact hR.refl s

theorem refuseDisposed : Keeps R refuseDisposed := by
  intro s
  rw [refuseDisposed_apply]
  split <;> exact hR.refl s

theorem openNames : Keeps R openNames := by
  refine hR.bind hR.handle fun h => ?_
  split
  · exact hR.pure _
  · exact hR.refl

theorem needBase : Keeps R needBase := by
  refine hR.bind hR.handle fun h => ?_
  split
  · exact hR.pure _
  · exact hR.throw _

theorem lookUp (base : Path) (index : UInt64) : Keeps R (locate base index false) :=
  hR.bind hR.handle fun _ => hR.bind (hR.check _ _) fun dir => hR.pure dir

theorem reopen : Keeps R reopen :=
  hR.bind hR.refuseDisposed fun _ => hR.update (fun _ => rfl) fun _ => rfl

theorem close : Keeps R (HandleM.update Handle.close) := hR.update (fun _ => rfl) fun _ => rfl

/-! ## Work in the base directory -/

theorem locate {s : Scene} {base : Path} (hs : s.handle.storage = .placed base) (index : UInt64) :
    R s (left (locate base index true s)) := by
  have hcase := locateCase base index s
  generalize HandleM.locate base index true s = result at hcase
  cases hcase with
  | full => exact hR.refl s
  | made _ hdir hf =>
    have hshard := hR.shard index hs
    rwa [← hdir, hf] at hshard
  | failed _ hdir hf =>
    have hshard := hR.shard index hs
    rw [← hdir, hf] at hshard
    exact hR.trans hshard (hR.still rfl rfl rfl)

/-- What follows once a base directory is settled on may rely on it. -/
theorem settled {f : Path → HandleM α}
    (hf : ∀ base s, s.handle.storage = .placed base → R s (left (f base s))) :
    Keeps R (HandleM.settle >>= f) := by
  intro s
  cases hs : HandleM.settle s with
  | error e s₁ =>
    rw [bind_error hs]
    exact hR.settle.error hs
  | ok base s₁ =>
    rw [bind_ok hs]
    exact hR.trans (hR.settle.ok hs) (hf base s₁ (by rw [settle_ok hs]))

theorem restore : Keeps R restore := by
  refine hR.bind hR.handle fun h => ?_
  split
  · exact hR.bind hR.settle fun _ => hR.pure _
  · exact hR.pure _

theorem ensureRestored : Keeps R ensureRestored :=
  hR.bind hR.refuseDisposed fun _ => hR.restore

theorem shardDir (index : UInt64) (create : Bool) : Keeps R (shardDir index create) := by
  refine hR.bind hR.refuseDisposed fun _ => ?_
  cases create with
  | true => exact hR.settled fun base s hs => hR.locate hs index
  | false => exact hR.bind hR.needBase fun base => hR.lookUp base index

theorem objectPath (key : Key) : Keeps R (objectPath key) := by
  refine hR.bind hR.handle fun h => ?_
  split
  · exact hR.refl
  · refine hR.bind hR.restore fun _ => hR.bind hR.needBase fun base => ?_
    exact hR.bind (hR.lookUp base _) fun _ => hR.pure _

theorem allocate (name : String) (loop : LoopContext) : Keeps R (allocate name loop) := by
  refine hR.bind hR.refuseDisposed fun _ => hR.bind hR.handle fun h => ?_
  refine hR.bind (hR.check _ _) fun key => hR.bind (hR.check _ _) fun _ => ?_
  refine hR.settled fun base s hs => ?_
  have hlast : Keeps R (do
      HandleM.update fun h => { h with nextIndex := h.nextIndex + 1 }
      return key : HandleM Key) :=
    hR.bind (hR.update (fun _ => rfl) fun _ => rfl) fun _ => hR.pure key
  exact left_bind (hR.locate hs _) fun _ s₁ h₁ => hR.trans h₁ (hlast s₁)

theorem createObject (name : String) : Keeps R (createObject name) := by
  refine hR.bind (hR.check _ _) fun _ => hR.bind hR.openNames fun _ => ?_
  refine hR.bind (hR.check _ _) fun _ => hR.bind (hR.allocate _ _) fun key => ?_
  refine hR.bind hR.openNames fun _ => hR.bind (hR.check _ _) fun names => ?_
  exact hR.bind (hR.update (fun _ => rfl) fun _ => rfl) fun _ => hR.pure key

theorem createInLoop (name : String) (loop : LoopContext) : Keeps R (createInLoop name loop) :=
  hR.bind (hR.check _ _) fun _ => hR.bind hR.openNames fun _ => hR.allocate _ _

/-! ## Copies -/

/-- Once the content is written out, making a copy is like all other work. -/
theorem materializeCopy (store : FileStore) (live : List Identity) (flush : FileM Unit)
    (s : Scene) : R { s with files := s.handle.flushed store flush s.files }
      (left (materializeCopy store live flush s)) := by
  have hcase := copyCase store live flush s
  generalize HandleM.materializeCopy store live flush s = result at hcase
  have hflushed : ∀ files, R { s with files }
      { recalled store.key live s with
        files
        flushes := (recalled store.key live s).flushes + 1 } := fun files =>
    hR.still (by rw [recalled_handle]) (by rw [recalled_handle]) rfl
  have hcopied : ∀ {key target s₁}, s.handle.isDisposed = false →
      s.handle.memory.use store.key = none →
      reserve store flush (recalled store.key live s) = .ok (key, target) s₁ →
      R { s with files := s.handle.flushed store flush s.files }
        { s₁ with files := left (FileM.copyTree store.path target s₁.order s₁.files) } := by
    intro key target s₁ hlive hmiss hr
    obtain ⟨files, _, _, hflush, ha, -⟩ := reserve_eq_ok hr
    obtain ⟨base, ready, hreserved⟩ := reserve_made hr
    have hs : s₁.handle.storage = .placed base := by rw [hreserved.handle]
    have hlayout : s₁.handle.layout = (recalled store.key live s).handle.layout := by
      rw [hreserved.handle]
    have hdir := hreserved.shard
    rw [hreserved.place]
    rw [← hlayout] at hdir ⊢
    rw [recalled_files] at hflush
    have hfiles : s.handle.flushed store flush s.files = files := by
      rw [Handle.flushed, if_neg (by simp [hlive, Handle.remembers, hmiss]), hflush]
      rfl
    rw [hfiles]
    exact hR.trans (hflushed files)
      (hR.trans ((hR.allocate _ _).ok ha) (hR.copy store.path key hs hdir))
  cases hcase with
  | closed hd =>
    have hfiles : s.handle.flushed store flush s.files = s.files := if_pos (Or.inl hd)
    exact hR.still rfl rfl hfiles.symm
  | remembered hlive hu =>
    have hfiles : s.handle.flushed store flush s.files = s.files :=
      if_pos (Or.inr (by rw [Handle.remembers, hu]; rfl))
    exact hR.still rfl rfl ((recalled_files ..).trans hfiles.symm)
  | unreserved hlive hmiss hr =>
    have hfiles : s.handle.flushed store flush s.files = left (flush s.files) :=
      if_neg (by simp [hlive, Handle.remembers, hmiss])
    rw [hfiles]
    cases hf : flush s.files with
    | error cause files =>
      rw [reserve_of_flush_error (by rw [recalled_files]; exact hf)] at hr
      cases hr
      exact hR.still (by rw [left_error, recalled_handle]) (by rw [left_error, recalled_handle]) rfl
    | ok u files =>
      have ha := reserve_fails (by rw [recalled_files]; exact hf) hr
      exact hR.trans (hflushed files) ((hR.allocate _ _).error ha)
  | broken hlive hmiss hr hc =>
    have hleft := hcopied hlive hmiss hr
    rwa [hc] at hleft
  | made hlive hmiss hr hc =>
    have hleft := hcopied hlive hmiss hr
    rw [hc] at hleft
    exact hR.trans hleft (hR.still rfl rfl rfl)

/-- Turns in which the handle does not end and does not take a directory that others made. -/
theorem work {t : Turn} {h : Handle} (hown : t.IsOwn h) (hlasts : t.request ≠ .dispose)
    (hclaims : ∀ dir, t.request ≠ .setBaseDir dir) :
    R { t.scene h with files := t.flushed h } (left (t.work h (t.scene h))) := by
  cases ha : t.asked? h with
  | some asked =>
    obtain ⟨store, flush⟩ := asked
    rw [Turn.work_of_asked ha, left_answer, Turn.flushed, ha]
    exact hR.materializeCopy store (t.live h) flush (t.scene h)
  | none =>
    have hfiles : t.flushed h = t.session.files := by rw [Turn.flushed, ha]
    rw [hfiles]
    have hlast : ∀ {α : Type} {m : HandleM α} (f : α → Reply), Keeps R m →
        R (t.scene h) (left ((do return f (← m) : HandleM Reply) (t.scene h))) := by
      intro α m f hm
      rw [left_answer]
      exact hm (t.scene h)
    unfold Turn.work
    cases hr : t.request with
    | reopen => exact hlast (fun _ => .done) hR.reopen
    | close => exact hlast (fun _ => .done) hR.close
    | setBaseDir dir => exact absurd hr (hclaims dir)
    | ensureRestored => exact hlast (fun _ => .done) hR.ensureRestored
    | shardDir index create => exact hlast .path (hR.shardDir index create)
    | objectPath key => exact hlast .path (hR.objectPath key)
    | fileStore key =>
      dsimp only
      rw [if_pos (hown key hr)]
      exact hlast (fun path => .store ⟨key, path⟩) (hR.objectPath key)
    | create name => exact hlast .key (hR.createObject name)
    | createInLoop name loop => exact hlast .key (hR.createInLoop name loop)
    | materialize store flush => simp [Turn.asked?, hr] at ha
    | translate store flush =>
      have hc : (t.before h).mustCopy (t.held h) store.key = false := by
        simpa [Turn.asked?, hr] using ha
      simp only [hc, Bool.false_eq_true, ↓reduceIte]
      exact hR.refl _
    | dispose => exact absurd hr hlasts

end Steady

end Depot
