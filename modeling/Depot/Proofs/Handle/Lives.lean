import Depot.Proofs.Handle.Settling
import Depot.Proofs.Handle.Steady

/-! The base directory over the life of a handle. Once there is one it stays where it is, and no
link gets into it, whatever the handle is asked for and whatever files and directories are made. -/

namespace Depot

open FileSystem Work

namespace Handle

/-- The base directory, once the handle has one, is there and holds no links. -/
structure Housed (h : Handle) (fs : FileSystem) : Prop where
  names : fs.Named
  base : ∀ base, h.storage = .placed base → ∃ b, fs.status base = .ok (b, .dir) ∧ fs.LinkFree b

/-- What others do elsewhere: the base directory stays where it is, with all that is in it. -/
structure Undisturbed (h : Handle) (fs fs' : FileSystem) : Prop where
  names : fs'.Named
  base : ∀ base b, h.storage = .placed base → fs.status base = .ok (b, .dir) →
    fs'.status base = .ok (b, .dir) ∧ ∀ rest, fs'.node? (b ++ rest) = fs.node? (b ++ rest)

variable {h h' : Handle} {fs fs' : FileSystem}

theorem Undisturbed.refl (h : Handle) (hnamed : fs.Named) : h.Undisturbed fs fs :=
  ⟨hnamed, fun _ _ _ hs => ⟨hs, fun _ => rfl⟩⟩

theorem Housed.of_storage (hh : h.Housed fs) (hs : h'.storage = h.storage) : h'.Housed fs :=
  ⟨hh.names, fun base he => hh.base base (hs ▸ he)⟩

theorem Housed.builds (hh : h.Housed fs) (hb : Builds fs fs') : h.Housed fs' := by
  refine ⟨hb.names, fun base he => ?_⟩
  obtain ⟨b, hs, hfree⟩ := hh.base base he
  exact ⟨b, status_dir_grows hs hb.grows, fun rest t hn => hfree rest t (hb.links _ t hn)⟩

theorem Housed.undisturbed (hh : h.Housed fs) (hu : h.Undisturbed fs fs') : h.Housed fs' := by
  refine ⟨hu.names, fun base he => ?_⟩
  obtain ⟨b, hs, hfree⟩ := hh.base base he
  obtain ⟨hs', hsame⟩ := hu.base base b he hs
  exact ⟨b, hs', hfree.of_same hsame⟩

end Handle

def Scene.Housed (s : Scene) : Prop := s.handle.Housed s.files

/-- A new base directory is empty, so there is no link in it. -/
theorem HandleM.NewBase.housed {root base : Path} {fs fs' : FileSystem} {place : Location}
    (hnew : NewBase root base fs fs' place) (hnamed : fs.Named) {h : Handle}
    (hs : h.storage = .placed base) : h.Housed fs' := by
  have hfill := hnew.fillable hnamed
  refine ⟨hfill.names, fun base' he => ?_⟩
  rw [hs] at he
  cases he
  exact ⟨place, hnew.stands, hfill.free⟩

theorem HandleM.housed_settle (s : Scene) (hs : s.Housed) : (left (settle s)).Housed := by
  have hcase := settleCase s
  generalize settle s = result at hcase
  cases hcase with
  | placed => exact hs
  | unclaimed _ hc =>
    obtain ⟨_, files, -, he, hfiles⟩ := claimBase_error hc
    cases he
    rw [hfiles]
    exact hs.builds ((FileM.addsDirs_mkdirAll _ _).builds hs.names)
  | claimed _ hc =>
    obtain ⟨⟨place, hnew⟩, -⟩ := claimBase_ok hc
    exact hnew.housed hs.names rfl
  | restored _ hc hcopy =>
    obtain ⟨⟨place, hnew⟩, -⟩ := claimBase_ok hc
    have hmade := hnew.housed (h := { s.handle with storage := .placed _ }) hs.names rfl
    exact hmade.builds (Keeps.ok (FileM.building_copyTree _ _ _) hcopy hmade.names)
  | broken _ hc hcopy =>
    obtain ⟨⟨place, hnew⟩, -⟩ := claimBase_ok hc
    have hmade := hnew.housed (h := { s.handle with storage := .placed _ }) hs.names rfl
    exact hmade.builds (Keeps.error (FileM.building_copyTree _ _ _) hcopy hmade.names)

/-- Whatever a handle is asked, its base directory is there and holds no links. -/
theorem steady_housed : Steady fun s s' => s.Housed → s'.Housed where
  trans hab hbc hs := hbc (hab hs)
  still hstorage _ hfiles hs := by
    rw [Scene.Housed, hfiles]
    exact hs.of_storage hstorage
  settle := HandleM.housed_settle
  shard _ _ hs := hs.builds ((FileM.addsDirs_ensureShard _ _).builds hs.names)
  copy _ _ _ _ hs := hs.builds (FileM.building_copyTree _ _ _ _ hs.names)

/-! ## Turns -/

/-- The handle is not asked to give up its base directory or to take one that others made, and what
has to be written out for a copy is written elsewhere. -/
structure Turn.StaysHome (t : Turn) (h : Handle) : Prop where
  lasts : t.request ≠ .dispose
  claims : ∀ dir, t.request ≠ .setBaseDir dir
  own : t.IsOwn h
  quiet : ∀ store flush, t.asked? h = some (store, flush) →
    h.Undisturbed t.session.files (left (flush t.session.files))

theorem Turn.housed (t : Turn) {h : Handle} (ht : t.StaysHome h)
    (hh : h.Housed t.session.files) : (t.next h).Housed (left (t.outcome h)).files := by
  rw [next_eq, (left_eq ht.own).1]
  refine steady_housed.work ht.own ht.lasts ht.claims (?_ : h.Housed (t.flushed h))
  unfold flushed
  split
  · next store flush ha =>
    unfold Handle.flushed
    split
    · exact hh
    · exact hh.undisturbed (ht.quiet store flush ha)
  · exact hh

/-! ## Lives -/

/-- A handle and the files at some time after the handle was made. It takes its turns, objects are
written at their places or anywhere else, and others work elsewhere. -/
inductive Lived : Handle → FileSystem → Prop where
  | made {h : Handle} {fs : FileSystem} : (∀ base, h.storage ≠ .placed base) → fs.Named → Lived h fs
  | turn {h : Handle} (t : Turn) : Lived h t.session.files → t.StaysHome h →
      Lived (t.next h) (left (t.outcome h)).files
  | wrote {h : Handle} {fs fs' : FileSystem} {p : Path} {content : Content} : Lived h fs →
      fs.write p content = .ok fs' → Lived h fs'
  | mkdir {h : Handle} {fs fs' : FileSystem} {p : Path} : Lived h fs → fs.mkdir p = .ok fs' →
      Lived h fs'
  | elsewhere {h : Handle} {fs fs' : FileSystem} : Lived h fs → h.Undisturbed fs fs' → Lived h fs'

theorem Lived.housed {h : Handle} {fs : FileSystem} (hl : Lived h fs) : h.Housed fs := by
  induction hl with
  | made hs hnamed => exact ⟨hnamed, fun base he => absurd he (hs base)⟩
  | turn t _ ht ih => exact t.housed ht ih
  | wrote _ hw ih => exact ih.builds (builds_write ih.names hw)
  | mkdir _ hm ih => exact ih.builds ((addsDirs_mkdir hm).builds ih.names)
  | elsewhere _ hu ih => exact ih.undisturbed hu

end Depot
