import Depot.Proofs.Files.Removals
import Depot.Proofs.Session.Disposal

/-! What a disposal reports. Handle and registry come to the same end whatever becomes of the base
directory, and the outcome tells what has: that there was none, that it was missing, that it has
been removed, or why it has not. -/

namespace Depot

open FileSystem Work

/-! ## The base directory and the outcome -/

/-- How an outcome and the files come about. -/
inductive Scene.Disposing (before : FileSystem) : Option Path → Disposal → FileSystem → Prop where
  | noDirectory : Disposing before none .noDirectory before
  | alreadyRemoved {base : Path} : before.lstatus base = .error .notFound →
      Disposing before (some base) .alreadyRemoved before
  | removed {base : Path} {after : FileSystem} : FileM.removeTree base before = .ok () after →
      Disposing before (some base) .removed after
  | incomplete {base : Path} {cause : FileError} {after : FileSystem} : cause ≠ .notFound →
      FileM.removeTree base before = .error cause after →
      Disposing before (some base) (.incomplete base cause) after

namespace Scene

theorem disposing_removeBase {s : Scene} {base : Path} : Disposing s.files (some base)
    (s.removeBase base).1 (s.removeBase base).2.files := by
  unfold removeBase
  dsimp only
  split
  · next files hr => exact .removed hr
  · next files hr =>
    obtain ⟨hmissing, rfl⟩ := FileM.removeTree_eq_notFound.1 hr
    exact .alreadyRemoved hmissing
  · next e files hne hr => exact .incomplete hne hr

theorem disposing (s : Scene) (found : Bool) : Disposing s.files s.handle.baseDir?
    (s.dispose found).1 (s.dispose found).2.files := by
  unfold dispose Handle.baseDir?
  cases s.handle.storage with
  | unassigned => exact .noDirectory
  | restoring source => exact .noDirectory
  | placed base => exact disposing_removeBase (s := { s with handle := s.handle.ending })

end Scene

/-- What an outcome tells of a base directory and of the files. -/
structure Disposal.Tells (outcome : Disposal) (base? : Option Path) (before after : FileSystem) :
    Prop where
  noDirectory : outcome = .noDirectory ↔ base? = none
  alreadyRemoved : outcome = .alreadyRemoved ↔
    ∃ base, base? = some base ∧ before.lstatus base = .error .notFound
  removed : outcome = .removed ↔
    ∃ base, base? = some base ∧ FileM.removeTree base before = .ok () after
  /-- All that is left is that the directory cannot be removed. -/
  incomplete : (∃ base cause, outcome = .incomplete base cause) ↔ ∃ base cause,
    base? = some base ∧ cause ≠ .notFound ∧ FileM.removeTree base before = .error cause after
  unchanged : outcome = .noDirectory ∨ outcome = .alreadyRemoved → after = before
  /-- The base directory is found under its path no more, and nothing is left in it. -/
  gone : outcome = .removed → ∃ base place node, base? = some base ∧
    FileM.Removed base before after place node
  /-- Nothing else is touched, whatever becomes of the base directory. -/
  outside : ∀ base place node loc, base? = some base → before.lstatus base = .ok (place, node) →
    ¬place <+: loc → after.node? loc = before.node? loc

theorem Scene.Disposing.tells {before after : FileSystem} {base? : Option Path}
    {outcome : Disposal} (h : Disposing before base? outcome after) :
    outcome.Tells base? before after := by
  cases h with
  | noDirectory => constructor <;> simp
  | @alreadyRemoved base hmissing =>
    have hmissed := FileM.removeTree_missing hmissing
    constructor <;> simp [hmissing, hmissed]
  | @removed base after hr =>
    have hthere : before.lstatus base ≠ .error .notFound := fun hmissing => by
      rw [FileM.removeTree_missing hmissing] at hr
      cases hr
    refine ⟨by simp, by simpa using hthere, by simpa using hr, by simp [hr], by simp, fun _ => ?_,
      fun base' place node loc hbase hplace hout => ?_⟩
    · obtain ⟨place, node, hremoved⟩ := FileM.removeTree_eq_ok hr
      exact ⟨base, place, node, rfl, hremoved⟩
    · cases hbase
      simpa [hr] using FileM.outside_removeTree hplace hout
  | @incomplete base cause after hne hr =>
    have hthere : before.lstatus base ≠ .error .notFound := fun hmissing => by
      rw [FileM.removeTree_missing hmissing] at hr
      cases hr
      exact hne rfl
    refine ⟨by simp, by simpa using hthere, by simp [hr], ?_, by simp, by simp,
      fun base' place node loc hbase hplace hout => ?_⟩
    · exact iff_of_true ⟨base, cause, rfl⟩ ⟨base, cause, rfl, hne, hr⟩
    · cases hbase
      simpa [hr] using FileM.outside_removeTree hplace hout

/-! ## Disposal -/

/-- A disposal never fails, and its outcome tells what has become of the base directory and the
files. Whatever that is, the handle is left without base directory, source and copies, and its
identity is retired and leads nowhere. Where the outcome is that the directory has been removed,
nothing is found under its path or left below its place; an empty directory is left at the place
itself if, and only if, its path led there through what was in it. To dispose of the handle once
more finds no directory and is reported, and changes nothing else. -/
theorem disposal_reported (s : Session) (slot : String) (held : Held) :
    ∃ outcome gone, SessionM.dispose slot held s = .ok outcome gone ∧
      gone.held[slot]? = some { held with handle := held.handle.ending } ∧
      held.handle.ending.Ended ∧
      (gone.registry held.registry).isRetired held.handle.id ∧
      (gone.registry held.registry).resolve gone.alive held.handle.id = none ∧
      outcome.Tells held.handle.baseDir? s.files gone.files ∧
      SessionM.dispose slot { held with handle := held.handle.ending } gone =
        .ok .noDirectory { gone with
          events := gone.events ++ [.disposed held.handle.id false .noDirectory] } := by
  let scene : Scene := ⟨held.handle, s.files, s.order, s.events, s.flushes⟩
  let found := ((s.registry held.registry).deregister held.handle.id).1
  let last := (scene.dispose found).2
  let gone : Session := { s with
    files := last.files
    held := s.held.insert slot { held with handle := last.handle }
    registries := s.registries.insert held.registry
      ((s.registry held.registry).deregister held.handle.id).2
    events := last.events
    flushes := last.flushes }
  have hdone : SessionM.dispose slot held s = .ok (scene.dispose found).1 gone :=
    SessionM.dispose_apply slot held s
  have hheld : gone.held[slot]? = some { held with handle := held.handle.ending } := by
    rw [Session.slot_of_insert, if_pos rfl, Scene.dispose_handle]
    rfl
  have hretired : (gone.registry held.registry).isRetired held.handle.id := by
    rw [Session.isRetired_of_deregister rfl]
    simp
  have hend := held.handle.ended_ending
  exact ⟨_, gone, hdone, hheld, hend, hretired, Registry.resolve_of_retired _ hretired,
    (scene.disposing found).tells, Session.ending_dispose hheld hend hretired⟩

namespace Sample

/-- A handle whose base directory is named by a way through what is in it. -/
def roundabout : Session := session.after [taking "h", .ask "h" (.setBaseDir ⟨"/b/0/.."⟩)]

end Sample

/-- An outcome says that a directory has been removed which is still there. -/
theorem removed_stays : ∃ held gone, Sample.roundabout.held["h"]? = some held ∧
    held.handle.baseDir? = some ⟨"/b/0/.."⟩ ∧
    Sample.roundabout.files.lstatus ⟨"/b/0/.."⟩ = .ok (["b"], .dir) ∧
    SessionM.dispose "h" held Sample.roundabout = .ok .removed gone ∧
    gone.files.lstatus ⟨"/b"⟩ = .ok (["b"], .dir) := by
  have hrun : (Sample.roundabout.held["h"]?).bind (fun held =>
      match SessionM.dispose "h" held Sample.roundabout with
      | .ok outcome gone => some (held.handle.baseDir?, outcome, gone.files.lstatus ⟨"/b"⟩)
      | .error _ _ => none) = some (some ⟨"/b/0/.."⟩, .removed, .ok (["b"], .dir)) := by
    decide +kernel
  obtain ⟨held, hheld, hdone⟩ := Option.bind_eq_some_iff.1 hrun
  split at hdone
  · next outcome gone hd =>
    simp only [Option.some.injEq, Prod.mk.injEq] at hdone
    obtain ⟨hbase, rfl, hstays⟩ := hdone
    exact ⟨held, gone, hheld, hbase, by decide +kernel, hd, hstays⟩
  · cases hdone

end Depot
