import Depot.Proofs.Handle.Attempts
import Depot.Proofs.Session.Restart

/-! What becomes of the source of a restored handle, whatever the handle is asked and whatever
becomes of the files in between. It waits until a base directory is there, and is copied into that
once. -/

namespace Depot

open FileSystem Work

/-! ## Exact copies -/

/-- A handle waits for what its source holds. The source is a directory without links, and the new
base directory is not going to be made in it. -/
structure Handle.Awaits (h : Handle) (source : Path) (b : Location) (fs : FileSystem) : Prop where
  storage : h.storage = .restoring source
  stands : fs.status source = .ok (b, .dir)
  free : fs.LinkFree b
  names : fs.Named
  root : fs.StaysOut h.tempRoot b

/-- Requests that need the base directory, with the index they need a place for, if any. -/
def Request.opens? (h : Handle) : Request → Option (Option UInt64)
  | .ensureRestored | .objectPath _ | .fileStore _ => some none
  | .shardDir index true => some (some index)
  | .create _ | .createInLoop _ _ => some (some h.nextIndex)
  | _ => none

namespace HandleM

theorem Opens.exact {index? : Option UInt64} {base source : Path} {b : Location} {s s' : Scene}
    (h : Opens index? base s s') (ha : s.handle.Awaits source b s.files) :
    Renewed source b (s.handle.layout.way index?) s.files s'.handle s'.files :=
  h.renewed ha.storage ha.stands ha.free ha.names ha.root

end HandleM

namespace Turn

variable {t : Turn} {h : Handle} {source : Path} {b : Location} {index? : Option UInt64}
  {reply : Reply}

theorem opens {s' : Scene} (hsource : h.storage = .restoring source) (hown : t.IsOwn h)
    (hopens : t.request.opens? h = some index?) (hok : t.work h (t.scene h) = .ok reply s') :
    ∃ base, HandleM.Opens index? base (t.scene h) s' := by
  have hanswer : ∀ {α : Type} {m : HandleM α} {f : α → Reply},
      (do return f (← m) : HandleM Reply) (t.scene h) = .ok reply s' →
        ∃ a, m (t.scene h) = .ok a s' := by
    intro α m f hm
    obtain ⟨a, s₁, ha, hp⟩ := bind_eq_ok.1 hm
    cases hp
    exact ⟨a, ha⟩
  unfold work at hok
  cases hr : t.request with
  | ensureRestored =>
    rw [hr] at hopens hok
    cases hopens
    obtain ⟨_, ha⟩ := hanswer (f := fun _ => .done) hok
    exact HandleM.opens_ensureRestored hsource ha
  | objectPath key =>
    rw [hr] at hopens hok
    cases hopens
    obtain ⟨_, ha⟩ := hanswer hok
    exact HandleM.opens_objectPath hsource ha
  | fileStore key =>
    have hk := hown key hr
    rw [hr] at hopens hok
    cases hopens
    dsimp only at hok
    rw [if_pos hk] at hok
    obtain ⟨_, ha⟩ := hanswer (f := fun path => .store ⟨key, path⟩) hok
    exact HandleM.opens_objectPath hsource ha
  | shardDir index create =>
    rw [hr] at hopens hok
    cases create with
    | false => cases hopens
    | true =>
      cases hopens
      obtain ⟨_, ha⟩ := hanswer hok
      exact HandleM.opens_shardDir ha
  | create name =>
    rw [hr] at hopens hok
    cases hopens
    obtain ⟨_, ha⟩ := hanswer hok
    exact HandleM.opens_createObject ha
  | createInLoop name loop =>
    rw [hr] at hopens hok
    cases hopens
    obtain ⟨_, ha⟩ := hanswer hok
    exact HandleM.opens_createInLoop ha
  | _ =>
    rw [hr] at hopens
    cases hopens

/-- A handle that has done what needs its base directory has everything in it that it waited for. -/
theorem renewed {s' : Session} (ha : h.Awaits source b t.session.files) (hown : t.IsOwn h)
    (hopens : t.request.opens? h = some index?) (hok : t.outcome h = .ok reply s') :
    HandleM.Renewed source b (h.layout.way index?) t.session.files (t.next h) s'.files := by
  have hanswer := answer_eq hown
  have hfiles := (left_eq hown).1
  rw [hok] at hanswer hfiles
  obtain ⟨base, hdone⟩ := opens ha.storage hown hopens (ok_of_answer hanswer.symm)
  have hexact := hdone.exact ha
  have hfiles' : s'.files = (left (t.work h (t.scene h))).files := hfiles
  rw [next_eq, hfiles']
  exact hexact

end Turn

/-- Another handle may be the one that is asked where an object is. -/
theorem SessionM.fileStore_renewed {slot slot' : String} {held owner : Held} {key : Key}
    {store : FileStore} {source : Path} {b : Location} {s s' : Session}
    (ho : s.owner? slot held key = some (slot', owner)) (ha : owner.handle.Awaits source b s.files)
    (hok : fileStore slot held key s = .ok store s') : ∃ h', s'.held[slot']? =
      some { owner with handle := h' } ∧ HandleM.Renewed source b [] s.files h' s'.files := by
  rw [fileStore_of_owner ho] at hok
  obtain ⟨path, s₁, hpath, hp⟩ := bind_eq_ok.1 hok
  cases hp
  obtain ⟨scene, hscene, rfl⟩ := onHandle_eq_ok.1 hpath
  obtain ⟨base, hdone⟩ := HandleM.opens_objectPath ha.storage hscene
  exact ⟨scene.handle, Std.ExtTreeMap.getElem?_insert_self, hdone.exact ha⟩

/-! ## At most once -/

namespace Turn

/-- The copies of a source that the handle attempts in its turn, as it tells of them. -/
def attempts (t : Turn) (h : Handle) : List (Path × Path) :=
  Event.attempts ((left (t.work h (t.scene h))).events.drop t.session.events.length)

theorem attempts_eq {t : Turn} {h : Handle} {new : List Event}
    (he : (left (t.work h (t.scene h))).events = t.session.events ++ new) :
    t.attempts h = Event.attempts new := by
  rw [attempts, he, List.drop_left]

theorem advancing_work {t : Turn} (h : Handle) (hlast : t.request ≠ .dispose) :
    HandleM.Advancing (t.work h) := by
  have hanswer : ∀ {α : Type} {m : HandleM α} (f : α → Reply), HandleM.Advancing m →
      HandleM.Advancing (do return f (← m) : HandleM Reply) := fun _ hm =>
    hm.bind fun _ => HandleM.advancing_pure _
  unfold work
  cases hr : t.request with
  | reopen => exact hanswer (fun _ => .done) HandleM.advancing_reopen
  | close => exact hanswer (fun _ => .done) HandleM.advancing_close
  | setBaseDir dir => exact hanswer (fun _ => .done) (HandleM.advancing_setBaseDir dir)
  | ensureRestored => exact hanswer (fun _ => .done) HandleM.advancing_ensureRestored
  | shardDir index create => exact hanswer _ (HandleM.advancing_shardDir index create)
  | objectPath key => exact hanswer _ (HandleM.advancing_objectPath key)
  | fileStore key =>
    dsimp only
    split
    · exact hanswer (fun path => .store ⟨key, path⟩) (HandleM.advancing_objectPath key)
    · exact HandleM.advancing_pure _
  | create name => exact hanswer _ (HandleM.advancing_createObject name)
  | createInLoop name loop => exact hanswer _ (HandleM.advancing_createInLoop name loop)
  | materialize store flush =>
    exact hanswer _ (HandleM.advancing_materializeCopy store (t.live h) flush)
  | translate store flush =>
    dsimp only
    split
    · exact hanswer _ (HandleM.advancing_materializeCopy store (t.live h) flush)
    · exact HandleM.advancing_pure _
  | dispose => exact absurd hr hlast

theorem advances (t : Turn) (h : Handle) (hlast : t.request ≠ .dispose) :
    h.storage.Advances (t.attempts h) (t.next h).storage := by
  obtain ⟨new, he, hs⟩ := advancing_work h hlast (t.scene h)
  rw [attempts_eq he, next_eq]
  exact hs

end Turn

theorem Scene.dispose_reports (s : Scene) (found : Bool) :
    ∃ new, (s.dispose found).2.events = s.events ++ new ∧ Event.attempts new = [] := by
  unfold dispose
  cases hs : s.handle.storage with
  | unassigned => exact ⟨_, rfl, rfl⟩
  | restoring source => exact ⟨_, List.append_assoc .., rfl⟩
  | placed base =>
    simp only [removeBase]
    split <;> exact ⟨_, List.append_assoc .., rfl⟩

theorem Turn.attempts_of_dispose {t : Turn} (h : Handle) (hr : t.request = .dispose) :
    t.attempts h = [] ∧ (t.next h).storage = .unassigned := by
  obtain ⟨new, he, hnone⟩ := (t.scene h).dispose_reports
    ((t.before h).registry t.registry |>.deregister h.id).1
  have hwork : (left (t.work h (t.scene h))).events = t.session.events ++ new := by
    rw [work, hr]
    exact he
  constructor
  · rw [attempts_eq hwork, hnone]
  · rw [next_eq, work, hr]
    exact congrArg Handle.storage (Scene.dispose_handle (t.scene h) _)

namespace Handle

/-- The copies of a source that a handle attempts in some turns. -/
def attempts (h : Handle) : List Turn → List (Path × Path)
  | [] => []
  | t :: turns => t.attempts h ++ (t.next h).attempts turns

/-- A handle that is not restoring never is again, and has no source to copy. -/
theorem attempts_of_restored {h : Handle} (hr : h.isRestoring = false) (turns : List Turn) :
    h.attempts turns = [] ∧ (h.after turns).isRestoring = false := by
  induction turns generalizing h with
  | nil => exact ⟨rfl, hr⟩
  | cons t turns ih =>
    have hstep : t.attempts h = [] ∧ (t.next h).isRestoring = false := by
      by_cases hlast : t.request = .dispose
      · obtain ⟨hnone, hs⟩ := t.attempts_of_dispose h hlast
        exact ⟨hnone, by rw [isRestoring, hs]⟩
      · have hadvances := t.advances h hlast
        unfold isRestoring at hr ⊢
        generalize h.storage = before, t.attempts h = attempted, (t.next h).storage = after at *
        cases hadvances with
        | idle => exact ⟨rfl, hr⟩
        | assigned => exact ⟨rfl, rfl⟩
        | restored => cases hr
    obtain ⟨hnone, hnext⟩ := hstep
    obtain ⟨hrest, hafter⟩ := ih hnext
    exact ⟨by rw [attempts, hnone, hrest]; rfl, hafter⟩

/-- A restoring handle keeps its source until it attempts to copy it or is disposed of. -/
theorem attempts_of_restoring {h : Handle} {source : Path} (hs : h.storage = .restoring source)
    (turns : List Turn) :
    (h.attempts turns = [] ∧ (h.after turns).storage = .restoring source ∧
      ∀ t ∈ turns, t.request ≠ .dispose) ∨
    (h.after turns).isRestoring = false ∧
      (h.attempts turns = [] ∧ (∃ t ∈ turns, t.request = .dispose) ∨
        ∃ base, h.attempts turns = [(source, base)]) := by
  induction turns generalizing h with
  | nil => exact Or.inl ⟨rfl, hs, by simp⟩
  | cons t turns ih =>
    by_cases hlast : t.request = .dispose
    · obtain ⟨hnone, hnext⟩ := t.attempts_of_dispose h hlast
      obtain ⟨hrest, hafter⟩ :=
        attempts_of_restored (h := t.next h) (by rw [isRestoring, hnext]) turns
      refine Or.inr ⟨hafter, Or.inl ⟨?_, t, List.mem_cons_self .., hlast⟩⟩
      rw [attempts, hnone, hrest]
      rfl
    · have hadvances := t.advances h hlast
      rw [hs] at hadvances
      rw [attempts]
      generalize hattempted : t.attempts h = attempted at *
      generalize hnext : (t.next h).storage = next at *
      cases hadvances with
      | idle =>
        rcases ih hnext with ⟨hnone, hafter, hlive⟩ | ⟨hafter, ⟨hnone, t', ht', hdispose⟩ | hone⟩
        · exact Or.inl ⟨hnone, hafter, List.forall_mem_cons.2 ⟨hlast, hlive⟩⟩
        · exact Or.inr ⟨hafter, Or.inl ⟨hnone, t', List.mem_cons_of_mem _ ht', hdispose⟩⟩
        · exact Or.inr ⟨hafter, Or.inr hone⟩
      | restored _ base =>
        obtain ⟨hrest, hafter⟩ :=
          attempts_of_restored (h := t.next h) (by rw [isRestoring, hnext]) turns
        exact Or.inr ⟨hafter, Or.inr ⟨base, by rw [hrest]; rfl⟩⟩

end Handle

/-- What a restored handle waits for is copied once and exactly. The first thing that needs the base
directory makes a new one which holds what the source holds, and beside that no more than the
directories on the way to the index that was asked for; the source stays as it is. As long as no
directory can be made the handle waits for the same source; once copying has been attempted, by
whatever request and with whatever success, it never is attempted again. -/
theorem source_restored_once (h : Handle) :
    (∀ (t : Turn) source b index? reply s', h.Awaits source b t.session.files → t.IsOwn h →
      t.request.opens? h = some index? → t.outcome h = .ok reply s' →
        HandleM.Renewed source b (h.layout.way index?) t.session.files (t.next h) s'.files) ∧
    (∀ (s : Session) slot held key slot' (owner : Held) store source b s', owner.handle = h →
      s.owner? slot held key = some (slot', owner) → h.Awaits source b s.files →
      SessionM.fileStore slot held key s = .ok store s' → ∃ h', s'.held[slot']? =
        some { owner with handle := h' } ∧ HandleM.Renewed source b [] s.files h' s'.files) ∧
    (∀ (s : Scene) e s', s.handle = h → h.baseDir? = none → HandleM.claimBase s = .error e s' →
      HandleM.settle s = .error e s' ∧ s'.handle = h) ∧
    ∀ source, h.storage = .restoring source → ∀ turns,
      (h.attempts turns = [] ∧ (h.after turns).storage = .restoring source ∧
        ∀ t ∈ turns, t.request ≠ .dispose) ∨
      (h.attempts turns = [] ∧ (∃ t ∈ turns, t.request = .dispose) ∨
          ∃ base, h.attempts turns = [(source, base)]) ∧
        ∀ later, (h.after (turns ++ later)).isRestoring = false ∧
          (h.after turns).attempts later = [] := by
  refine ⟨fun t source b index? reply s' => Turn.renewed, ?_, ?_, ?_⟩
  · rintro s slot held key slot' owner store source b s' rfl ho ha hok
    exact SessionM.fileStore_renewed ho ha hok
  · rintro s e s' rfl hnone hclaim
    exact HandleM.settle_unclaimed hnone hclaim
  · intro source hs turns
    rcases Handle.attempts_of_restoring hs turns with hwaits | ⟨hafter, hdone⟩
    · exact Or.inl hwaits
    · refine Or.inr ⟨hdone, fun later => ?_⟩
      obtain ⟨hnone, hlater⟩ := Handle.attempts_of_restored hafter later
      exact ⟨by rw [Handle.after_append]; exact hlater, hnone⟩

namespace Sample

theorem waiting_awaits : waiting.Awaits ⟨"/b"⟩ ["b"] kept where
  storage := rfl
  stands := by decide +kernel
  free := tidy_kept.free _
  names := tidy_kept.names
  root := kept_staysOut

/-- A place is asked for in the new base directory. -/
def placing : Turn := turn (.shardDir 2 true) kept

theorem placing_own : placing.IsOwn waiting := by
  intro key hr
  cases hr

theorem placing_answer : answer (placing.outcome waiting) = .ok (.path ⟨"/fs--00000000/1"⟩) := by
  have hdir : answer (HandleM.shardDir 2 true (placing.scene waiting)) =
      .ok ⟨"/fs--00000000/1"⟩ := by decide +kernel
  have hwork : placing.work waiting = (do return .path (← HandleM.shardDir 2 true)) := rfl
  rw [Turn.answer_eq placing_own, hwork, answer_answer, hdir]
  rfl

end Sample

theorem source_restored_once_sample : ∃ path s' base place target,
    Sample.placing.outcome Sample.waiting = .ok (.path path) s' ∧
    s'.files.status base = .ok (place, .dir) ∧
    s'.files.node? (place ++ ["0", "0_a"]) = some (.file [1]) ∧
    s'.files.node? (place ++ ["1"]) = some .dir ∧
    Sample.waiting.attempts [Sample.placing] = [(⟨"/b"⟩, target)] := by
  obtain ⟨hexact, -, -, honce⟩ := source_restored_once Sample.waiting
  have hok := ok_of_answer Sample.placing_answer
  have hrenewed := hexact Sample.placing ⟨"/b"⟩ ["b"] (some 2) _ _ Sample.waiting_awaits
    Sample.placing_own rfl hok
  obtain ⟨base, place, hplaced, -, hstatus, hheld⟩ := hrenewed.placed
  have hattempted : ∃ target,
      Sample.waiting.attempts [Sample.placing] = [(⟨"/b"⟩, target)] := by
    rcases honce ⟨"/b"⟩ rfl [Sample.placing] with ⟨-, hwaits, -⟩ | ⟨⟨-, t, ht, hr⟩ | hdone, -⟩
    · rw [Handle.after, List.foldl_cons, List.foldl_nil, hplaced] at hwaits
      cases hwaits
    · rw [List.mem_singleton.1 ht] at hr
      cases hr
    · exact hdone
  obtain ⟨target, hattempted⟩ := hattempted
  refine ⟨_, _, base, place, target, hok, hstatus, ?_, ?_, hattempted⟩
  · rw [hheld]
    decide +kernel
  · rw [hheld]
    decide +kernel

namespace Sample

/-- The files with a link to the source beside it. -/
def linked : FileSystem := kept.add [] "l" (.link ⟨"/b"⟩)

/-- The temporary root is the root directory, by way of a directory that is yet to be made in the
source. -/
def detouring : Handle := { waiting with tempRoot := ⟨"/l/x/../.."⟩ }

theorem linked_free : linked.LinkFree ["b"] := by
  intro rest t hn
  rcases mem_add hn with ⟨he, -⟩ | hn
  · simp at he
  · exact tidy_kept.free ["b"] rest t hn

theorem linked_named : linked.Named := by
  intro dir name hs
  obtain ⟨node, hn⟩ := Option.isSome_iff_exists.1 hs
  rcases mem_add hn with ⟨he, -⟩ | hn
  · obtain ⟨-, he⟩ := List.append_inj' he rfl
    cases he
    decide
  · exact tidy_kept.names dir name (by rw [hn]; rfl)

end Sample

/-- A temporary root that is not in the source may still lead through it, and then what is missing
on the way is made there. -/
theorem root_through_source : ∃ s', Sample.detouring.storage = .restoring ⟨"/b"⟩ ∧
    Sample.linked.status ⟨"/b"⟩ = .ok (["b"], .dir) ∧ Sample.linked.LinkFree ["b"] ∧
    Sample.linked.Named ∧
    HandleM.ensureRestored ⟨Sample.detouring, Sample.linked, .byName, [], 0⟩ = .ok () s' ∧
    s'.files.status Sample.detouring.tempRoot = .ok ([], .dir) ∧ ¬["b"] <+: ([] : Location) ∧
    Sample.linked.node? ["b", "x"] = none ∧ s'.files.node? ["b", "x"] = some .dir := by
  have hok := ok_of_answer
    (r := HandleM.ensureRestored ⟨Sample.detouring, Sample.linked, .byName, [], 0⟩) (a := ())
    (by decide +kernel)
  refine ⟨_, rfl, by decide +kernel, Sample.linked_free, Sample.linked_named, hok, ?_⟩
  decide +kernel

end Depot
