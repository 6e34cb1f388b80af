import Depot.Proofs.Files.Ancestors
import Depot.Proofs.Session.Capacity

/-! Where created objects lie. The directory of an object is there when its key is given out, the
path of the object leads on from it by the name, and both stay what they are, whatever is asked of
whom, until the handle is disposed of. -/

namespace Depot

open FileSystem Work

/-! ## The directory of an index -/

/-- The handle has a base directory, and that of an index in it is this one. -/
structure Handle.Locates (h : Handle) (index : UInt64) (dir : Path) : Prop where
  room : h.layout.check index = .ok ()
  place : ∃ base, h.storage = .placed base ∧
    dir = base.join (.ofComponents (h.layout.shard index))

namespace Handle.Locates

variable {h : Handle} {index : UInt64} {dir : Path} {key : Key} {s : Scene}

theorem shardDir (hs : s.handle.Locates index dir) (hlive : s.handle.isDisposed = false) :
    HandleM.shardDir index false s = .ok dir s := by
  obtain ⟨base, hbase, rfl⟩ := hs.place
  unfold HandleM.shardDir
  rw [bind_ok (HandleM.refuseDisposed_of_live hlive)]
  exact (bind_ok (HandleM.needBase_eq_ok.2 ⟨Handle.baseDir?_eq_some.2 hbase, rfl⟩)).trans
    (HandleM.locate_lookup (Layout.path_of_check hs.room base))

/-- There is nothing to make where the directory is there. -/
theorem makes_nothing (hs : s.handle.Locates index dir) (hlive : s.handle.isDisposed = false)
    (hdir : s.files.isDir dir) : HandleM.shardDir index true s = .ok dir s := by
  obtain ⟨base, hbase, hplace⟩ := hs.place
  have hpath := Layout.path_of_check hs.room base
  rw [← hplace] at hpath
  have hmade : HandleM.onFiles .files (FileM.ensureShard dir) s = .ok () s :=
    HandleM.onFiles_eq_ok.2 ⟨s.files, FileM.ensureShard_of_isDir hdir, rfl⟩
  have hlocate : HandleM.locate base index true s = .ok dir s := by
    unfold HandleM.locate
    rw [bind_ok (HandleM.handle_apply s), bind_ok (HandleM.check_eq_ok.2 ⟨hpath, rfl⟩)]
    exact bind_ok (tryCatch_ok hmade _)
  unfold HandleM.shardDir
  rw [bind_ok (HandleM.refuseDisposed_of_live hlive)]
  exact (bind_ok (HandleM.settle_placed hbase)).trans hlocate

theorem objectPath (hs : s.handle.Locates key.index dir) (howner : key.owner = s.handle.id) :
    HandleM.objectPath key s = .ok (dir.child key.name.text) s := by
  obtain ⟨base, hbase, rfl⟩ := hs.place
  rw [HandleM.objectPath_placed howner hbase hs.room, Layout.child_path]

/-- An object is in the directory of its index, to the letter. -/
theorem parent? (hs : h.Locates index dir) (name : ObjectName) :
    (dir.child name.text).parent? = some dir := by
  obtain ⟨base, -, rfl⟩ := hs.place
  have hplain : ∀ part ∈ h.layout.shard index, Path.IsPlain part := fun _ hp =>
    Layout.isPlain_of_mem_shard hp
  have hne := h.layout.shard_ne_nil index
  have habs := Path.isAbsolute_ofComponents hplain
  have hslash : (base.join (.ofComponents (h.layout.shard index))).endsWithSlash = false := by
    rw [Path.endsWithSlash_join habs (Path.ofComponents_ne_empty hplain hne),
      Path.endsWithSlash_ofComponents hplain]
  have hsegs : (base.join (.ofComponents (h.layout.shard index))).segments =
      base.segments ++ (h.layout.shard index).dropLast ++ [(h.layout.shard index).getLast hne] := by
    rw [Path.segments_join habs, Path.segments_ofComponents hplain, List.append_assoc,
      List.dropLast_concat_getLast]
  exact Path.parent?_child hslash hsegs (hplain _ (List.getLast_mem hne)) name.isPlain

/-- The directory of an index stays the same as long as the handle is not disposed of. -/
theorem after (hs : h.Locates index dir) {turns : List Turn}
    (hlive : (h.after turns).isDisposed = false) : (h.after turns).Locates index dir := by
  obtain ⟨base, hbase, hdir⟩ := hs.place
  have hlayout := (h.after_same turns).layout
  refine ⟨by rw [hlayout, hs.room], base, Handle.after_placed hbase fun t ht hr => ?_,
    by rw [hlayout, hdir]⟩
  rw [Handle.disposed_of_request ht hr] at hlive
  cases hlive

end Handle.Locates

namespace HandleM

variable {s s' : Scene} {index : UInt64} {dir : Path} {key : Key}

/-- Making the directory of an index that has one puts it where it is looked for. -/
theorem locates_locate {base : Path} {ready : Scene} (hbase : ready.handle.storage = .placed base)
    (h : locate base index true ready = .ok dir s') : s'.handle.Locates index dir ∧
      AddsDirs (dir :: dir.ancestors) ready.files s'.files ∧ s'.files.isDir dir ∧
      s' = { ready with files := s'.files } := by
  have hmade := locate_made h
  have hcase := locateCase base index ready
  rw [h] at hcase
  cases hcase with
  | made hroom hdir hf => exact ⟨⟨hroom, base, hbase, hdir⟩, hmade.2.2.1, hmade.2.2.2, rfl⟩

/-- What making the directory of an index comes to. -/
structure Makes (index : UInt64) (dir : Path) (s s' : Scene) : Prop where
  /-- Directories on the way of the path come into being once the base directory is settled on. If
  there is one, that is all that happens. -/
  adds : ∃ base ready, settle s = .ok base ready ∧ (s.handle.baseDir? ≠ none → ready = s) ∧
    AddsDirs (dir :: dir.ancestors) ready.files s'.files ∧ s' = { ready with files := s'.files }
  stands : s'.files.isDir dir
  found : shardDir index false s' = .ok dir s'
  again : shardDir index true s' = .ok dir s'

theorem makes_shardDir (h : shardDir index true s = .ok dir s') : Makes index dir s s' := by
  obtain ⟨_, s₁, hlive, hrest⟩ := bind_eq_ok.1 h
  obtain ⟨hlive, rfl⟩ := refuseDisposed_eq_ok.1 hlive
  change (settle >>= fun base => locate base index true) s₁ = .ok dir s' at hrest
  obtain ⟨base, ready, hsettle, hlocate⟩ := bind_eq_ok.1 hrest
  have hready := settle_ok hsettle
  obtain ⟨hlocates, hadds, hdir, hs'⟩ := locates_locate (by rw [hready]) hlocate
  have hlive' : s'.handle.isDisposed = false := by
    rw [hs', hready]
    exact hlive
  refine ⟨⟨base, ready, hsettle, fun hsome => ?_, hadds, hs'⟩, hdir, hlocates.shardDir hlive',
    hlocates.makes_nothing hlive' hdir⟩
  obtain ⟨there, hthere⟩ := Option.ne_none_iff_exists'.1 hsome
  rw [settle_placed (Handle.baseDir?_eq_some.1 hthere)] at hsettle
  cases hsettle
  rfl

/-! ## Objects that are made -/

/-- A key is given out when its directory is there. -/
theorem locates_allocate {name : String} {loop : LoopContext}
    (h : allocate name loop s = .ok key s') : key.owner = s'.handle.id ∧
      s'.handle.isDisposed = false ∧ ∃ dir, s'.handle.Locates key.index dir ∧ s'.files.isDir dir := by
  obtain ⟨hlive, hk, -, base, ready, dir, made, hsettle, hlocate, rfl⟩ := allocate_eq_ok.1 h
  obtain ⟨howner, hindex, -, -⟩ := Key.make_ok hk
  have hready := settle_ok hsettle
  obtain ⟨hlocates, -, hdir, hmade⟩ := locates_locate (by rw [hready]) hlocate
  have hhandle : made.handle = { s.handle with storage := .placed base } := by
    rw [hmade, hready]
  refine ⟨by rw [hhandle, howner], ?_, dir, ⟨?_, ?_⟩, hdir⟩
  · rw [hhandle]
    exact hlive
  · rw [hindex]
    exact hlocates.room
  · rw [hindex]
    exact hlocates.place

theorem locates_newObject {name : String} {loop? : Option LoopContext}
    (h : newObject name loop? s = .ok key s') : key.owner = s'.handle.id ∧
      s'.handle.isDisposed = false ∧ ∃ dir, s'.handle.Locates key.index dir ∧ s'.files.isDir dir := by
  cases loop? with
  | none =>
    obtain ⟨_, _, made, -, -, -, ha, rfl⟩ := createObject_ok h
    obtain ⟨howner, hlive, dir, hlocates, hdir⟩ := locates_allocate ha
    exact ⟨howner, hlive, dir, ⟨hlocates.room, hlocates.place⟩, hdir⟩
  | some loop => exact locates_allocate (createInLoop_ok h).2

end HandleM

/-! ## In a session -/

/-- The request that makes an object, in a loop or not. -/
def Request.creation (name : String) : Option LoopContext → Request
  | none => .create name
  | some loop => .createInLoop name loop

namespace Session

variable {s s' : Session} {slot : String} {held : Held} {key : Key} {dir : Path}

/-- Work that leaves handle and files as they are leaves the session as it is. -/
theorem onHandle_still {α : Type} {m : HandleM α} {a : α} (hheld : s.held[slot]? = some held)
    (h : m ⟨held.handle, s.files, s.order, s.events, s.flushes⟩ =
      .ok a ⟨held.handle, s.files, s.order, s.events, s.flushes⟩) :
    SessionM.onHandle slot held m s = .ok a s := by
  have hslots : s.held.insert slot held = s.held := insert_same hheld
  refine SessionM.onHandle_eq_ok.2 ⟨_, h, ?_⟩
  dsimp only
  rw [hslots]

theorem creation_ok {name : String} {loop? : Option LoopContext}
    (h : (Request.creation name loop?).run slot held s = .ok (.key key) s') : ∃ scene,
      HandleM.newObject name loop? ⟨held.handle, s.files, s.order, s.events, s.flushes⟩ =
        .ok key scene ∧
      s'.files = scene.files ∧
      s'.held = s.held.insert slot { held with handle := scene.handle } := by
  have hrun : SessionM.onHandle slot held (HandleM.newObject name loop?) s = .ok key s' := by
    cases loop? with
    | none =>
      obtain ⟨_, _, hrun, hkey⟩ := bind_eq_ok.1 h
      cases hkey
      exact hrun
    | some loop =>
      obtain ⟨_, _, hrun, hkey⟩ := bind_eq_ok.1 h
      cases hkey
      exact hrun
  obtain ⟨scene, hscene, rfl⟩ := SessionM.onHandle_eq_ok.1 hrun
  exact ⟨scene, hscene, rfl, rfl⟩

/-- Whoever finds the owner of an object finds the object where the owner has it. -/
theorem fileStore_of_locates {slot' : String} {owner : Held}
    (ho : s.owner? slot held key = some (slot', owner)) (hheld : s.held[slot']? = some owner)
    (hs : owner.handle.Locates key.index dir) (howner : key.owner = owner.handle.id) :
    (Request.fileStore key).run slot held s =
      .ok (.store ⟨key, dir.child key.name.text⟩) s := by
  have hpath := onHandle_still hheld
    (Handle.Locates.objectPath (s := ⟨owner.handle, s.files, s.order, s.events, s.flushes⟩) hs
      howner)
  have hstore : SessionM.fileStore slot held key s = .ok ⟨key, dir.child key.name.text⟩ s := by
    rw [SessionM.fileStore_of_owner ho, bind_ok hpath]
    rfl
  exact bind_ok hstore

end Session

/-- A created object has one place. When its key is given out its directory is there, and from then
on, whatever is done by whom, and whatever becomes of the files, as long as the handle is held and
not disposed of it answers the same path for the object, in the same directory, which is that of the
key's index, and so does every handle that finds the owner of the key. Where the directory of an
index has been made it is there and is where it is looked for, to make it once more changes nothing,
and nothing came into being but directories on its way once the base directory was settled on. -/
theorem created_places (files : FileSystem) (order : ListingOrder) (systemTemp : Path)
    (acts : List Act) :
    let s := (Session.start files order systemTemp).after acts
    (∀ slot held name loop? key made, s.held[slot]? = some held →
      (Request.creation name loop?).run slot held s = .ok (.key key) made →
      ∃ dir now, made.held[slot]? = some now ∧ now.ticket = held.ticket ∧
        now.handle.isDisposed = false ∧ made.files.isDir dir ∧
        (dir.child key.name.text).parent? = some dir ∧
        ∀ later slot' then', let s' := made.after later
          s'.held[slot']? = some then' → then'.ticket = held.ticket →
          then'.handle.isDisposed = false →
            (Request.objectPath key).run slot' then' s' = .ok (.path (dir.child key.name.text)) s' ∧
            (Request.shardDir key.index false).run slot' then' s' = .ok (.path dir) s' ∧
            ∀ asker asking, s'.owner? asker asking key = some (slot', then') →
              (Request.fileStore key).run asker asking s' =
                .ok (.store ⟨key, dir.child key.name.text⟩) s') ∧
    ∀ scene index dir made, HandleM.shardDir index true scene = .ok dir made →
      HandleM.Makes index dir scene made := by
  intro s
  refine ⟨?_, fun scene index dir made h => HandleM.makes_shardDir h⟩
  intro slot held name loop? key made hheld hmade
  have horderly : s.Orderly := Session.orderly_after files order systemTemp acts
  obtain ⟨scene, hscene, hfiles, hslots⟩ := Session.creation_ok hmade
  obtain ⟨howner, hlive, dir, hlocates, hdir⟩ := HandleM.locates_newObject hscene
  have hnow : made.held[slot]? = some { held with handle := scene.handle } := by
    rw [hslots, Session.slot_of_insert, if_pos rfl]
  refine ⟨dir, _, hnow, rfl, hlive, by rw [hfiles, hdir], hlocates.parent? key.name, ?_⟩
  intro later slot' then' s' hthen hticket hlive'
  -- the handle is the one that made the key, some turns later
  have hown : (s.turn slot held (.creation name loop?)).IsOwn held.handle := by
    cases loop? <;> exact nofun
  have hreaches : s.Reaches true made := by
    have hturn := Session.reaches_turn true hheld hown
    rwa [hmade, left_ok] at hturn
  have hfollows := (horderly.reaches hreaches).follows hnow
  obtain ⟨turns, hturns⟩ := ((hfollows.reaches (Session.reaches_any later made)).2 slot' then'
    hthen hticket).course
  have hthere : then'.handle.Locates key.index dir := by
    rw [hturns] at hlive' ⊢
    exact hlocates.after hlive'
  have howner' : key.owner = then'.handle.id := by
    rw [hturns, (scene.handle.after_same turns).id, howner]
  let now : Scene := ⟨then'.handle, s'.files, s'.order, s'.events, s'.flushes⟩
  have hpath := Session.onHandle_still hthen (Handle.Locates.objectPath (s := now) hthere howner')
  have hshard := Session.onHandle_still hthen (Handle.Locates.shardDir (s := now) hthere hlive')
  exact ⟨bind_ok hpath, bind_ok hshard, fun asker asking ho =>
    Session.fileStore_of_locates ho hthen hthere howner'⟩

namespace Sample

/-- A handle that takes objects. -/
def ready : List Act := [taking "h", .ask "h" .reopen]

def keyOf : Reply → Option Key
  | .key key => some key
  | _ => none

end Sample

theorem created_places_sample : ∃ held key made dir,
    (Sample.session.after Sample.ready).held["h"]? = some held ∧
    (Request.creation "0_a" none).run "h" held (Sample.session.after Sample.ready) =
      .ok (.key key) made ∧
    made.files.isDir dir ∧ (dir.child key.name.text).parent? = some dir := by
  have hrun : ((Sample.session.after Sample.ready).held["h"]?).bind (fun held =>
      ((answer ((Request.creation "0_a" none).run "h" held
        (Sample.session.after Sample.ready))).toOption.bind Sample.keyOf).map (·.name.text)) =
      some "0_a" := by decide +kernel
  obtain ⟨held, hheld, hdone⟩ := Option.bind_eq_some_iff.1 hrun
  obtain ⟨key, hkey, -⟩ := Option.map_eq_some_iff.1 hdone
  obtain ⟨reply, hreply, hkey⟩ := Option.bind_eq_some_iff.1 hkey
  cases hans : answer ((Request.creation "0_a" none).run "h" held
      (Sample.session.after Sample.ready)) with
  | error e => simp [hans, Except.toOption] at hreply
  | ok r =>
    rw [hans] at hreply
    cases hreply
    cases reply <;> cases hkey
    have hmade := ok_of_answer hans
    obtain ⟨dir, -, -, -, -, hdir, hparent, -⟩ :=
      (created_places Sample.files .byName ⟨"/"⟩ Sample.ready).1 "h" held "0_a" none key _ hheld
        hmade
    exact ⟨held, key, _, dir, hheld, hmade, hdir, hparent⟩

end Depot
