import Depot.Proofs.Handle.CopyPlaces
import Depot.Proofs.Handle.Settling

/-! Restored handles. The first thing a handle is asked that needs its base directory has the source
copied into a new one. The source stays as it is, and the new directory holds the same and no more,
but for the place of an index if one was asked for. -/

namespace Depot

open FileSystem Work

/-- A path leads out of a place, and making it makes nothing in that place. -/
def FileSystem.StaysOut (fs : FileSystem) (p : Path) (place : Location) : Prop :=
  ∀ made, FileM.mkdirAll p fs = .ok () made → (∀ loc, made.Leads p loc → ¬place <+: loc) ∧
    ∀ rest, made.node? (place ++ rest) = fs.node? (place ++ rest)

/-- The directories that lead to an index, if there is one. -/
def Layout.way (l : Layout) : Option UInt64 → List String
  | none => []
  | some index => l.shard index

namespace HandleM

variable {source base : Path} {b place : Location} {fs fs' : FileSystem}

/-- A new base directory is apart from the old one, and that is as it was. -/
theorem NewBase.apart {root : Path} (hnew : NewBase root base fs fs' place)
    (hdir : fs.node? b = some .dir) (hout : fs.StaysOut root b) :
    Apart b place ∧ ∀ rest, fs'.node? (b ++ rest) = fs.node? (b ++ rest) := by
  obtain ⟨made, dir, name, hmade, hleads, rfl, hputs, hfree, -⟩ := hnew.ready
  obtain ⟨hleave, hold⟩ := hout made hmade
  have hdir' : made.node? b = some .dir := by
    have hroot := hold []
    rw [List.append_nil] at hroot
    rw [hroot, hdir]
  have hapart : Apart b (dir ++ [name]) := by
    constructor
    · intro hp
      rcases List.prefix_concat_iff.1 hp with rfl | hp
      · rw [hfree] at hdir'
        cases hdir'
      · exact hleave dir hleads hp
    · rintro ⟨rest, rfl⟩
      rw [node?_append_of_none hfree] at hdir'
      cases hdir'
  refine ⟨hapart, fun rest => ?_⟩
  rw [hputs.fills.outside _ (hapart.outside rest), hold]

/-- A new base directory holds what the source holds, and the source is as it was. All of it could
be named behind both paths. -/
structure Renews (source base : Path) (b place : Location) (fs fs' : FileSystem) : Prop where
  fresh : fs.node? place = none
  stands : fs'.status base = .ok (place, .dir)
  still : fs'.status source = .ok (b, .dir)
  apart : Apart b place
  held : ∀ rest, fs'.node? (place ++ rest) = fs.node? (b ++ rest)
  kept : ∀ rest, fs'.node? (b ++ rest) = fs.node? (b ++ rest)
  names : fs'.Named
  reach : ∀ rest ≠ [], (fs.node? (b ++ rest)).isSome →
    Reachable source rest ∧ Reachable base rest

theorem settle_renews {s s' : Scene} (hsource : s.handle.storage = .restoring source)
    (hstatus : s.files.status source = .ok (b, .dir)) (hfree : s.files.LinkFree b)
    (hnamed : s.files.Named) (hout : s.files.StaysOut s.handle.tempRoot b)
    (h : settle s = .ok base s') : ∃ place, Renews source base b place s.files s'.files := by
  cases settled h with
  | placed hs _ => simp [hsource] at hs
  | claimed hs _ => simp [hsource] at hs
  | @restored source' fs place n hs hnew hcopy =>
    rw [hsource] at hs
    cases hs
    obtain ⟨-, hdir, -⟩ := leads_of_status hstatus
    obtain ⟨hapart, hsame⟩ := hnew.apart hdir hout
    have hstatus' := status_dir_grows hstatus hnew.grows
    have hfill := hnew.fillable hnamed
    obtain ⟨hfills, htree, hreach⟩ := FileM.copyTree_fresh hstatus' hnew.stands hfill hnew.empty
      hapart (hfree.of_same hsame) hcopy
    refine ⟨place, hnew.fresh, status_dir_grows hnew.stands hfills.grows,
      status_dir_grows hstatus' hfills.grows, hapart, fun rest => ?_, fun rest => ?_,
      hfills.names hfill.names, fun rest hrest hsome => ?_⟩
    · rw [htree, hsame]
    · rw [hfills.outside _ (hapart.outside rest), hsame]
    · exact hreach rest hrest (by rwa [hsame])

/-- What was found behind the old base directory is found behind the new one. -/
theorem treeAt_restored {s s' : Scene} (hsource : s.handle.storage = .restoring source)
    (hstatus : s.files.status source = .ok (b, .dir)) (hfree : s.files.LinkFree b)
    (hnamed : s.files.Named) (hout : s.files.StaysOut s.handle.tempRoot b)
    (h : settle s = .ok base s') {names : List String}
    (hplain : ∀ name ∈ names, Path.IsPlain name) (hne : names ≠ []) :
    s'.files.treeAt (base.join (.ofComponents names)) =
      s.files.treeAt (source.join (.ofComponents names)) := by
  obtain ⟨place, hrenews⟩ := settle_renews hsource hstatus hfree hnamed hout h
  have hleads := (leads_of_status hstatus).1
  have hleads' := (leads_of_status hrenews.stands).1
  have hfree' := hfree.of_same hrenews.held
  rw [treeAt_join hleads' hfree' hplain hne, treeAt_join hleads hfree hplain hne]
  cases hn : s.files.node? (b ++ names) with
  | none =>
    have hnone : ∀ rest, s.files.node? (b ++ names ++ rest) = none := node?_append_of_none hn
    have hheld := hrenews.held
    simp only [List.append_assoc] at hheld hnone ⊢
    simp only [hheld, hnone, ite_self]
  | some node =>
    -- what has been copied could be named behind both paths
    obtain ⟨hsource, hbase⟩ := hrenews.reach names hne (by rw [hn]; rfl)
    rw [if_pos hbase, if_pos hsource]
    have hheld := hrenews.held
    simp only [List.append_assoc] at hheld ⊢
    simp only [hheld]

/-! ## And the place of an index -/

/-- What there is of the source in a new base directory when the handle has done what it was asked
for: everything, and nothing else but the directories on the way to an index. The source is as it
was. -/
structure Renewed (source : Path) (b : Location) (way : List String) (fs : FileSystem) (h' : Handle)
    (fs' : FileSystem) : Prop where
  placed : ∃ base place, h'.storage = .placed base ∧ fs.node? place = none ∧
    fs'.status base = .ok (place, .dir) ∧ ∀ rest, fs'.node? (place ++ rest) =
      (fs.node? (b ++ rest)).or (if rest <+: way then some .dir else none)
  still : fs'.status source = .ok (b, .dir)
  kept : ∀ rest, fs'.node? (b ++ rest) = fs.node? (b ++ rest)

/-- A base directory is settled on, and the place of an index made in it if there is one. -/
structure Opens (index? : Option UInt64) (base : Path) (s s' : Scene) : Prop where
  placed : s'.handle.storage = .placed base
  done : ∃ s₁, settle s = .ok base s₁ ∧ match index? with
    | none => s'.files = s₁.files
    | some index => ∃ dir s₂, locate base index true s₁ = .ok dir s₂ ∧ s'.files = s₂.files

variable {s s' : Scene} {index : UInt64} {index? : Option UInt64}

theorem opens_settle (h : settle s = .ok base s') : Opens none base s s' :=
  ⟨by rw [settle_ok h], s', h, rfl⟩

theorem opens_ensureRestored {u : Unit} (hsource : s.handle.storage = .restoring source)
    (h : ensureRestored s = .ok u s') : ∃ base, Opens none base s s' := by
  obtain ⟨base, hsettle⟩ := ensureRestored_ok hsource h
  exact ⟨base, opens_settle hsettle⟩

theorem opens_objectPath {key : Key} {path : Path} (hsource : s.handle.storage = .restoring source)
    (h : objectPath key s = .ok path s') : ∃ base, Opens none base s s' := by
  unfold objectPath at h
  rw [bind_ok (handle_apply s)] at h
  split at h
  · cases h
  obtain ⟨_, s₁, hrestore, h₁⟩ := bind_eq_ok.1 h
  obtain ⟨base, hsettle⟩ := restore_ok hsource hrestore
  obtain ⟨_, _, hbase, h₂⟩ := bind_eq_ok.1 h₁
  obtain ⟨-, rfl⟩ := needBase_eq_ok.1 hbase
  obtain ⟨dir, s₂, hlocate, h₃⟩ := bind_eq_ok.1 h₂
  cases h₃
  rw [locate_lookup (locate_eq_ok hlocate)] at hlocate
  cases hlocate
  exact ⟨base, opens_settle hsettle⟩

theorem opens_shardDir {dir : Path} (h : shardDir index true s = .ok dir s') :
    ∃ base, Opens (some index) base s s' := by
  unfold shardDir at h
  simp only [bind_eq_ok, refuseDisposed_eq_ok, ↓reduceIte] at h
  obtain ⟨_, _, ⟨-, rfl⟩, base, s₁, hsettle, hlocate⟩ := h
  have hhandle : s'.handle = s₁.handle := (spares_locate _ _ _).handle_ok hlocate
  exact ⟨base, by rw [hhandle, settle_ok hsettle], s₁, hsettle, dir, s', hlocate, rfl⟩

theorem opens_allocate {name : String} {loop : LoopContext} {key : Key}
    (h : allocate name loop s = .ok key s') :
    ∃ base, Opens (some s.handle.nextIndex) base s s' := by
  obtain ⟨-, -, -, base, s₁, dir, s₂, hsettle, hlocate, rfl⟩ := allocate_eq_ok.1 h
  have hhandle : s₂.handle = s₁.handle := (spares_locate _ _ _).handle_ok hlocate
  exact ⟨base, by rw [hhandle, settle_ok hsettle], s₁, hsettle, dir, s₂, hlocate, rfl⟩

theorem opens_createObject {name : String} {key : Key} (h : createObject name s = .ok key s') :
    ∃ base, Opens (some s.handle.nextIndex) base s s' := by
  obtain ⟨_, _, s₁, -, -, -, ha, rfl⟩ := createObject_ok h
  obtain ⟨base, hplaced, hdone⟩ := opens_allocate ha
  exact ⟨base, hplaced, hdone⟩

theorem opens_createInLoop {name : String} {loop : LoopContext} {key : Key}
    (h : createInLoop name loop s = .ok key s') :
    ∃ base, Opens (some s.handle.nextIndex) base s s' := opens_allocate (createInLoop_ok h).2

/-- Making the place of an index adds to a base directory what leads there, and nothing else
anywhere. -/
theorem node?_located {dir : Path} (hbase : s.files.status base = .ok (place, .dir))
    (hfree : s.files.LinkFree place) (h : locate base index true s = .ok dir s') :
    (∀ rest, s'.files.node? (place ++ rest) = (s.files.node? (place ++ rest)).or
      (if rest <+: s.handle.layout.shard index then some .dir else none)) ∧
    ∀ loc, ¬place <+: loc → s'.files.node? loc = s.files.node? loc := by
  obtain ⟨-, rfl, hadds, hisDir⟩ := locate_made h
  obtain ⟨hleads, hdir, -⟩ := leads_of_status hbase
  have hplain : ∀ name ∈ s.handle.layout.shard index, Path.IsPlain name := fun _ hn =>
    Layout.isPlain_of_mem_shard hn
  have hfree' := hadds.linkFree hfree
  obtain ⟨l, hshard⟩ := isDir_iff.1 hisDir
  obtain ⟨-, rfl⟩ := loc_of_status (hleads.mono hadds.old.grows) hfree' hplain
    (s.handle.layout.shard_ne_nil index) hshard
  obtain ⟨-, hmade, -⟩ := leads_of_status hshard
  have hnew : ∀ loc, s.files.node? loc = none → (s'.files.node? loc).isSome →
      s'.files.node? loc = some .dir ∧
        ∃ init, init <+: s.handle.layout.shard index ∧ loc = place ++ init := fun loc hn hs =>
    ⟨(hadds.new loc hn hs).1, hadds.on_way
      (fun _ hp => (onWay_join hplain).made hp) hleads hdir hfree hplain hn hs⟩
  constructor
  · intro rest
    cases hn : s.files.node? (place ++ rest) with
    | some node => rw [hadds.old _ node hn, Option.some_or]
    | none =>
      rw [Option.none_or]
      split
      · next hway =>
        obtain ⟨more, hmore⟩ := hway
        rw [← hmore, ← List.append_assoc] at hmade
        by_cases hnil : more = []
        · rwa [hnil, List.append_nil] at hmade
        · exact node?_above hnil (by rw [hmade]; rfl)
      · next hway =>
        cases hn' : s'.files.node? (place ++ rest) with
        | none => rfl
        | some node =>
          obtain ⟨-, init, hinit, heq⟩ := hnew _ hn (by rw [hn']; rfl)
          rw [List.append_cancel_left_eq] at heq
          exact absurd (heq ▸ hinit) hway
  · intro loc hloc
    cases hn : s.files.node? loc with
    | some node => exact hadds.old _ node hn
    | none =>
      cases hn' : s'.files.node? loc with
      | none => rfl
      | some node =>
        obtain ⟨-, init, -, rfl⟩ := hnew _ hn (by rw [hn']; rfl)
        exact absurd (List.prefix_append ..) hloc

theorem Opens.renewed (h : Opens index? base s s')
    (hsource : s.handle.storage = .restoring source)
    (hstatus : s.files.status source = .ok (b, .dir)) (hfree : s.files.LinkFree b)
    (hnamed : s.files.Named) (hout : s.files.StaysOut s.handle.tempRoot b) :
    Renewed source b (s.handle.layout.way index?) s.files s'.handle s'.files := by
  obtain ⟨s₁, hsettle, hdone⟩ := h.done
  obtain ⟨place, hnew⟩ := settle_renews hsource hstatus hfree hnamed hout hsettle
  cases index? with
  | none =>
    rw [hdone]
    refine ⟨⟨base, place, h.placed, hnew.fresh, hnew.stands, fun rest => ?_⟩, hnew.still, hnew.kept⟩
    rw [hnew.held]
    -- the way is empty, and at its end is the source itself
    by_cases hrest : rest = []
    · subst hrest
      rw [List.append_nil, (leads_of_status hstatus).2.1, Option.some_or]
    · rw [Layout.way, if_neg (by simpa using hrest), Option.or_none]
  | some index =>
    obtain ⟨dir, s₂, hlocate, hfiles⟩ := hdone
    rw [hfiles]
    have hlayout : s₁.handle.layout = s.handle.layout := by rw [settle_ok hsettle]
    obtain ⟨hinside, houtside⟩ := node?_located hnew.stands (hfree.of_same hnew.held) hlocate
    rw [hlayout] at hinside
    have hgrows : Grows s₁.files s₂.files := (locate_made hlocate).2.2.1.old.grows
    refine ⟨⟨base, place, h.placed, hnew.fresh, status_dir_grows hnew.stands hgrows,
      fun rest => ?_⟩, status_dir_grows hnew.still hgrows, fun rest => ?_⟩
    · rw [hinside, hnew.held, Layout.way]
    · rw [houtside _ (hnew.apart.outside rest), hnew.kept]

end HandleM

namespace Sample

/-- The files when the copy has been written. -/
def kept : FileSystem := files.add ["b", "0"] "0_a" (.file [1])

theorem tidy_kept : kept.Tidy := tidy_files.add _ (by decide) (by simp)

/-- The handle restored, with its former base directory for the source. -/
def waiting : Handle := { handle with storage := .restoring ⟨"/b"⟩ }

end Sample

end Depot
