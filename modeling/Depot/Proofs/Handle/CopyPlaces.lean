import Depot.Proofs.Files.Confinement
import Depot.Proofs.Handle.Lives
import Depot.Proofs.Handle.Memory

/-! Where copies go. A copy is put where its key leads without a look at what is there already. -/

namespace Depot

open FileSystem Work

namespace HandleM

/-- How a new copy was made: a base directory was settled on after the content had been written out,
and the content copied to the place of the key. -/
structure Copied (store : FileStore) (flush : FileM Unit) (key : Key) (s s' : Scene) (base : Path)
    (ready : Scene) : Prop where
  settled : ∃ s₁, s₁.handle.storage = s.handle.storage ∧ s₁.files = left (flush s.files) ∧
    Settled s₁ base ready
  owner : key.owner = s'.handle.id
  layout : s'.handle.layout = s.handle.layout
  room : s.handle.layout.check key.index = .ok ()
  placed : s'.handle.storage = .placed base
  done : ∃ fs n,
    AddsDirs (base.join (.ofComponents (s.handle.layout.shard key.index)) ::
      (base.join (.ofComponents (s.handle.layout.shard key.index))).ancestors) ready.files fs ∧
    fs.isDir (base.join (.ofComponents (s.handle.layout.shard key.index))) ∧
    FileM.copyTree store.path (base.join (.ofComponents (s.handle.layout.names key))) s.order fs =
      .ok n s'.files

theorem copied {store : FileStore} {live : List Identity} {flush : FileM Unit} {key : Key}
    {s s' : Scene} (h : materializeCopy store live flush s = .ok key s')
    (hmiss : s.handle.memory.use store.key = none) :
    ∃ base ready, Copied store flush key s s' base ready := by
  have hcase := copyCase store live flush s
  rw [h] at hcase
  cases hcase with
  | remembered _ hu => simp [hmiss] at hu
  | made _ _ hr hc =>
    obtain ⟨base, ready, hreserved⟩ := reserve_made hr
    obtain ⟨flushed, hflush, hsettle⟩ := hreserved.settled
    have hrecalled := recalled_handle store.key live s
    have hlayout : (recalled store.key live s).handle.layout = s.handle.layout := by rw [hrecalled]
    have howner := hreserved.owner
    have hadds := hreserved.adds
    have hshard := hreserved.shard
    rw [hreserved.place, reserve_order hr, recalled_order] at hc
    rw [hlayout] at hadds hshard hc
    refine ⟨base, ready, ⟨_, ?_, ?_, settled hsettle⟩, ?_, ?_, hlayout ▸ hreserved.room, ?_, _, _,
      hadds, hshard, hc⟩
    · rw [hrecalled]
    · rw [recalled_files] at hflush
      rw [hflush]
      rfl
    · rw [howner, hreserved.handle]
    · rw [hreserved.handle, hlayout]
    · rw [hreserved.handle]

end HandleM

namespace Scene

/-- What there is in the base directory. -/
def holdings (s : Scene) : Location → Option Node := fun rest =>
  match s.handle.storage with
  | .placed base => s.files.treeAt base rest
  | _ => none

theorem holdings_placed {s : Scene} {base : Path} {b : Location}
    (hs : s.handle.storage = .placed base) (hb : s.files.status base = .ok (b, .dir))
    (rest : Location) : s.holdings rest = s.files.node? (b ++ rest) := by
  rw [holdings, hs]
  exact treeAt_of_status hb rest

theorem Housed.holdings_nil {s : Scene} (h : s.Housed) (content : Content) :
    s.holdings [] ≠ some (.file content) := by
  intro hn
  cases hs : s.handle.storage with
  | placed base =>
    obtain ⟨b, hb, -⟩ := h.base base hs
    rw [holdings_placed hs hb, List.append_nil, (leads_of_status hb).2.1] at hn
    cases hn
  | unassigned =>
    rw [holdings, hs] at hn
    cases hn
  | restoring source =>
    rw [holdings, hs] at hn
    cases hn

/-- The source of a copy is not in the base directory, and no link below it leads to the place of
the copy. -/
def Elsewhere (s : Scene) (source : Path) (copy : Key) : Prop :=
  ∀ base b loc node, s.handle.storage = .placed base → s.files.status base = .ok (b, .dir) →
    s.files.status source = .ok (loc, node) →
      ¬b <+: loc ∧ s.files.LeadsOut loc (b ++ s.handle.layout.names copy)

/-- There is nothing below a file, so no link either. -/
theorem elsewhere_file {s : Scene} {base source : Path} {b loc : Location} {content : Content}
    (hs : s.handle.storage = .placed base) (hb : s.files.status base = .ok (b, .dir))
    (hsource : s.files.status source = .ok (loc, .file content)) (hout : ¬b <+: loc) (copy : Key) :
    s.Elsewhere source copy := by
  intro base' b' loc' node hs' hb' hsource'
  rw [hs] at hs'
  cases hs'
  rw [hb] at hb'
  cases hb'
  rw [hsource] at hsource'
  cases hsource'
  refine ⟨hout, fun rest name t place hn => ?_⟩
  rw [List.append_assoc] at hn
  have hbelow : rest ++ [name] ≠ [] := by simp
  have habove := node?_above hbelow (by rw [hn]; rfl)
  rw [(leads_of_status hsource).2.1] at habove
  cases habove

end Scene

namespace HandleM

section

variable {store : FileStore} {live : List Identity} {flush : FileM Unit} {key : Key}
  {s s' ready : Scene} {base : Path}

/-- The base directory a copy is made in, and that it holds what the handle held before. -/
theorem Copied.before (h : Copied store flush key s s' base ready) (hh : s.Housed)
    (hrestored : s.handle.isRestoring = false)
    (hflush : s.handle.Undisturbed s.files (left (flush s.files))) :
    ∃ b, ready.files.status base = .ok (b, .dir) ∧ ready.files.LinkFree b ∧ ready.files.Named ∧
      ∀ rest ≠ [], ready.files.node? (b ++ rest) = s.holdings rest := by
  obtain ⟨s₁, hstorage, hfiles, hsettled⟩ := h.settled
  have hflushed := hh.undisturbed hflush
  cases hsettled with
  | placed hs he =>
    rw [he, hfiles]
    rw [hstorage] at hs
    obtain ⟨b, hb, hfree⟩ := hh.base base hs
    obtain ⟨hb', hsame⟩ := hflush.base base b hs hb
    refine ⟨b, hb', hfree.of_same hsame, hflushed.names, fun rest _ => ?_⟩
    rw [hsame, Scene.holdings_placed hs hb]
  | claimed hs hnew =>
    rw [hfiles] at hnew
    rw [hstorage] at hs
    have hfill := hnew.fillable hflushed.names
    refine ⟨_, hnew.stands, hfill.free, hfill.names, fun rest hrest => ?_⟩
    rw [hnew.empty rest hrest, Scene.holdings, hs]
  | restored hs =>
    rw [hstorage] at hs
    rw [Handle.isRestoring, hs] at hrestored
    cases hrestored

/-- The place of a copy holds what the source shows, or where that shows nothing, what was there
before; what is elsewhere stays. -/
structure Arrives (base source : Path) (names : List String) (b : Location)
    (fs fs' : FileSystem) : Prop where
  stands : fs'.status base = .ok (b, .dir)
  grows : Grows fs fs'
  outside : ∀ loc node, ¬b ++ names <+: loc → fs.node? loc = some node → fs'.node? loc = some node
  found : ∀ rest, fs'.treeAt (base.join (.ofComponents names)) rest = fs'.node? (b ++ names ++ rest)
  node : ∀ rest, fs'.node? (b ++ names ++ rest) =
    (fs'.shownAt source rest).or (fs.node? (b ++ names ++ rest))

theorem Copied.arrives {b : Location} (h : Copied store flush key s s' base ready)
    (hbase : ready.files.status base = .ok (b, .dir)) (hfree : ready.files.LinkFree b)
    (hnamed : ready.files.Named) (hsource : s'.Elsewhere store.path key) :
    Arrives base store.path (s.handle.layout.names key) b ready.files s'.files := by
  obtain ⟨fs, n, hadds, hshard, hcopy⟩ := h.done
  obtain ⟨hleads, hstands, -⟩ := leads_of_status hbase
  have hplainShard : ∀ name ∈ s.handle.layout.shard key.index, Path.IsPlain name := fun _ hn =>
    Layout.isPlain_of_mem_shard hn
  have hplain : ∀ name ∈ s.handle.layout.names key, Path.IsPlain name := fun _ hn =>
    Layout.isPlain_of_mem_names hn
  have hleads₁ := hleads.mono hadds.old.grows
  have hfree₁ := hadds.linkFree hfree
  obtain ⟨l, hdir⟩ := isDir_iff.1 hshard
  obtain ⟨-, rfl⟩ := loc_of_status hleads₁ hfree₁ hplainShard (s.handle.layout.shard_ne_nil _) hdir
  obtain ⟨hdirLeads, hdirStands, -⟩ := leads_of_status hdir
  have hbuilds := Keeps.ok (FileM.building_copyTree _ _ _) hcopy (hadds.names hnamed)
  have hall : Grows ready.files s'.files := hadds.old.grows.trans hbuilds.grows
  have hbase' := status_dir_grows hbase hall
  obtain ⟨loc, before, hs⟩ := FileM.status_of_copyTree hcopy
  obtain ⟨after, hs', -⟩ := status_grows hs hbuilds.grows
  obtain ⟨hout, hlinks⟩ := hsource base b loc after h.placed hbase' hs'
  rw [h.layout] at hlinks
  have hplace : b ++ s.handle.layout.shard key.index ++ [key.name.text] =
      b ++ s.handle.layout.names key := List.append_assoc ..
  obtain ⟨hlands, hreach⟩ := FileM.lands_copyTree hleads₁ hfree₁ (hadds.names hnamed) hplain
    hdirLeads hdirStands hs hout (by rw [hplace]; exact hlinks) hcopy
  rw [hplace] at hlands
  refine ⟨hbase', hall, fun l node hl hn => ?_, fun rest => ?_, fun rest => ?_⟩
  · rw [hlands.fills.outside l hl]
    exact hadds.old l node hn
  · have hreach' : Reachable base (s.handle.layout.names key) := hreach
    rw [treeAt_join (hleads₁.mono hbuilds.grows) (hlands.fills.linkFree hfree₁) hplain
      (s.handle.layout.names_ne_nil key), if_pos hreach']
  · -- making the directories on the way has put nothing in the place itself
    have hsame : fs.node? (b ++ s.handle.layout.names key ++ rest) =
        ready.files.node? (b ++ s.handle.layout.names key ++ rest) := ?_
    · rw [hlands.node, shownAt_of_status hs', hsame]
    cases hn : ready.files.node? (b ++ s.handle.layout.names key ++ rest) with
    | some node => exact hadds.old _ _ hn
    | none =>
      cases hn' : fs.node? (b ++ s.handle.layout.names key ++ rest) with
      | none => rfl
      | some node =>
        obtain ⟨init, hinit, heq⟩ := hadds.on_way (fun _ hp => (onWay_join hplainShard).made hp)
          hleads hstands hfree hplainShard hn (by rw [hn']; rfl)
        rw [List.append_assoc, List.append_cancel_left_eq] at heq
        have hlen := congrArg List.length heq
        have hle := hinit.length_le
        simp only [Layout.names, List.length_append, List.length_singleton] at hlen
        omega

/-- Copies are exact where nothing is in the way. When a handle makes a new copy, its files are as
they were and the place of the copy shows what the source shows, if and only if all that the handle
held at that place is found at the source too, and is the same there. -/
theorem copy_exact (hlived : Lived s.handle s.files) (hrestored : s.handle.isRestoring = false)
    (hflush : s.handle.Undisturbed s.files (left (flush s.files)))
    (hmiss : s.handle.memory.use store.key = none)
    (h : materializeCopy store live flush s = .ok key s') (hsource : s'.Elsewhere store.path key) :
    ∃ target, objectPath key s' = .ok target s' ∧
      ((∀ rest content, s.holdings rest = some (.file content) →
          s'.holdings rest = some (.file content)) ∧
        s'.files.treeAt target = s'.files.shownAt store.path ↔
      ∀ rest old, s.holdings (s.handle.layout.names key ++ rest) = some old →
        s'.files.shownAt store.path rest = some old) := by
  obtain ⟨base, ready, hcopied⟩ := copied h hmiss
  obtain ⟨b, hbase, hfree, hnamed, hbefore⟩ := hcopied.before hlived.housed hrestored hflush
  have harrives := hcopied.arrives hbase hfree hnamed hsource
  have hafter := Scene.holdings_placed hcopied.placed harrives.stands
  have hway : ∀ rest, ready.files.node? (b ++ s.handle.layout.names key ++ rest) =
      s.holdings (s.handle.layout.names key ++ rest) := by
    intro rest
    rw [List.append_assoc]
    exact hbefore _ (by simp [s.handle.layout.names_ne_nil key])
  refine ⟨_, objectPath_placed hcopied.owner hcopied.placed
    (by rw [hcopied.layout]; exact hcopied.room), ?_⟩
  rw [hcopied.layout]
  constructor
  · rintro ⟨hfiles, htree⟩ rest old hold
    rw [← htree, harrives.found]
    rw [← hway] at hold
    obtain ⟨new, hnew, hlike⟩ := harrives.grows _ old hold
    cases hlike with
    | dir => exact hnew
    | link t => exact hnew
    | file c c' =>
      rw [hway] at hold
      have hkept := hfiles _ c hold
      rwa [hafter, ← List.append_assoc] at hkept
  · intro hshown
    constructor
    · intro rest content hn
      rw [hafter]
      by_cases hp : s.handle.layout.names key <+: rest
      · obtain ⟨rest', rfl⟩ := hp
        rw [← List.append_assoc, harrives.node, hshown rest' _ hn, Option.some_or]
      · have hne : rest ≠ [] := by
          rintro rfl
          exact Scene.Housed.holdings_nil hlived.housed content hn
        apply harrives.outside
        · rwa [List.prefix_append_right_inj]
        · rw [hbefore rest hne, hn]
    · funext rest
      rw [harrives.found, harrives.node, hway]
      cases hn : s.holdings (s.handle.layout.names key ++ rest) with
      | none => rw [Option.or_none]
      | some old => rw [hshown rest old hn, Option.some_or]

end

end HandleM

namespace Sample

/-- The handle before it has a base directory. -/
def newcomer : Handle := { handle with storage := .unassigned }

theorem newcomer_lived : Lived newcomer files := .made (by simp [newcomer]) tidy_files.names

/-- A copy of the first object. -/
def copying (s : Scene) : EStateM.Result Failure Scene Key :=
  HandleM.materializeCopy ⟨foreign 0, ⟨"/a"⟩⟩ [] (pure ()) s

end Sample

theorem copy_exact_sample : ∃ s' target,
    Sample.copying ⟨Sample.newcomer, Sample.files, .byName, [], 0⟩ = .ok Sample.copy s' ∧
    HandleM.objectPath Sample.copy s' = .ok target s' ∧
    s'.files.treeAt target = s'.files.shownAt ⟨"/a"⟩ := by
  have hok := ok_of_answer (r := Sample.copying ⟨Sample.newcomer, Sample.files, .byName, [], 0⟩)
    (a := Sample.copy) (by decide +kernel)
  have hafter :
      (left (Sample.copying ⟨Sample.newcomer, Sample.files, .byName, [], 0⟩)).handle.storage =
        .placed ⟨"/fs--00000000"⟩ ∧
      (left (Sample.copying ⟨Sample.newcomer, Sample.files, .byName, [], 0⟩)).files.status
        ⟨"/fs--00000000"⟩ = .ok (["fs--00000000"], .dir) ∧
      (left (Sample.copying ⟨Sample.newcomer, Sample.files, .byName, [], 0⟩)).files.status ⟨"/a"⟩ =
        .ok (["a"], .file [1]) := by decide +kernel
  generalize left (Sample.copying ⟨Sample.newcomer, Sample.files, .byName, [], 0⟩) = s'
    at hok hafter
  obtain ⟨hplaced, hbase, hsource⟩ := hafter
  obtain ⟨target, htarget, hexact⟩ := HandleM.copy_exact Sample.newcomer_lived rfl
    (.refl _ Sample.tidy_files.names) rfl hok
    (Scene.elsewhere_file hplaced hbase hsource (by decide) Sample.copy)
  exact ⟨s', target, hok, htarget, (hexact.2 fun rest old hn => nomatch hn).2⟩

namespace Sample

def turn (request : Request) (fs : FileSystem) : Turn :=
  ⟨request, "h", 0, "", .start fs .byName ⟨"/"⟩⟩

def opening : Turn := turn .reopen files

/-- An object is made under the name that the next copy gets. -/
def naming : Turn := turn (.create "1_a") (left (opening.outcome newcomer)).files

/-- The handle and the files once that object has been written. -/
def written : Scene where
  handle := naming.next (opening.next newcomer)
  files := (left (naming.outcome (opening.next newcomer))).files.add ["fs--00000000", "0"] "1_a"
    (.file [9])
  order := .byName
  events := []
  flushes := 0

/-- The key of the next copy. -/
def second : Key := ⟨⟨5#128⟩, 1, .empty, ⟨"1_a", by decide⟩⟩

theorem written_lived : Lived written.handle written.files := by
  have hopening : opening.StaysHome newcomer := ⟨nofun, nofun, nofun, nofun⟩
  have hnaming : naming.StaysHome (opening.next newcomer) := ⟨nofun, nofun, nofun, nofun⟩
  have hopened : Lived (opening.next newcomer) (left (opening.outcome newcomer)).files :=
    .turn opening newcomer_lived hopening
  have hlived : Lived (naming.next (opening.next newcomer))
      (left (naming.outcome (opening.next newcomer))).files := .turn naming hopened hnaming
  have hfree : (left (naming.outcome (opening.next newcomer))).files.resolve
      ⟨"/fs--00000000/0/1_a"⟩ .write = .ok (.free ["fs--00000000", "0"] "1_a") := by
    decide +kernel
  dsimp only [written]
  exact hlived.wrote (write_free hfree [9])

end Sample

/-- The name of a copy is not looked for among the names given out, so what was written to an object
of that name is lost. -/
theorem copy_overwrites : ∃ s', Lived Sample.written.handle Sample.written.files ∧
    Sample.written.handle.isDisposed = false ∧
    Sample.written.handle.memory.use (Sample.foreign 0) = none ∧
    Sample.copying Sample.written = .ok Sample.second s' ∧
    s'.Elsewhere ⟨"/a"⟩ Sample.second ∧
    HandleM.objectPath Sample.second s' = .ok ⟨"/fs--00000000/0/1_a"⟩ s' ∧
    Sample.written.holdings ["0", "1_a"] = some (.file [9]) ∧
    s'.holdings ["0", "1_a"] = some (.file [1]) := by
  have hok := ok_of_answer (r := Sample.copying Sample.written) (a := Sample.second)
    (by decide +kernel)
  have hbefore : Sample.written.handle.isDisposed = false ∧
      Sample.written.handle.memory.use (Sample.foreign 0) = none ∧
      Sample.written.holdings ["0", "1_a"] = some (.file [9]) := by decide +kernel
  have hafter : (left (Sample.copying Sample.written)).handle.storage =
        .placed ⟨"/fs--00000000"⟩ ∧
      (left (Sample.copying Sample.written)).files.status ⟨"/fs--00000000"⟩ =
        .ok (["fs--00000000"], .dir) ∧
      (left (Sample.copying Sample.written)).files.status ⟨"/a"⟩ = .ok (["a"], .file [1]) ∧
      Sample.second.owner = (left (Sample.copying Sample.written)).handle.id ∧
      (left (Sample.copying Sample.written)).handle.layout.check Sample.second.index = .ok () ∧
      (⟨"/fs--00000000"⟩ : Path).join (.ofComponents ((left (Sample.copying
        Sample.written)).handle.layout.names Sample.second)) = ⟨"/fs--00000000/0/1_a"⟩ ∧
      (left (Sample.copying Sample.written)).holdings ["0", "1_a"] = some (.file [1]) := by
    decide +kernel
  generalize left (Sample.copying Sample.written) = s' at hok hafter
  obtain ⟨hplaced, hbase, hsource, howner, hroom, hpath, hlost⟩ := hafter
  obtain ⟨hlive, hmiss, hheld⟩ := hbefore
  refine ⟨s', Sample.written_lived, hlive, hmiss, hok,
    Scene.elsewhere_file hplaced hbase hsource (by decide) _, ?_, hheld, hlost⟩
  rw [← hpath]
  exact HandleM.objectPath_placed howner hplaced hroom

end Depot
