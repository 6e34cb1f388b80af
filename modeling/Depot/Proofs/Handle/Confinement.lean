import Depot.Proofs.Files.Removals
import Depot.Proofs.Handle.Settling
import Depot.Proofs.Handle.Steady

/-! Handles in one temporary root. A handle makes its base directory under a name that was free
there and from then on changes nothing outside it. -/

namespace Depot

open FileSystem Work

/-- A directory directly in the root, under a name that stands for itself. -/
def Path.IsChild (root base : Path) : Prop := ∃ name, IsPlain name ∧ base = root.child name

namespace FileSystem

variable {fs fs' : FileSystem} {root base : Path} {place : Location}

/-- A directory that a path names itself, with no links in it. -/
structure Stands (fs : FileSystem) (base : Path) (place : Location) : Prop where
  here : fs.lstatus base = .ok (place, .dir)
  free : fs.LinkFree place

namespace Stands

theorem unique {place' : Location} (h : fs.Stands base place) (h' : fs.Stands base place') :
    place = place' := by
  have hsame := h.here
  rw [h'.here] at hsame
  cases hsame
  rfl

theorem child (h : fs.Stands base place) (hchild : root.IsChild base) : ∃ name dir,
    Path.IsPlain name ∧ base = root.child name ∧ fs.Leads root dir ∧ place = dir ++ [name] := by
  obtain ⟨name, hplain, rfl⟩ := hchild
  obtain ⟨-, dir, hl, hplace, -⟩ := (lstatus_child hplain).1 h.here
  exact ⟨name, dir, hplain, rfl, hl, hplace⟩

theorem status (h : fs.Stands base place) (hchild : root.IsChild base) :
    fs.status base = .ok (place, .dir) := by
  obtain ⟨name, hplain, rfl⟩ := hchild
  exact status_of_lstatus hplain h.here

theorem fillable (h : fs.Stands base place) (hchild : root.IsChild base) (hnamed : fs.Named) :
    fs.Fillable place := ⟨(leads_of_status (h.status hchild)).2.1, h.free, hnamed⟩

theorem grows (h : fs.Stands base place) (hchild : root.IsChild base) (hg : Grows fs fs')
    (hfree : fs'.LinkFree place) : fs'.Stands base place := by
  obtain ⟨name, hplain, rfl⟩ := hchild
  exact ⟨lstatus_child_grows hplain hg h.here, hfree⟩

theorem same {place' : Location} (h : fs.Stands base place) (hchild : root.IsChild base)
    (hg : Grows fs fs') (h' : fs'.Stands base place') : place = place' := by
  obtain ⟨name, hplain, rfl⟩ := hchild
  have hhere := lstatus_child_grows hplain hg h.here
  rw [h'.here] at hhere
  cases hhere
  rfl

end Stands

/-- A directory that was made because the root was missing: the root itself or one above. -/
structure MadeFor (root : Path) (fs fs' : FileSystem) (loc : Location) : Prop where
  missing : ∀ dir, fs.Leads root dir → fs.node? dir ≠ some .dir
  before : fs.node? loc = none
  after : fs'.node? loc = some .dir
  way : ∃ p ∈ root :: root.ancestors, fs'.Leads p loc

theorem MadeFor.grows {made : FileSystem} {loc : Location} (h : MadeFor root fs made loc)
    (hg : Grows made fs') : MadeFor root fs fs' loc where
  missing := h.missing
  before := h.before
  after := hg.dir h.after
  way := by
    obtain ⟨p, hp, hl⟩ := h.way
    exact ⟨p, hp, hl.mono hg⟩

theorem AddsDirs.same_or_madeFor (h : AddsDirs (root :: root.ancestors) fs fs') (loc : Location) :
    fs'.node? loc = fs.node? loc ∨ MadeFor root fs fs' loc := by
  cases hn : fs.node? loc with
  | some node => exact Or.inl (h.old loc node hn)
  | none =>
    cases hn' : fs'.node? loc with
    | none => exact Or.inl rfl
    | some node =>
      obtain ⟨hdir, hway⟩ := h.new loc hn (by rw [hn']; rfl)
      refine Or.inr ⟨fun dir hl hd => ?_, hn, hdir, hway⟩
      rw [h.eq_of_there hl hd, hn] at hn'
      cases hn'

/-- Nothing was at a place before, and nothing there is needed to find the root. -/
def Fresh (root : Path) (place : Location) (fs fs' : FileSystem) : Prop :=
  ∃ made, Grows fs made ∧ Grows made fs' ∧ made.node? place = none ∧ ∃ dir, made.Leads root dir

theorem Fresh.none (h : Fresh root place fs fs') : fs.node? place = none := by
  obtain ⟨made, hg, -, hnone, -⟩ := h
  exact hg.none hnone

end FileSystem

namespace Handle

/-- The base directory of the handle, if it has one, is in the root where its path says. -/
structure Lodged (h : Handle) (root : Path) (fs : FileSystem) : Prop where
  made : h.tempRoot = root
  names : fs.Named
  base : ∀ base, h.storage = .placed base → root.IsChild base ∧ ∃ place, fs.Stands base place

/-- A location in the base directory. -/
def Inside (h : Handle) (fs : FileSystem) (loc : Location) : Prop :=
  ∃ base place, h.storage = .placed base ∧ fs.Stands base place ∧ place <+: loc

end Handle

/-! ## While the handle lives -/

/-- Nothing has changed outside the base directory of the handle, which is the one it had or was
made where nothing was. -/
structure Scene.Confined (root : Path) (s s' : Scene) : Prop where
  lodged : s'.handle.Lodged root s'.files
  grows : Grows s.files s'.files
  kept : ∀ base, s.handle.storage = .placed base → s'.handle.storage = .placed base
  fresh : ∀ base place, s'.handle.storage = .placed base → s'.files.Stands base place →
    s.handle.storage = .placed base ∨ Fresh root place s.files s'.files
  outside : ∀ loc, ¬s'.handle.Inside s'.files loc →
    s'.files.node? loc = s.files.node? loc ∨ MadeFor root s.files s'.files loc

namespace Scene.Confined

variable {root : Path} {a b c : Scene}

theorem inside (h : a.Confined root b) (ha : a.handle.Lodged root a.files) {loc : Location}
    (hin : a.handle.Inside a.files loc) : b.handle.Inside b.files loc := by
  obtain ⟨base, place, hs, hstands, hp⟩ := hin
  obtain ⟨hchild, -⟩ := ha.base base hs
  obtain ⟨-, place', hstands'⟩ := h.lodged.base base (h.kept base hs)
  cases hstands.same hchild h.grows hstands'
  exact ⟨base, place, h.kept base hs, hstands', hp⟩

theorem trans (hab : a.Confined root b) (hbc : b.Confined root c) : a.Confined root c where
  lodged := hbc.lodged
  grows := hab.grows.trans hbc.grows
  kept base hs := hbc.kept base (hab.kept base hs)
  fresh base place hs hstands := by
    rcases hbc.fresh base place hs hstands with hb | ⟨made, hg, hg', hmade⟩
    swap
    · exact Or.inr ⟨made, hab.grows.trans hg, hg', hmade⟩
    obtain ⟨hchild, place', hstands'⟩ := hab.lodged.base base hb
    cases hstands'.same hchild hbc.grows hstands
    rcases hab.fresh base _ hb hstands' with ha | ⟨made, hg, hg', hmade⟩
    · exact Or.inl ha
    · exact Or.inr ⟨made, hg, hg'.trans hbc.grows, hmade⟩
  outside loc hout := by
    have hmid := hab.outside loc fun hin => hout (hbc.inside hab.lodged hin)
    rcases hbc.outside loc hout with hlast | hmade
    · rw [hlast]
      rcases hmid with hfirst | hmade
      · exact Or.inl hfirst
      · exact Or.inr (hmade.grows hbc.grows)
    · refine Or.inr ⟨fun dir hl hd => ?_, hab.grows.none hmade.before, hmade.after, hmade.way⟩
      exact hmade.missing dir (hl.mono hab.grows) (hab.grows.dir hd)

end Scene.Confined

namespace Handle.Lodged

variable {α : Type} {root base : Path} {place : Location} {s s' : Scene}

/-- The files have not changed. -/
theorem still (hs : s.handle.Lodged root s.files) (hstorage : s'.handle.storage = s.handle.storage)
    (hroot : s'.handle.tempRoot = s.handle.tempRoot) (hfiles : s'.files = s.files) :
    s.Confined root s' where
  lodged := by
    rw [hfiles]
    exact ⟨hroot.trans hs.made, hs.names, fun base he => hs.base base (hstorage ▸ he)⟩
  grows := by
    rw [hfiles]
    exact .refl _
  kept base he := hstorage.trans he
  fresh base place he _ := Or.inl (hstorage ▸ he)
  outside loc _ := Or.inl (by rw [hfiles])

/-- The base directory has been filled. -/
theorem fills {files : FileSystem} (hs : s.handle.Lodged root s.files)
    (hstorage : s.handle.storage = .placed base) (hstands : s.files.Stands base place)
    (hfills : Fills place s.files files) : s.Confined root { s with files } where
  lodged := by
    refine ⟨hs.made, hfills.names hs.names, fun base' he => ?_⟩
    obtain ⟨hchild, place', hstands'⟩ := hs.base base' he
    exact ⟨hchild, place', hstands'.grows hchild hfills.grows (hfills.linkFree hstands'.free)⟩
  grows := hfills.grows
  kept _ he := he
  fresh _ _ he _ := Or.inl he
  outside loc hout := by
    refine Or.inl (hfills.outside loc fun hp => hout ⟨base, place, hstorage, ?_, hp⟩)
    exact hstands.grows (hs.base base hstorage).1 hfills.grows (hfills.linkFree hstands.free)

/-- What has been done stays in the base directory wherever that is. -/
theorem work (hs : s.handle.Lodged root s.files) (work : FileM α)
    (hstorage : s.handle.storage = .placed base) (hwork : ∀ place,
      s.files.status base = .ok (place, .dir) → s.files.Fillable place →
      Fills place s.files (left (work s.files))) :
    s.Confined root { s with files := left (work s.files) } := by
  obtain ⟨hchild, place, hstands⟩ := hs.base base hstorage
  exact hs.fills hstorage hstands
    (hwork place (hstands.status hchild) (hstands.fillable hchild hs.names))

end Handle.Lodged

namespace HandleM

variable {root base : Path} {place : Location} {s : Scene} {files : FileSystem}

theorem NewBase.lodges (hnew : NewBase root base s.files files place) (hnamed : s.files.Named) :
    root.IsChild base ∧ files.Stands base place := by
  have hgrows := hnew.grows
  obtain ⟨made, dir, name, hmade, hl, rfl, hputs, -, rfl⟩ := hnew.ready
  refine ⟨⟨name, hputs.plain, rfl⟩, ?_, (hnew.fillable hnamed).free⟩
  exact lstatus_of_status hputs.plain (hl.mono hputs.fills.grows) hnew.stands

/-- A base directory has been made. -/
theorem NewBase.confined (hs : s.handle.Lodged root s.files) (hnone : s.handle.baseDir? = none)
    (hnew : NewBase root base s.files files place) :
    s.Confined root { s with handle := { s.handle with storage := .placed base }, files } where
  lodged := by
    refine ⟨hs.made, (hnew.fillable hs.names).names, fun base' he => ?_⟩
    cases he
    exact ⟨(hnew.lodges hs.names).1, place, (hnew.lodges hs.names).2⟩
  grows := hnew.grows
  kept base' he := by simp [Handle.baseDir?, he] at hnone
  fresh base' place' he hstands := by
    cases he
    cases hstands.unique (hnew.lodges hs.names).2
    obtain ⟨made, dir, name, hmade, hl, -, hputs, hnone, -⟩ := hnew.ready
    have hadds := Keeps.ok (FileM.addsDirs_mkdirAll root) hmade
    exact Or.inr ⟨made, hadds.old.grows, hputs.fills.grows, hnone, dir, hl⟩
  outside loc hout := by
    have hloc : ¬place <+: loc := fun hp => hout ⟨base, place, rfl, (hnew.lodges hs.names).2, hp⟩
    obtain ⟨made, dir, name, hmade, -, rfl, hputs, -, -⟩ := hnew.ready
    have hadds := Keeps.ok (FileM.addsDirs_mkdirAll root) hmade
    have hsame : files.node? loc = made.node? loc := hputs.fills.outside loc hloc
    rcases hadds.same_or_madeFor loc with hmid | hmid
    · exact Or.inl (hsame.trans hmid)
    · exact Or.inr (hmid.grows hputs.fills.grows)

/-- What a handle had before is copied into the base directory that has been made. -/
theorem NewBase.restored (hs : s.handle.Lodged root s.files) (hnone : s.handle.baseDir? = none)
    (hnew : NewBase root base s.files files place) (source : Path) (events : List Event) :
    s.Confined root { s with
      handle := { s.handle with storage := .placed base }
      files := left (FileM.copyTree source base s.order files)
      events } := by
  have hclaimed := NewBase.confined hs hnone hnew
  have hfilled := hclaimed.lodged.work (FileM.copyTree source base s.order) rfl
    fun _ => FileM.fills_onto s.order source
  exact hclaimed.trans (hfilled.trans (hfilled.lodged.still rfl rfl rfl))

theorem confined_settle (root : Path) :
    Keeps (fun s s' => s.handle.Lodged root s.files → s.Confined root s') settle := by
  intro s hs
  have hcase := settleCase s
  generalize settle s = result at hcase
  cases hcase with
  | placed => exact hs.still rfl rfl rfl
  | unclaimed hnone hc =>
    obtain ⟨_, files, -, he, hfiles⟩ := claimBase_error hc
    cases he
    have hadds := FileM.addsDirs_mkdirAll root s.files
    rw [hs.made] at hfiles
    rw [← hfiles] at hadds
    have hplaced : ∀ base, s.handle.storage ≠ .placed base := by
      intro base he
      simp [Handle.baseDir?, he] at hnone
    exact ⟨⟨hs.made, hadds.names hs.names, fun base he => absurd he (hplaced base)⟩,
      hadds.old.grows, fun _ he => he, fun _ _ he _ => Or.inl he,
      fun loc _ => hadds.same_or_madeFor loc⟩
  | claimed hstorage hc =>
    obtain ⟨⟨place, hnew⟩, -⟩ := claimBase_ok hc
    rw [hs.made] at hnew
    have hclaimed := NewBase.confined hs (by rw [Handle.baseDir?, hstorage]) hnew
    exact hclaimed.trans (hclaimed.lodged.still rfl rfl rfl)
  | @restored source base made files count hstorage hc hcopy =>
    obtain ⟨⟨place, hnew⟩, -⟩ := claimBase_ok hc
    rw [hs.made] at hnew
    have hrestored := NewBase.restored hs (by rw [Handle.baseDir?, hstorage]) hnew source
    rw [hcopy] at hrestored
    exact hrestored _
  | @broken source base made files cause hstorage hc hcopy =>
    obtain ⟨⟨place, hnew⟩, -⟩ := claimBase_ok hc
    rw [hs.made] at hnew
    have hrestored := NewBase.restored hs (by rw [Handle.baseDir?, hstorage]) hnew source
    rw [hcopy] at hrestored
    exact hrestored _

end HandleM

/-- Whatever a handle is asked, nothing changes outside its base directory. -/
theorem steady_confined (root : Path) :
    Steady fun s s' => s.handle.Lodged root s.files → s.Confined root s' where
  trans hab hbc hs := (hab hs).trans (hbc (hab hs).lodged)
  still hstorage hroot hfiles hs := hs.still hstorage hroot hfiles
  settle := HandleM.confined_settle root
  shard index hstorage hs := by
    refine hs.work _ hstorage fun place hstatus hfill => ?_
    exact FileM.fills_ensureShard (leads_of_status hstatus).1 hfill
      fun _ hn => Layout.isPlain_of_mem_shard hn
  copy {s base} source key hstorage hdir hs := by
    refine hs.work _ hstorage fun place hstatus hfill => ?_
    obtain ⟨loc, hloc⟩ := isDir_iff.1 hdir
    have hplain : ∀ name ∈ s.handle.layout.shard key.index, Path.IsPlain name := fun _ hn =>
      Layout.isPlain_of_mem_shard hn
    obtain ⟨-, rfl⟩ := loc_of_status (leads_of_status hstatus).1 hfill.free hplain
      (s.handle.layout.shard_ne_nil key.index) hloc
    exact FileM.fills_below s.order source (leads_of_status hstatus).1 hfill
      (fun _ hn => Layout.isPlain_of_mem_names hn) (leads_of_status hloc).2.1

/-! ## Whatever the handle is asked -/

/-- What a handle leaves of the files. Nothing has changed outside its base directory, and whatever
is a part of the files without that directory still is. No other directory in the root has changed,
or is lost unless the root is. -/
structure Handle.Isolated (root : Path) (h h' : Handle) (fs fs' : FileSystem) : Prop where
  lodged : h'.Lodged root fs'
  fresh : ∀ base place, h'.storage = .placed base → fs'.Stands base place →
    h.storage = .placed base ∨ Fresh root place fs fs'
  outside : ∀ loc, ¬h.Inside fs loc → ¬h'.Inside fs' loc →
    fs'.node? loc = fs.node? loc ∨ MadeFor root fs fs' loc
  apart : ∀ part : FileSystem, (∀ base place, h.storage = .placed base → fs.Stands base place →
    part.node? place = none) → Grows part fs → Grows part fs'
  others : ∀ base place, root.IsChild base → fs.Stands base place → h.storage ≠ .placed base →
    h'.storage ≠ .placed base ∧ (∀ rest, fs'.node? (place ++ rest) = fs.node? (place ++ rest)) ∧
      (fs'.Stands base place ∨ ∀ dir, ¬fs'.Leads root dir)

/-- What is in another directory of the root is not in the base directory. -/
theorem Handle.Lodged.notInside {h : Handle} {fs : FileSystem} {root base : Path}
    {place : Location} (hs : h.Lodged root fs) (hchild : root.IsChild base)
    (hhere : fs.lstatus base = .ok (place, .dir)) (hother : h.storage ≠ .placed base)
    (rest : Location) : ¬h.Inside fs (place ++ rest) := by
  rintro ⟨base', place', hs', hstands', hp⟩
  obtain ⟨name, hplain, rfl⟩ := hchild
  obtain ⟨⟨name', hplain', rfl⟩, -⟩ := hs.base base' hs'
  cases name_of_prefix hplain hplain' hhere hstands'.here hp
  exact hother hs'

theorem Scene.Confined.isolated {root : Path} {a b : Scene} (h : a.Confined root b) :
    a.handle.Isolated root b.handle a.files b.files where
  lodged := h.lodged
  fresh := h.fresh
  outside loc _ hout := h.outside loc hout
  apart _ _ hpart := hpart.trans h.grows
  others base place hchild hstands hother := by
    have hhere : b.files.lstatus base = .ok (place, .dir) := by
      obtain ⟨name, hplain, rfl⟩ := hchild
      exact lstatus_child_grows hplain h.grows hstands.here
    have hdir : a.files.node? place = some .dir :=
      (leads_of_status (hstands.status hchild)).2.1
    have hnew : b.handle.storage ≠ .placed base := by
      intro he
      obtain ⟨-, place', hstands'⟩ := h.lodged.base base he
      cases hstands.same hchild h.grows hstands'
      rcases h.fresh base _ he hstands' with hold | hnone
      · exact hother hold
      · rw [hnone.none] at hdir
        cases hdir
    have hsame : ∀ rest, b.files.node? (place ++ rest) = a.files.node? (place ++ rest) := by
      intro rest
      rcases h.outside _ (h.lodged.notInside hchild hhere hnew rest) with hsame | hmade
      · exact hsame
      obtain ⟨name, dir, -, -, hl, rfl⟩ := hstands.child hchild
      have habove := node?_above (List.cons_ne_nil name []) (by rw [hdir]; rfl)
      exact absurd habove (hmade.missing dir hl)
    exact ⟨hnew, hsame, Or.inl ⟨hhere, hstands.free.of_same hsame⟩⟩

namespace Scene

theorem dispose_files (s : Scene) (deregistered : Bool) : (s.dispose deregistered).2.files =
    match s.handle.storage with
    | .placed base => left (FileM.removeTree base s.files)
    | _ => s.files := by
  unfold dispose
  cases s.handle.storage with
  | unassigned => rfl
  | restoring source => rfl
  | placed base =>
    simp only [report, removeBase]
    rcases FileM.removeTree base s.files with _ | ⟨_ | _, _⟩ <;> rfl

/-- The end of a handle is the end of its base directory and of nothing else. -/
theorem dispose_isolated {root : Path} {s : Scene} (hs : s.handle.Lodged root s.files)
    (deregistered : Bool) : s.handle.Isolated root (s.dispose deregistered).2.handle s.files
      (s.dispose deregistered).2.files := by
  have hfiles := s.dispose_files deregistered
  rw [dispose_handle]
  generalize (s.dispose deregistered).2.files = fs' at *
  have hless : Extends fs' s.files := by
    rw [hfiles]
    split
    · exact FileM.extends_removeTree _ _
    · exact .refl _
  have hout : ∀ loc, ¬s.handle.Inside s.files loc → fs'.node? loc = s.files.node? loc := by
    intro loc hloc
    rw [hfiles]
    split
    · next base he =>
      obtain ⟨⟨name, hplain, rfl⟩, place, hstands⟩ := hs.base base he
      exact FileM.outside_removeTree hstands.here fun hp =>
        hloc ⟨_, place, he, hstands, hp⟩
    · rfl
  refine ⟨⟨hs.made, fun dir name hn => ?_, nofun⟩, nofun, fun loc hloc _ => Or.inl (hout loc hloc),
    fun part hpart hg loc node hn => ?_, fun base place hchild hstands hother => ⟨nofun, ?_⟩⟩
  · obtain ⟨node, hnode⟩ := Option.isSome_iff_exists.1 hn
    exact hs.names dir name (by rw [hless _ node hnode]; rfl)
  · rw [hout loc]
    · exact hg loc node hn
    · rintro ⟨base, place, he, hstands, rest, rfl⟩
      rw [node?_append_of_none (hpart base place he hstands) rest] at hn
      cases hn
  · have hsame : ∀ rest, fs'.node? (place ++ rest) = s.files.node? (place ++ rest) := fun rest =>
      hout _ (hs.notInside hchild hstands.here hother rest)
    refine ⟨hsame, ?_⟩
    by_cases hleads : ∃ dir, fs'.Leads root dir
    swap
    · exact Or.inr (not_exists.1 hleads)
    refine Or.inl ⟨?_, hstands.free.of_same hsame⟩
    obtain ⟨dir', hl'⟩ := hleads
    obtain ⟨name, hplain, rfl⟩ := hchild
    obtain ⟨hreach, dir, hl, rfl, hn⟩ := (lstatus_child hplain).1 hstands.here
    cases hl.unique (hl'.mono hless.grows)
    have hkept := hsame []
    rw [List.append_nil, hn] at hkept
    exact (lstatus_child hplain).2 ⟨hreach, _, hl', rfl, hkept⟩

end Scene

/-- A handle leaves everything outside its base directory alone. -/
theorem Turn.isolated {t : Turn} {h : Handle} {root : Path} (hown : t.IsOwn h)
    (hclaims : ∀ dir, t.request ≠ .setBaseDir dir) (hs : h.Lodged root (t.flushed h)) :
    h.Isolated root (t.next h) (t.flushed h) (left (t.outcome h)).files := by
  rw [next_eq, (left_eq hown).1]
  by_cases hlast : t.request = .dispose
  swap
  · exact ((steady_confined root).work hown hlast hclaims hs).isolated
  have hflushed : t.flushed h = t.session.files := by
    unfold flushed asked?
    rw [hlast]
  rw [hflushed] at hs ⊢
  unfold work
  rw [hlast]
  exact Scene.dispose_isolated (s := t.scene h) hs _

end Depot
