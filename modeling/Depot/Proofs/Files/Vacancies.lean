import Depot.Proofs.Files.Ancestors
import Depot.Proofs.Files.Trees

/-! Places where nothing is yet. What is free once the directories above have been made could be
made at once, with those directories, or with more of them there. -/

namespace Depot

open Work

namespace FileSystem

variable {fs fs' : FileSystem}

theorem Grows.of_dir (hg : Grows fs fs') {loc : Location} (hs : (fs.node? loc).isSome)
    (h : fs'.node? loc = some .dir) : fs.node? loc = some .dir := by
  obtain ⟨node, hn⟩ := Option.isSome_iff_exists.1 hs
  obtain ⟨node', hn', hlike⟩ := hg loc node hn
  rw [h] at hn'
  cases hn'
  cases hlike
  exact hn

theorem isSome_dropLast {loc : Location} (hs : (fs.node? loc).isSome) :
    (fs.node? loc.dropLast).isSome := by
  rcases List.eq_nil_or_concat loc with rfl | ⟨dir, name, rfl⟩
  · exact hs
  · rw [List.concat_eq_append] at hs
    rw [List.concat_eq_append, List.dropLast_concat, fs.node?_parent hs]
    rfl

/-- A walk that gets somewhere when the files have grown gets there, or misses something. -/
theorem walk_before (hg : Grows fs fs') {links : Nat} {here loc : Location} {names : List String}
    (hhere : (fs.node? here).isSome) (h : fs'.walk .look links here names = .ok (.there loc)) :
    fs.walk .look links here names = .ok (.there loc) ∧ (fs.node? loc).isSome ∨
      (∃ dir name, fs.walk .look links here names = .ok (.free dir name)) ∨
      fs.walk .look links here names = .error .notFound := by
  induction links using Nat.strongRecOn generalizing here names with
  | ind links ihlinks =>
  induction names generalizing here with
  | nil =>
    rw [walk_nil] at h
    cases h
    exact Or.inl ⟨walk_nil .., hhere⟩
  | cons name rest ih =>
    obtain ⟨hdir', hstep⟩ := step_of_ok h
    have hdir := hg.of_dir hhere hdir'
    -- where the name is missing, the walk ends
    have hmissing : Sought .look name rest → fs.node? (here ++ [name]) = none →
        (∃ dir name', fs.walk .look links here (name :: rest) = .ok (.free dir name')) ∨
          fs.walk .look links here (name :: rest) = .error .notFound := by
      intro hs hn
      rw [walk_sought hdir hs, hn]
      by_cases hrest : rest = []
      · exact Or.inl ⟨here, name, if_pos hrest⟩
      · exact Or.inr (if_neg hrest)
    cases hstep with
    | idle hidle hw =>
      rw [walk_idle hdir hidle]
      exact ih hhere hw
    | up hup hw =>
      subst hup
      rw [walk_up hdir]
      exact ih (isSome_dropLast hhere) hw
    | free _ _ _ hplace => cases hplace
    | @link target links' hs hn' hlinks hw =>
      subst hlinks
      cases hn : fs.node? (here ++ [name]) with
      | none => exact Or.inr (hmissing hs hn)
      | some node =>
        obtain ⟨node', hn'', hlike⟩ := hg _ _ hn
        rw [hn'] at hn''
        cases hn''
        cases hlike
        rw [walk_link hdir hs hn]
        refine ihlinks _ (Nat.lt_succ_self _) ?_ hw
        split
        · rw [node?_root]
          rfl
        · exact hhere
    | @down node' hs hn' hsolid hw =>
      cases hn : fs.node? (here ++ [name]) with
      | none => exact Or.inr (hmissing hs hn)
      | some node =>
        obtain ⟨node'', hn'', hlike⟩ := hg _ _ hn
        rw [hn'] at hn''
        cases hn''
        have hsolid' : ∀ t, node ≠ .link t := by
          rintro t rfl
          cases hlike
          exact hsolid t rfl
        rw [walk_down hdir hs hn hsolid']
        exact ih (by rw [hn]; rfl) hw

/-- The name at the end of a path is free if the directory before it is there and does not have
it. -/
theorem entry_eq_free {p : Path} {above : List String} {dir : Location} {name : String}
    (hf : pathFault? p = none) (hsegs : p.segments = above ++ [name])
    (hw : fs.walk .look linkLimit [] above = .ok (.there dir)) (hdir : fs.node? dir = some .dir)
    (hn : fs.node? (dir ++ [name]) = none) (hs : Sought .look name []) :
    fs.entry p = .ok (.free dir name) := by
  have hsplit : p.split? = some (above, name) := by simp [Path.split?, hsegs]
  simp only [entry, hf, hsplit, hw, walkNames]
  rw [if_neg (not_not.2 hdir), if_neg hs.moves, if_neg hs.down, if_neg hs.allowed,
    if_neg hs.short, hn]
  rfl

/-- A name that is free when the files have grown was free, or something before it was missing. -/
theorem entry_before (hg : Grows fs fs') {p : Path} {dir : Location} {name : String}
    (h : fs'.entry p = .ok (.free dir name)) :
    fs.entry p = .ok (.free dir name) ∨ fs.entry p = .error .notFound := by
  obtain ⟨hf, above, hsegs, hw, hdir, hn, hs⟩ := entry_free h
  have hsplit : p.split? = some (above, name) := by simp [Path.split?, hsegs]
  rcases walk_before hg (by rw [node?_root]; rfl) hw with ⟨hw', hd⟩ | ⟨d, n, hw'⟩ | hw'
  · exact Or.inl (entry_eq_free hf hsegs hw' (hg.of_dir hd hdir) (hg.none hn) hs)
  · right
    simp only [entry, hf, hsplit, hw']
  · right
    simp only [entry, hf, hsplit, hw']

/-- Nothing is at a path, and once the directories above it have been made, which can be, its last
name is free in one of them. -/
structure Vacant (fs : FileSystem) (p : Path) (made : FileSystem) (dir : Location) (name : String) :
    Prop where
  above : ∃ parent, p.parent? = some parent ∧ FileM.mkdirAll parent fs = .ok () made
  free : made.entry p = .ok (.free dir name)

namespace Vacant

variable {p : Path} {made : FileSystem} {dir : Location} {name : String}

theorem adds (h : fs.Vacant p made dir name) : AddsDirs p.ancestors fs made := by
  obtain ⟨parent, hparent, hm⟩ := h.above
  rw [Path.ancestors_of_parent hparent]
  exact Keeps.ok (FileM.addsDirs_mkdirAll parent) hm

theorem stands (h : fs.Vacant p made dir name) : made.node? dir = some .dir := by
  obtain ⟨-, -, -, -, hdir, -⟩ := entry_free h.free
  exact hdir

theorem nothing (h : fs.Vacant p made dir name) : made.node? (dir ++ [name]) = none := by
  obtain ⟨-, -, -, -, -, hn, -⟩ := entry_free h.free
  exact hn

theorem plain (h : fs.Vacant p made dir name) : Path.IsPlain name := by
  obtain ⟨-, above, hsegs, -, -, -, hs⟩ := entry_free h.free
  exact hs.isPlain (Path.name_of_mem_segments (p := p) (by simp [hsegs])).2

/-- Where the name is free already, nothing above has to be made. -/
theorem eq_of_free (h : fs.Vacant p made dir name) (hfree : fs.entry p = .ok (.free dir name)) :
    made = fs := by
  obtain ⟨-, above, hsegs, hw, hdir, -⟩ := entry_free hfree
  refine h.adds.eq_of_leads fun q hq => ?_
  obtain ⟨more, hmore, hshort⟩ := Path.segments_of_ancestor hq
  obtain ⟨loc, hl, hd⟩ := leads_of_shorter hmore (hshort.symm.trans hsegs) hw hdir
  exact ⟨loc, hl, by rw [hd]; rfl⟩

theorem mkdir (h : fs.Vacant p made dir name) : made.mkdir p = .ok (made.add dir name .dir) :=
  mkdir_eq_ok.2 ⟨dir, name, h.free, rfl⟩

theorem mkdirAll (h : fs.Vacant p made dir name) :
    FileM.mkdirAll p fs = .ok () (made.add dir name .dir) := by
  obtain ⟨parent, hparent, hm⟩ := h.above
  obtain ⟨hf, -⟩ := entry_free h.free
  have hensure : FileM.ensureDir p made = .ok () (made.add dir name .dir) := by
    rw [FileM.ensureDir, h.mkdir]
  rw [FileM.mkdirAll, Path.ancestors_of_parent hparent, FileM.ensureChain_cons,
    if_neg (pathFault?_eq_none.1 hf).2.2]
  rcases entry_before h.adds.old.grows h.free with hfree | hmissing
  · obtain rfl := h.eq_of_free hfree
    rw [h.mkdir]
    exact hensure
  · have hmkdir : fs.mkdir p = .error .notFound := by
      rw [FileSystem.mkdir, hmissing]
      rfl
    rw [hmkdir]
    exact (bind_ok hm).trans hensure

theorem status (h : fs.Vacant p made dir name) :
    (made.add dir name .dir).status p = .ok (dir ++ [name], .dir) := by
  obtain ⟨-, above, hsegs, hw, -⟩ := entry_free h.free
  obtain ⟨d, n, -, -, -, hs, -, above', hsegs', hw'⟩ := mkdir_leads h.mkdir
  rw [hsegs] at hsegs'
  obtain ⟨rfl, hname⟩ := List.append_inj' hsegs' rfl
  cases hname
  rw [hw] at hw'
  cases hw'
  exact hs

theorem node? (h : fs.Vacant p made dir name) (node : Node) (loc : Location) :
    (made.add dir name node).node? loc =
      if loc = dir ++ [name] then some node else made.node? loc :=
  node?_add node h.stands h.nothing loc

/-- A path that does not ask for a directory can be opened for writing, and again when a file is
there. -/
theorem resolve (h : fs.Vacant p made dir name) (hslash : p.endsWithSlash = false)
    (hf : Fills (dir ++ [name]) made fs') :
    ∃ place, fs'.resolve p .write = .ok place ∧ fs'.IsAt dir name place := by
  obtain ⟨hfault, above, hsegs, hw, hdir, hn, hs⟩ := entry_free h.free
  have hwrite : Sought .write name [] := ⟨hs.moves, hs.down, by simp, hs.short⟩
  have hsolid : ∀ t, fs'.node? (dir ++ [name]) ≠ some (.link t) := by
    intro t ht
    have hlink := hf.links _ t ht
    rw [hn] at hlink
    cases hlink
  obtain ⟨left, -, he⟩ := walk_append [name]
    (Or.inr ⟨by simp, by simpa using h.plain.nonempty⟩) (walk_mono hf.grows hw)
  rw [resolve_eq hfault, Path.steps_of_noSlash hslash, hsegs, he]
  exact isAt_last (hf.grows.dir hdir) hwrite hsolid

end Vacant

end FileSystem

end Depot
