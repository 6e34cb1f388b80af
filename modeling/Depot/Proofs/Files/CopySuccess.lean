import Depot.Proofs.Files.CopyCounts
import Depot.Proofs.Files.Vacancies

/-! When copying a directory succeeds. The links below the source lead to files outside the target,
there is room behind the paths, and nothing in the target is in the way: then it does, whatever
order the names come in. -/

namespace Depot

open Work

namespace FileSystem

variable {fs fs' now : FileSystem} {source target outer dir : Location} {p : Path} {name : String}

/-! ## The source -/

/-- Names are no longer than an operating system allows, and without a NUL. -/
def Allowed (fs : FileSystem) : Prop :=
  ∀ dir name, (fs.node? (dir ++ [name])).isSome →
    name.utf8ByteSize ≤ longestName ∧ '\x00' ∉ name.toList

theorem Allowed.below (h : fs.Allowed) {loc rest : Location}
    (hs : (fs.node? (loc ++ rest)).isSome) :
    ∀ name ∈ rest, name.utf8ByteSize ≤ longestName ∧ '\x00' ∉ name.toList := by
  induction rest using List.reverseRecOn with
  | nil => simp
  | append_singleton rest last ih =>
    rw [← List.append_assoc] at hs
    intro name hname
    rcases List.mem_append.1 hname with hname | hname
    · exact ih (by rw [fs.node?_parent hs]; rfl) name hname
    · rw [List.mem_singleton.1 hname]
      exact h _ _ hs

/-- Every link below the source leads to a file, which is not in the target. -/
def LinksOut (fs : FileSystem) (source target : Location) : Prop :=
  ∀ rest name t, fs.node? (source ++ rest ++ [name]) = some (.link t) → ∃ loc content,
    fs.follow .look (source ++ rest) name = .ok (.there loc) ∧
    fs.node? loc = some (.file content) ∧ ¬target <+: loc

/-- The source has not been touched, and nothing that it may lead to has. -/
structure SameSource (source target : Location) (fs now : FileSystem) : Prop where
  grows : Grows fs now
  same : ∀ rest, now.node? (source ++ rest) = fs.node? (source ++ rest)
  kept : ∀ loc node, ¬target <+: loc → fs.node? loc = some node → now.node? loc = some node

theorem Fills.sameSource (h : Fills target fs now) (hout : ∀ rest, ¬target <+: source ++ rest) :
    SameSource source target fs now where
  grows := h.grows
  same rest := h.outside _ (hout rest)
  kept loc node hloc hn := by rw [h.outside loc hloc, hn]

namespace SameSource

theorem linksOut (h : SameSource source target fs now) (hlinks : fs.LinksOut source target) :
    now.LinksOut source target := by
  intro rest name t hn
  rw [List.append_assoc, h.same, ← List.append_assoc] at hn
  obtain ⟨loc, content, hf, hfile, hloc⟩ := hlinks rest name t hn
  exact ⟨loc, content, walk_mono h.grows hf, h.kept loc _ hloc hfile, hloc⟩

/-- What the source shows is the same. -/
theorem shown (h : SameSource source target fs now) (hlinks : fs.LinksOut source target)
    (hdir : ∀ t, fs.node? source ≠ some (.link t)) (rest : Location) :
    now.shown (source ++ rest) = fs.shown (source ++ rest) := by
  by_cases hsolid : ∀ t, fs.node? (source ++ rest) ≠ some (.link t)
  · rw [shown_eq hsolid, shown_eq (by rwa [h.same]), h.same]
  · simp only [not_forall, not_not] at hsolid
    obtain ⟨t, hn⟩ := hsolid
    rcases List.eq_nil_or_concat rest with rfl | ⟨above, name, rfl⟩
    · rw [List.append_nil] at hn
      exact absurd hn (hdir t)
    · have hn' := h.same (above ++ [name])
      rw [List.concat_eq_append] at hn ⊢
      rw [hn] at hn'
      rw [← List.append_assoc] at hn hn' ⊢
      obtain ⟨loc, content, hf, hfile, hloc⟩ := hlinks above name t hn
      rw [shown_link hn hf, shown_link hn' (walk_mono h.grows hf), hfile, h.kept loc _ hloc hfile]

end SameSource

theorem LinksOut.leadsOut (h : fs.LinksOut source target) : fs.LeadsOut source target := by
  intro rest name t loc hn hf
  obtain ⟨loc', content, hf', -, hloc⟩ := h rest name t hn
  rw [hf] at hf'
  cases hf'
  exact hloc

/-- A path can go on to every link below a place without meeting too many. -/
def Affords (fs : FileSystem) (p : Path) (loc : Location) : Prop :=
  ∀ rest t, fs.node? (loc ++ rest) = some (.link t) →
    fs.walk .look linkLimit [] (p.segments ++ rest) ≠ .error .tooManyLinks

/-- Every link below the source is opened behind its path, as a file that is not in the target. -/
def OpensLinks (fs : FileSystem) (p : Path) (source target : Location) : Prop :=
  ∀ rest t, fs.node? (source ++ rest) = some (.link t) → ∃ loc content,
    fs.walk .look linkLimit [] (p.segments ++ rest) = .ok (.there loc) ∧
    fs.node? loc = some (.file content) ∧ ¬target <+: loc

theorem LinksOut.opens (h : fs.LinksOut source target) (haffords : fs.Affords p source)
    (hl : fs.Leads p source) (hdir : fs.node? source = some .dir) (hnamed : fs.Named)
    (hallowed : fs.Allowed) : fs.OpensLinks p source target := by
  intro rest t hn
  rcases List.eq_nil_or_concat rest with rfl | ⟨above, last, rfl⟩
  · rw [List.append_nil, hdir] at hn
    cases hn
  rw [List.concat_eq_append] at hn ⊢
  have henough := haffords _ t hn
  rw [← List.append_assoc] at hn
  obtain ⟨loc, content, hf, hfile, hloc⟩ := h above last t hn
  refine ⟨loc, content, ?_, hfile, hloc⟩
  have habove : fs.node? (source ++ above) = some .dir := fs.node?_parent (by rw [hn]; rfl)
  have hplain : ∀ n ∈ above, Path.IsPlain n := hnamed.plain (by rw [habove]; rfl)
  have hshort : ∀ n ∈ above, n.utf8ByteSize ≤ longestName := fun n hn =>
    (hallowed.below (by rw [habove]; rfl) n hn).1
  -- the way to the link meets none but those of the path
  obtain ⟨left, hleft, he⟩ := walk_append (above ++ [last]) (Or.inl rfl) hl
  obtain ⟨left', hleft', he'⟩ := walk_append [last] (Or.inl rfl)
    (walk_there hplain hshort habove (by simp))
  rw [he, he'] at henough ⊢
  rcases walk_fewer (hleft'.trans hleft) (source ++ above) [last] with hmany | hsame
  · exact absurd hmany henough
  · rw [hsame]
    exact hf

theorem OpensLinks.below (h : fs.OpensLinks p source target) (hplain : Path.IsPlain name) :
    fs.OpensLinks (p.child name) (source ++ [name]) target := by
  intro rest t hn
  rw [p.segments_child hplain, List.append_assoc]
  rw [List.append_assoc] at hn
  exact h _ t hn

theorem SameSource.opensLinks (h : SameSource source target fs now)
    (hopens : fs.OpensLinks p source target) : now.OpensLinks p source target := by
  intro rest t hn
  rw [h.same] at hn
  obtain ⟨loc, content, hw, hfile, hloc⟩ := hopens rest t hn
  exact ⟨loc, content, walk_mono h.grows hw, h.kept loc _ hloc hfile, hloc⟩

/-- What the source shows is a directory where it has one, and a file elsewhere. -/
theorem LinksOut.shown_dir (h : fs.LinksOut source target)
    (hdir : ∀ t, fs.node? source ≠ some (.link t)) {rest : Location} {node : Node}
    (hn : fs.node? (source ++ rest) = some node) :
    ∃ found, fs.shown (source ++ rest) = some found ∧ (node = .dir ↔ found = .dir) := by
  cases node with
  | dir => exact ⟨.dir, by rw [shown_eq (by simp [hn]), hn], Iff.rfl⟩
  | file content => exact ⟨.file content, by rw [shown_eq (by simp [hn]), hn], by simp⟩
  | link t =>
    rcases List.eq_nil_or_concat rest with rfl | ⟨above, name, rfl⟩
    · rw [List.append_nil] at hn
      exact absurd hn (hdir t)
    · rw [List.concat_eq_append, ← List.append_assoc] at hn ⊢
      obtain ⟨loc, content, hf, hfile, -⟩ := h above name t hn
      exact ⟨.file content, by rw [shown_link hn hf, hfile], by simp⟩

/-! ## The target -/

/-- Where both have something, it is a directory in both or in neither. -/
def Takes (fs : FileSystem) (source target : Location) : Prop :=
  ∀ rest node old, fs.node? (source ++ rest) = some node →
    fs.node? (target ++ rest) = some old → (node = .dir ↔ old = .dir)

theorem Takes.below (h : fs.Takes source target) (rest : Location) :
    fs.Takes (source ++ rest) (target ++ rest) := by
  intro more node old hn ho
  rw [List.append_assoc] at hn ho
  exact h (rest ++ more) node old hn ho

theorem Takes.congr (h : fs.Takes source target)
    (hsource : ∀ rest, now.node? (source ++ rest) = fs.node? (source ++ rest))
    (htarget : ∀ rest, now.node? (target ++ rest) = fs.node? (target ++ rest)) :
    now.Takes source target := by
  intro rest node old hn ho
  rw [hsource] at hn
  rw [htarget] at ho
  exact h rest node old hn ho

theorem Puts.takes (hputs : Puts target name .dir fs now)
    (hsame : ∀ rest, now.node? (source ++ rest) = fs.node? (source ++ rest))
    (hdir : fs.node? (source ++ [name]) = some .dir)
    (h : fs.Takes (source ++ [name]) (target ++ [name])) :
    now.Takes (source ++ [name]) (target ++ [name]) := by
  intro rest node old hn ho
  rw [List.append_assoc, hsame, ← List.append_assoc] at hn
  by_cases hrest : rest = []
  · subst hrest
    rw [List.append_nil] at hn ho
    rw [hdir] at hn
    rw [hputs.here] at ho
    cases hn
    cases ho
    rfl
  · have hbelow := hputs.below hrest
    rw [List.append_assoc, List.singleton_append, hbelow, ← List.singleton_append,
      ← List.append_assoc] at ho
    exact h rest node old hn ho

theorem takes_empty (hdir : fs.node? source = some .dir) (hstands : fs.node? target = some .dir)
    (hempty : ∀ rest ≠ [], fs.node? (target ++ rest) = none) : fs.Takes source target := by
  intro rest node old hn ho
  by_cases hrest : rest = []
  · subst hrest
    rw [List.append_nil] at hn ho
    rw [hdir] at hn
    rw [hstands] at ho
    cases hn
    cases ho
    rfl
  · rw [hempty rest hrest] at ho
    cases ho

/-! ## One file -/

theorem fill_succeeds {place : Place} (hat : fs.IsAt dir name place)
    (hfile : ∀ node, fs.node? (dir ++ [name]) = some node → ∃ content, node = .file content)
    (content : Content) : ∃ fs', fs.fill place content = .ok fs' := by
  rcases hat with ⟨rfl, hs⟩ | ⟨rfl, -⟩
  · obtain ⟨node, hn⟩ := Option.isSome_iff_exists.1 hs
    obtain ⟨old, rfl⟩ := hfile node hn
    exact ⟨_, by rw [fill, hn]⟩
  · exact ⟨_, rfl⟩

theorem write_succeeds {place : Place} (hplace : fs.resolve p .write = .ok place)
    (hat : fs.IsAt dir name place)
    (hfile : ∀ node, fs.node? (dir ++ [name]) = some node → ∃ content, node = .file content)
    (content : Content) : ∃ fs', fs.write p content = .ok fs' := by
  obtain ⟨fs', hf⟩ := fill_succeeds hat hfile content
  exact ⟨fs', except_bind_eq_ok.2 ⟨place, hplace, hf⟩⟩

/-- A file can be copied to a name that is free or a file's. -/
theorem copyFile_succeeds {origin dest : Path} {loc : Location} {content : Content}
    (hdir : fs.node? dir = some .dir) (hplain : Path.IsPlain name)
    (hs : fs.status origin = .ok (loc, .file content))
    (hto : ∀ now, Fills (dir ++ [name]) fs now →
      ∃ place, now.resolve dest .write = .ok place ∧ now.IsAt dir name place)
    (hfile : ∀ node, fs.node? (dir ++ [name]) = some node → ∃ content, node = .file content) :
    ∃ fs', fs.copyFile origin dest = .ok fs' := by
  obtain ⟨place, ht, hat⟩ := hto fs (.refl _ fs)
  obtain ⟨opened, ho⟩ := write_succeeds ht hat hfile []
  have hputs : Puts dir name (.file []) fs opened := by
    refine puts_write hdir hplain (fun place' ht' => ?_) ho
    rw [ht] at ht'
    cases ht'
    exact hat
  obtain ⟨place', ht', hat'⟩ := hto opened hputs.fills
  have hfile' : ∀ node, opened.node? (dir ++ [name]) = some node →
      ∃ content, node = .file content := by
    intro node hnode
    rw [hputs.here] at hnode
    cases hnode
    exact ⟨[], rfl⟩
  have hcontent : ∃ content, opened.node? loc = some (.file content) := by
    rw [hputs.nodes]
    split
    · exact ⟨[], rfl⟩
    · exact ⟨content, (leads_of_status hs).2.1⟩
  obtain ⟨written, hwritten⟩ := hcontent
  obtain ⟨fs', hw⟩ := write_succeeds ht' hat' hfile' written
  refine ⟨fs', except_bind_eq_ok.2 ⟨_, hs, except_bind_eq_ok.2 ⟨opened, ho, ?_⟩⟩⟩
  rw [hwritten]
  exact hw

/-- A directory that can be copied to another, which is below `outer`, as far as the source goes:
whatever it holds can be named behind both paths. -/
structure Copyable (source target : Path) (outer origin dir : Location) (fs : FileSystem) :
    Prop where
  opened : fs.status source = .ok (origin, .dir)
  admits : fs.Admits target dir
  within : outer <+: dir
  apart : ∀ rest, ¬outer <+: origin ++ rest
  links : fs.OpensLinks source origin outer
  fits : ∀ rest ≠ [], (fs.node? (origin ++ rest)).isSome →
    Reachable source rest ∧ Reachable target rest

namespace Copyable

variable {source target : Path} {origin : Location}

theorem leads (h : Copyable source target outer origin dir fs) : fs.Leads source origin :=
  (leads_of_status h.opened).1

theorem sameSource (h : Copyable source target outer origin dir fs) (hf : Fills dir fs now) :
    SameSource origin outer fs now := (hf.widen h.within).sameSource h.apart

theorem after (h : Copyable source target outer origin dir fs) (hf : Fills dir fs now) :
    Copyable source target outer origin dir now where
  opened := status_dir_grows h.opened hf.grows
  admits := h.admits.after hf
  within := h.within
  apart := h.apart
  links := (h.sameSource hf).opensLinks h.links
  fits rest hrest hs := by
    rw [(h.sameSource hf).same] at hs
    exact h.fits rest hrest hs

theorem plain (h : Copyable source target outer origin dir fs)
    (hname : (fs.node? (origin ++ [name])).isSome) : Path.IsPlain name :=
  h.admits.fill.names origin name hname

theorem sought {why : Purpose} (h : Copyable source target outer origin dir fs)
    (hname : (fs.node? (origin ++ [name])).isSome) : Sought why name [] :=
  sought_of_plain (h.plain hname)
    ((h.fits [name] (by simp) hname).1.2 name (List.mem_cons_self ..)) List.not_mem_nil

/-- A directory of the source can be copied to its name in the target. -/
theorem inner (h : Copyable source target outer origin dir fs)
    (hdir : fs.node? (origin ++ [name]) = some .dir) (hputs : Puts dir name .dir fs now)
    (hadmits : now.Admits (target.child name) (dir ++ [name])) :
    Copyable (source.child name) (target.child name) outer (origin ++ [name]) (dir ++ [name])
      now := by
  have hname : (fs.node? (origin ++ [name])).isSome := by rw [hdir]; rfl
  have hplain := h.plain hname
  have hreach := (h.fits [name] (by simp) hname).1
  have hnow := h.after (hputs.fills.widen (List.prefix_append ..))
  have hdir' := hputs.fills.grows.dir hdir
  have hleads := leads_child hnow.leads hplain (hreach.2 name (List.mem_cons_self ..)) hdir'
    (by simp)
  refine ⟨status_of_leads (by rw [Path.child_eq]; exact hreach.1) hleads hdir', hadmits,
    hnow.within.trans (List.prefix_append ..), fun rest => ?_, hnow.links.below hplain,
    fun rest hrest hs => ?_⟩
  · rw [List.append_assoc]
    exact hnow.apart _
  · rw [List.append_assoc, List.singleton_append] at hs
    have hall := hnow.admits.fill.names.plain hs
    obtain ⟨hsource, htarget⟩ := hnow.fits (name :: rest) (by simp) hs
    exact ⟨((reachable_cons hall hrest).1 hsource).2, ((reachable_cons hall hrest).1 htarget).2⟩

end Copyable

end FileSystem

namespace FileM

open FileSystem

variable {fs fs' : FileSystem} {order : ListingOrder} {levels : Nat} {source target : Path}
  {outer origin dir : Location} {name : String}

/-- A name in a directory can be made if it is free or a directory's. -/
theorem mkdirAll_succeeds (hto : fs.Leads target dir) (hstands : fs.node? dir = some .dir)
    (hplain : Path.IsPlain name) (hreach : Reachable target [name])
    (hold : ∀ node, fs.node? (dir ++ [name]) = some node → node = .dir) :
    ∃ fs', mkdirAll (target.child name) fs = .ok () fs' := by
  have hshort := hreach.2 name (List.mem_cons_self ..)
  have hf : pathFault? (target.child name) = none := by
    rw [Path.child_eq]
    exact hreach.1
  cases hn : fs.node? (dir ++ [name]) with
  | none =>
    have hfree := entry_eq_free hf (target.segments_child hplain) hto hstands hn
      (sought_of_plain hplain hshort List.not_mem_nil)
    have hmkdir := mkdir_eq_ok.2 ⟨dir, name, hfree, rfl⟩
    refine ⟨fs.add dir name .dir, ?_⟩
    rw [mkdirAll, ensureChain_cons, if_neg (target.child_ne_empty hplain), hmkdir]
    dsimp only
    rw [ensureDir, hmkdir]
  | some node =>
    obtain rfl := hold node hn
    have hleads := leads_child hto hplain hshort hn (by simp)
    exact ⟨fs, mkdirAll_of_isDir (isDir_iff.2 ⟨_, status_of_leads hf hleads hn⟩)⟩

section Entries

variable (h : Copyable source target outer origin dir fs)
include h

/-- A directory of the source is copied if its name in the target is free or a directory's. -/
theorem copies_inner
    (ih : ∀ {source target origin dir fs}, Copyable source target outer origin dir fs →
      fs.Takes origin dir → longestPath < source.text.utf8ByteSize + levels →
      ∃ n fs', copyLevel order levels source target fs = .ok n fs')
    (hdir : fs.node? (origin ++ [name]) = some .dir)
    (htakes : fs.Takes (origin ++ [name]) (dir ++ [name]))
    (hlevels : longestPath < source.text.utf8ByteSize + (levels + 1)) (count : Nat) :
    ∃ n fs', (do
      mkdirAll (target.child name)
      return count + (← copyLevel order levels (source.child name) (target.child name)) :
        FileM Nat) fs = .ok n fs' := by
  have hname : (fs.node? (origin ++ [name])).isSome := by rw [hdir]; rfl
  have hplain := h.plain hname
  have hold : ∀ old, fs.node? (dir ++ [name]) = some old → old = .dir := fun old ho =>
    (htakes [] .dir old (by rwa [List.append_nil]) (by rwa [List.append_nil])).1 rfl
  obtain ⟨fs₁, hm⟩ := mkdirAll_succeeds h.admits.leads h.admits.fill.stands hplain
    (h.fits [name] (by simp) hname).2 hold
  obtain ⟨hputs, hadmits⟩ := admits_child h.admits hplain hm
  have hsame := h.sameSource (hputs.fills.widen (List.prefix_append ..))
  have hsize := source.size_child hplain
  obtain ⟨k, fs₂, hc⟩ := ih (h.inner hdir hputs hadmits) (hputs.takes hsame.same hdir htakes)
    (by omega)
  exact ⟨count + k, fs₂, (bind_ok hm).trans (bind_ok hc)⟩

/-- Anything else can be read behind the path of the source. -/
theorem status_file {node : Node} (hn : fs.node? (origin ++ [name]) = some node)
    (hne : node ≠ .dir) :
    ∃ loc content, fs.status (source.child name) = .ok (loc, .file content) := by
  have hname : (fs.node? (origin ++ [name])).isSome := by rw [hn]; rfl
  have hplain := h.plain hname
  have hreach := (h.fits [name] (by simp) hname).1
  have hf : pathFault? (source.child name) = none := by
    rw [Path.child_eq]
    exact hreach.1
  have hsteps : (source.child name).steps = source.segments ++ [name] := by
    rw [Path.steps_of_noSlash (source.endsWithSlash_child hplain), source.segments_child hplain]
  cases node with
  | dir => exact absurd rfl hne
  | file content =>
    have hleads := leads_child h.leads hplain (hreach.2 name (List.mem_cons_self ..)) hn (by simp)
    rw [Leads, source.segments_child hplain] at hleads
    exact ⟨_, content, status_eq_ok.2 ⟨hf, by rw [hsteps, hleads], hn⟩⟩
  | link t =>
    obtain ⟨loc, content, hw, hfile, -⟩ := h.links [name] t hn
    exact ⟨loc, content, status_eq_ok.2 ⟨hf, by rw [hsteps, hw], hfile⟩⟩

/-- And it is copied if its name in the target is free or a file's. -/
theorem copies_file {node : Node} (hn : fs.node? (origin ++ [name]) = some node)
    (hne : node ≠ .dir) (hold : ∀ old, fs.node? (dir ++ [name]) = some old → old ≠ .dir)
    (count : Nat) : ∃ n fs', (do
      change (·.copyFile (source.child name) (target.child name))
      return count + 1 : FileM Nat) fs = .ok n fs' := by
  have hname : (fs.node? (origin ++ [name])).isSome := by rw [hn]; rfl
  have hplain := h.plain hname
  have hold' : ∀ old, fs.node? (dir ++ [name]) = some old → ∃ content, old = .file content := by
    intro old ho
    cases old with
    | dir => exact absurd rfl (hold .dir ho)
    | file content => exact ⟨content, rfl⟩
    | link t => exact absurd ho (h.admits.fill.free [name] t)
  have hto : ∀ now, Fills (dir ++ [name]) fs now → ∃ place,
      now.resolve (target.child name) .write = .ok place ∧ now.IsAt dir name place := by
    intro now hf
    have hreach := (h.fits [name] (by simp) hname).2.1
    have hplain' : ∀ n ∈ [name], Path.IsPlain n := by simpa using hplain
    obtain ⟨left, -, he⟩ :=
      resolve_join .write (h.admits.leads.mono hf.grows) hplain' (by simp) hreach
    rw [Path.child_eq, he]
    exact isAt_last (hf.grows.dir h.admits.fill.stands) (h.sought hname)
      (hf.linkFree h.admits.fill.free [name])
  obtain ⟨loc, content, hs⟩ := status_file h hn hne
  obtain ⟨fs', hc⟩ := copyFile_succeeds h.admits.fill.stands hplain hs hto hold'
  exact ⟨count + 1, fs', bind_ok (a := ()) (change_eq_ok.2 hc)⟩

/-- A name of the source is copied if what it has in the target is not in the way. -/
theorem copyEntry_succeeds
    (ih : ∀ {source target origin dir fs}, Copyable source target outer origin dir fs →
      fs.Takes origin dir → longestPath < source.text.utf8ByteSize + levels →
      ∃ n fs', copyLevel order levels source target fs = .ok n fs')
    (hname : (fs.node? (origin ++ [name])).isSome)
    (htakes : fs.Takes (origin ++ [name]) (dir ++ [name]))
    (hlevels : longestPath < source.text.utf8ByteSize + (levels + 1)) (count : Nat) : ∃ n fs',
      copyEntry (copyLevel order levels) source target origin count name fs = .ok n fs' := by
  obtain ⟨node, hn⟩ := Option.isSome_iff_exists.1 hname
  have hold : node ≠ .dir → ∀ old, fs.node? (dir ++ [name]) = some old → old ≠ .dir := by
    intro hdir old ho he
    exact hdir ((htakes [] node old (by rwa [List.append_nil]) (by rwa [List.append_nil])).2 he)
  rw [copyEntry_apply, hn]
  cases node with
  | dir => exact copies_inner h ih hn htakes hlevels count
  | file content => exact copies_file h hn (by simp) (hold (by simp)) count
  | link t => exact copies_file h hn (by simp) (hold (by simp)) count

/-- Names are copied one after another: none is in the way of those that follow. -/
theorem copyNames_succeeds {names : List String}
    (hentry : ∀ {fs : FileSystem} {name : String}, Copyable source target outer origin dir fs →
      (fs.node? (origin ++ [name])).isSome → fs.Takes (origin ++ [name]) (dir ++ [name]) →
      ∀ count, ∃ n fs',
        copyEntry (copyLevel order levels) source target origin count name fs = .ok n fs')
    (hnodup : names.Nodup) (hnames : ∀ name ∈ names, (fs.node? (origin ++ [name])).isSome)
    (htakes : ∀ name ∈ names, fs.Takes (origin ++ [name]) (dir ++ [name])) (count : Nat) :
    ∃ n fs', names.foldlM (copyEntry (copyLevel order levels) source target origin) count fs =
      .ok n fs' := by
  induction names generalizing fs count with
  | nil => exact ⟨count, fs, rfl⟩
  | cons first names ih =>
    rw [List.nodup_cons] at hnodup
    rw [List.forall_mem_cons] at hnames htakes
    obtain ⟨k, fs₁, hfirst⟩ := hentry h hnames.1 htakes.1 count
    have hstep : Fills (dir ++ [first]) fs fs₁ := Keeps.ok (fills_copyEntry (h.plain hnames.1)
      (fills_copyLevel order levels _ _ _) count) hfirst h.admits
    have hwide : Fills dir fs fs₁ := hstep.widen (List.prefix_append ..)
    have hsame := h.sameSource hwide
    have hrest := ih (h.after hwide) hnodup.2
      (fun name hn => by rw [hsame.same]; exact hnames.2 name hn) (fun name hn => by
        refine (htakes.2 name hn).congr (fun rest => ?_) fun rest => hstep.outside _ fun hp => ?_
        · rw [List.append_assoc, hsame.same]
        · rw [List.append_assoc, List.prefix_append_right_inj, List.singleton_append,
            List.cons_prefix_cons] at hp
          exact hnodup.1 (hp.1 ▸ hn)) k
    obtain ⟨n, fs', hrest⟩ := hrest
    exact ⟨n, fs', (bind_ok hfirst).trans hrest⟩

end Entries

/-- A directory is copied whatever the order, as deep as its paths go. -/
theorem copyLevel_succeeds (order : ListingOrder) (h : Copyable source target outer origin dir fs)
    (htakes : fs.Takes origin dir) (hlevels : longestPath < source.text.utf8ByteSize + levels) :
    ∃ n fs', copyLevel order levels source target fs = .ok n fs' := by
  induction levels generalizing source target origin dir fs with
  | zero =>
    have hsize := (pathFault?_eq_none.1 (leads_of_status h.opened).2.2).2.1
    omega
  | succ levels ih =>
    have hperm := order.perm origin (fs.children origin)
    have hnames : ∀ name ∈ order.arrange origin (fs.children origin),
        (fs.node? (origin ++ [name])).isSome := fun name hn =>
      mem_children.1 (hperm.mem_iff.1 hn)
    rw [copyLevel_apply, h.opened]
    exact copyNames_succeeds h (fun h hname htakes count =>
        copyEntry_succeeds h ih hname htakes hlevels count)
      (hperm.nodup_iff.2 (fs.nodup_children origin)) hnames (fun name _ => htakes.below [name]) 0

end FileM

end Depot
