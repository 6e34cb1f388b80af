import Depot.Proofs.Files.Confinement
import Depot.Proofs.Files.CopySuccess

/-! Faithful copies. Where nothing is in the way, and where links lead to files elsewhere, a copy
has what the source has, whatever order directories list their names in. -/

namespace Depot

open Work

namespace FileSystem

variable {fs made fs' : FileSystem} {source target : Location} {n : Nat}

/-- One place has been copied to another: all the source shows is there, as many files as it has
have been counted, and nothing else has changed since the way to the target was made. -/
structure Faithful (source target : Location) (fs made : FileSystem) (n : Nat) (fs' : FileSystem) :
    Prop where
  inside : ∀ rest, fs'.node? (target ++ rest) =
    (fs.shown (source ++ rest)).or (made.node? (target ++ rest))
  outside : ∀ loc, ¬target <+: loc → fs'.node? loc = made.node? loc
  untouched : ∀ rest, fs'.node? (source ++ rest) = fs.node? (source ++ rest)
  count : (n : ℕ∞) = (fs.files source).encard

/-- There is only one such outcome. -/
theorem Faithful.unique {n₁ n₂ : Nat} {fs₁ fs₂ : FileSystem}
    (h₁ : Faithful source target fs made n₁ fs₁) (h₂ : Faithful source target fs made n₂ fs₂) :
    n₁ = n₂ ∧ fs₁ = fs₂ := by
  constructor
  · exact Nat.cast_inj.1 (h₁.count.trans h₂.count.symm)
  · ext loc : 1
    by_cases hp : target <+: loc
    · obtain ⟨rest, rfl⟩ := hp
      rw [h₁.inside, h₂.inside]
    · rw [h₁.outside loc hp, h₂.outside loc hp]

/-- Two paths can both go on to whatever is below a place, and the first meets no more links on the
way to a link there than may be followed. -/
structure Fits (fs : FileSystem) (p q : Path) (loc : Location) : Prop where
  room : ∀ rest ≠ [], (fs.node? (loc ++ rest)).isSome →
    (p.join (.ofComponents rest)).text.utf8ByteSize ≤ longestPath ∧
      (q.join (.ofComponents rest)).text.utf8ByteSize ≤ longestPath
  links : fs.Affords p loc

namespace Vacant

variable {p : Path} {dir loc : Location} {name : String}

/-- Below what has just been made there is nothing. -/
theorem bare (h : fs.Vacant p made dir name) :
    ∀ rest ≠ [], (made.add dir name .dir).node? (dir ++ [name] ++ rest) = none := by
  intro rest hrest
  rw [h.node?, if_neg (by simpa using hrest)]
  exact node?_append_of_none h.nothing rest

theorem fillable (h : fs.Vacant p made dir name) (hnamed : fs.Named) :
    (made.add dir name .dir).Fillable (dir ++ [name]) := by
  have hstands : (made.add dir name .dir).node? (dir ++ [name]) = some .dir := by
    rw [h.node?, if_pos rfl]
  refine ⟨hstands, fun rest t hn => ?_, ?_⟩
  · by_cases hrest : rest = []
    · subst hrest
      rw [List.append_nil, hstands] at hn
      cases hn
    · rw [h.bare rest hrest] at hn
      cases hn
  · exact (Keeps.ok (FileM.addsDirs_mkdirAll p) h.mkdirAll).names hnamed

theorem outside (h : fs.Vacant p made dir name) (hs : (made.node? loc).isSome)
    (hapart : ¬loc <+: dir ++ [name]) (rest : Location) : ¬dir ++ [name] <+: loc ++ rest := by
  refine Apart.outside ⟨hapart, ?_⟩ rest
  rintro ⟨more, rfl⟩
  rw [node?_append_of_none h.nothing more] at hs
  cases hs

theorem sameSource (h : fs.Vacant p made dir name)
    (huntouched : ∀ rest, made.node? (loc ++ rest) = fs.node? (loc ++ rest))
    (hapart : ¬loc <+: dir ++ [name]) :
    SameSource loc (dir ++ [name]) fs (made.add dir name .dir) := by
  have hold := (Keeps.ok (FileM.addsDirs_mkdirAll p) h.mkdirAll).old
  refine ⟨hold.grows, fun rest => ?_, fun l node _ hn => hold l node hn⟩
  rw [h.node?, if_neg, huntouched]
  intro he
  exact hapart (he ▸ List.prefix_append ..)

/-- A copy to the directory just made is one to where nothing was. -/
theorem faithful (h : fs.Vacant p made dir name)
    (hsame : SameSource loc (dir ++ [name]) fs (made.add dir name .dir))
    (hdir : fs.node? loc = some .dir) (hlinks : fs.LinksOut loc (dir ++ [name]))
    (hf : Faithful loc (dir ++ [name]) (made.add dir name .dir) (made.add dir name .dir) n fs') :
    Faithful loc (dir ++ [name]) fs made n fs' := by
  have hsolid : ∀ t, fs.node? loc ≠ some (.link t) := by simp [hdir]
  refine ⟨fun rest => ?_, fun l hl => ?_, fun rest => ?_, ?_⟩
  · rw [hf.inside, hsame.shown hlinks hsolid]
    by_cases hrest : rest = []
    · subst hrest
      rw [List.append_nil, shown_eq hsolid, hdir, Option.some_or, Option.some_or]
    · rw [h.node?, if_neg (by simpa using hrest)]
  · rw [hf.outside l hl, h.node?, if_neg]
    rintro rfl
    exact hl (List.prefix_refl _)
  · rw [hf.untouched, hsame.same]
  · rw [hf.count, files_congr hsame.same]

/-- A file that can be read is copied there. -/
theorem copyFile (h : fs.Vacant p made dir name) (hslash : p.endsWithSlash = false)
    {origin : Path} {content : Content} (hs : made.status origin = .ok (loc, .file content)) :
    ∃ fs', made.copyFile origin p = .ok fs' ∧ Puts dir name (.file content) made fs' := by
  have hnothing := h.nothing
  obtain ⟨fs', hc⟩ := copyFile_succeeds h.stands h.plain hs (fun now hf => h.resolve hslash hf)
    fun node hnode => by
      rw [hnothing] at hnode
      cases hnode
  have hat : ∀ now place, Fills (dir ++ [name]) made now → now.resolve p .write = .ok place →
      now.IsAt dir name place := by
    intro now place hf hp
    obtain ⟨place', hp', hat⟩ := h.resolve hslash hf
    rw [hp] at hp'
    cases hp'
    exact hat
  obtain ⟨loc', content', hs', -, hputs⟩ := copyFile_puts h.stands h.plain hat hc
  rw [hs] at hs'
  cases hs'
  have hn := (leads_of_status hs).2.1
  have hne : loc ≠ dir ++ [name] := by
    rintro rfl
    rw [hnothing] at hn
    cases hn
  rw [if_neg hne] at hputs
  exact ⟨fs', hc, hputs⟩

/-- A file that has been put there is a copy of the one it has been read from. -/
theorem faithful_puts (h : fs.Vacant p made dir name) {content : Content}
    (hn : fs.node? loc = some (.file content)) (hapart : ¬loc <+: dir ++ [name])
    (huntouched : ∀ rest, made.node? (loc ++ rest) = fs.node? (loc ++ rest))
    (hputs : Puts dir name (.file content) made fs') :
    Faithful loc (dir ++ [name]) fs made 1 fs' := by
  have hout := h.outside (by rw [h.adds.old loc _ hn]; rfl) hapart
  refine ⟨fun rest => ?_, hputs.fills.outside, fun rest => ?_, ?_⟩
  · by_cases hrest : rest = []
    · subst hrest
      rw [List.append_nil, List.append_nil, hputs.here, shown_eq (by simp [hn]), hn,
        Option.some_or]
    · have hbelow := hputs.below hrest
      rw [shown_none (node?_below (by simp [hn]) hrest), Option.none_or, List.append_assoc,
        List.singleton_append, hbelow]
  · rw [hputs.fills.outside _ (hout rest), huntouched]
  · rw [files_of_file hn (by simp), Set.encard_singleton, Nat.cast_one]

end Vacant

end FileSystem

namespace FileM

open FileSystem

variable {fs made fs' : FileSystem} {order : ListingOrder} {levels n : Nat}
  {source dest : Path}

/-! ## One directory -/

section Levels

variable {origin target : Location} (hopened : fs.status source = .ok (origin, .dir))
  (hadmits : fs.Admits dest target) (hout : ∀ rest, ¬target <+: origin ++ rest)
  (hlinks : fs.LinksOut origin target) (h : copyLevel order levels source dest fs = .ok n fs')
include hopened hadmits hout hlinks h

theorem faithful_copyLevel : Faithful origin target fs fs n fs' := by
  obtain ⟨hfrom, hdir, -⟩ := leads_of_status hopened
  have hfills : Fills target fs fs' := Keeps.ok (fills_copyLevel order _ _ _ _) h hadmits
  have hsame := hfills.sameSource hout
  have hsolid : ∀ t, fs.node? origin ≠ some (.link t) := by simp [hdir]
  have hshows := shows_copyLevel hfrom hadmits (List.prefix_refl target) hout (.refl target fs')
    (hsame.linksOut hlinks).leadsOut h
  refine ⟨fun rest => ?_, hfills.outside, hsame.same,
    count_copyLevel hfrom hadmits (List.prefix_refl target) hout h⟩
  by_cases hrest : rest = []
  · subst hrest
    rw [List.append_nil, List.append_nil, hfills.grows.dir hadmits.fill.stands, shown_eq hsolid,
      hdir, Option.some_or]
  · rw [(hshows rest hrest).node, hsame.shown hlinks hsolid]

/-- What has been copied had nothing in its way, and could be named and opened. -/
theorem copyable_of_copied (hallowed : fs.Allowed) :
    Copyable source dest target origin target fs ∧ fs.Takes origin target := by
  obtain ⟨hfrom, hdir, -⟩ := leads_of_status hopened
  have hnamed := hadmits.fill.names
  have hfills : Fills target fs fs' := Keeps.ok (fills_copyLevel order _ _ _ _) h hadmits
  have hsolid : ∀ t, fs.node? origin ≠ some (.link t) := by simp [hdir]
  have haffords : fs.Affords source origin := by
    intro rest t hn
    rcases List.eq_nil_or_concat rest with rfl | ⟨above, last, rfl⟩
    · exact absurd (by rwa [List.append_nil] at hn) (hsolid t)
    rw [List.concat_eq_append] at hn ⊢
    rw [← List.append_assoc] at hn
    obtain ⟨-, loc, hw⟩ := link_copied hfrom hnamed hn h
    -- what has been opened by the end met too many links at no time
    rcases walk_before hfills.grows (by rw [node?_root]; rfl) hw with ⟨he, -⟩ | ⟨_, _, he⟩ | he
    all_goals
      rw [he]
      simp
  refine ⟨⟨hopened, hadmits, List.prefix_refl target, hout,
    hlinks.opens haffords hfrom hdir hnamed hallowed,
    fun rest hrest hs => reachable_of_copied hfrom hnamed hs hrest h⟩,
    fun rest node old hn ho => ?_⟩
  -- what was there is of the kind that has come
  obtain ⟨found, hshown, hkind⟩ := hlinks.shown_dir hsolid hn
  have hnow := (faithful_copyLevel hopened hadmits hout hlinks h).inside rest
  obtain ⟨now, hold, hlike⟩ := hfills.grows _ old ho
  rw [hshown, Option.some_or, hold] at hnow
  cases hnow
  rw [hkind]
  cases hlike <;> simp

end Levels

/-! ## Whole copies -/

section Trees

variable {loc : Location}

theorem copyTree_of_dir (hs : fs.status source = .ok (loc, .dir))
    (hm : mkdirAll dest fs = .ok () made) :
    copyTree source dest order fs = copyLevel order (longestPath + 1) source dest made := by
  unfold copyTree
  rw [bind_ok (ask_eq_ok.2 ⟨hs, rfl⟩)]
  dsimp only
  rw [bind_ok hm]

theorem copyTree_of_file {content : Content} {parent : Path}
    (hs : fs.status source = .ok (loc, .file content)) (hparent : dest.parent? = some parent)
    (hm : mkdirAll parent fs = .ok () made) (hc : made.copyFile source dest = .ok fs') :
    copyTree source dest order fs = .ok 1 fs' := by
  unfold copyTree
  rw [bind_ok (ask_eq_ok.2 ⟨hs, rfl⟩)]
  simp only [hparent]
  rw [bind_ok hm, bind_ok (a := ()) (change_eq_ok.2 hc)]
  rfl

end Trees

/-! ## To where nothing is -/

section Absent

variable {loc dir : Location} {name : String} (hvacant : fs.Vacant dest made dir name)
  (huntouched : ∀ rest, made.node? (loc ++ rest) = fs.node? (loc ++ rest))
include hvacant huntouched

/-- A directory is copied to where nothing is. -/
theorem faithful_dir (hnamed : fs.Named) (hallowed : fs.Allowed)
    (hs : fs.status source = .ok (loc, .dir)) (hapart : ¬loc <+: dir ++ [name])
    (hlinks : fs.LinksOut loc (dir ++ [name])) (hfits : fs.Fits source dest loc) : ∃ n fs',
      (∀ order, copyTree source dest order fs = .ok n fs') ∧
      Faithful loc (dir ++ [name]) fs made n fs' := by
  obtain ⟨hfrom, hdir, hf⟩ := leads_of_status hs
  obtain ⟨hto, -, hf'⟩ := leads_of_status hvacant.status
  have hfill := hvacant.fillable hnamed
  have hsame := hvacant.sameSource huntouched hapart
  have hout := hvacant.outside (by rw [hvacant.adds.old loc _ hdir]; rfl) hapart
  have hlinks₁ := hsame.linksOut hlinks
  have hopened := status_dir_grows hs hsame.grows
  have hcopyable : Copyable source dest (dir ++ [name]) loc (dir ++ [name])
      (made.add dir name .dir) := by
    refine ⟨hopened, ⟨hto, hfill⟩, List.prefix_refl _, hout,
      hsame.opensLinks (hlinks.opens hfits.links hfrom hdir hnamed hallowed),
      fun rest hrest hs => ?_⟩
    rw [hsame.same] at hs
    obtain ⟨hsource, hdest⟩ := hfits.room rest hrest hs
    exact ⟨reachable_of_size hf (hnamed.plain hs) hrest (hallowed.below hs) hsource,
      reachable_of_size hf' (hnamed.plain hs) hrest (hallowed.below hs) hdest⟩
  have htakes := takes_empty (hsame.grows.dir hdir) hfill.stands hvacant.bare
  have hcopies : ∀ order, ∃ n fs', copyTree source dest order fs = .ok n fs' ∧
      Faithful loc (dir ++ [name]) fs made n fs' := by
    intro order
    obtain ⟨n, fs', hc⟩ := copyLevel_succeeds order hcopyable htakes
      (Nat.lt_add_left _ (Nat.lt_succ_self longestPath))
    exact ⟨n, fs', (copyTree_of_dir hs hvacant.mkdirAll).trans hc,
      hvacant.faithful hsame hdir hlinks
        (faithful_copyLevel hopened ⟨hto, hfill⟩ hout hlinks₁ hc)⟩
  obtain ⟨n, fs', -, hfaithful⟩ := hcopies .byName
  refine ⟨n, fs', fun order => ?_, hfaithful⟩
  obtain ⟨n', fs'', hc, hfaithful'⟩ := hcopies order
  obtain ⟨rfl, rfl⟩ := hfaithful.unique hfaithful'
  exact hc

/-- A file is copied to where nothing is, unless a directory is asked for. -/
theorem faithful_file {content : Content} (hs : fs.status source = .ok (loc, .file content))
    (hapart : ¬loc <+: dir ++ [name]) (hslash : dest.endsWithSlash = false) : ∃ fs',
      (∀ order, copyTree source dest order fs = .ok 1 fs') ∧
      Faithful loc (dir ++ [name]) fs made 1 fs' := by
  obtain ⟨parent, hparent, hm⟩ := hvacant.above
  obtain ⟨hf, hw, hn⟩ := status_eq_ok.1 hs
  have hold := hvacant.adds.old
  have hreads : made.status source = .ok (loc, .file content) :=
    status_eq_ok.2 ⟨hf, walk_mono hold.grows hw, hold loc _ hn⟩
  obtain ⟨fs', hc, hputs⟩ := hvacant.copyFile hslash hreads
  exact ⟨fs', fun order => copyTree_of_file hs hparent hm hc,
    hvacant.faithful_puts hn hapart huntouched hputs⟩

end Absent

/-! ## Over a directory -/

/-- Copying over a directory without links has the same outcome for each order, if any. -/
theorem faithful_over {loc target : Location} {node : Node}
    (hnamed : fs.Named) (hallowed : fs.Allowed) (hs : fs.status source = .ok (loc, node))
    (ht : fs.status dest = .ok (target, .dir)) (hfree : fs.LinkFree target)
    (hapart : Apart loc target) (hlinks : fs.LinksOut loc target)
    (h : copyTree source dest order fs = .ok n fs') :
    Faithful loc target fs fs n fs' ∧ ∀ order', copyTree source dest order' fs = .ok n fs' := by
  have hm := mkdirAll_of_isDir (isDir_iff.2 ⟨target, ht⟩)
  obtain ⟨hto, hstands, -⟩ := leads_of_status ht
  have hadmits : fs.Admits dest target := ⟨hto, hstands, hfree, hnamed⟩
  by_cases hnode : node = .dir
  · subst hnode
    rw [copyTree_of_dir hs hm] at h
    have hfaithful := faithful_copyLevel hs hadmits hapart.outside hlinks h
    refine ⟨hfaithful, fun order' => ?_⟩
    obtain ⟨hcopyable, htakes⟩ := copyable_of_copied hs hadmits hapart.outside hlinks h hallowed
    obtain ⟨n', fs'', hc⟩ := copyLevel_succeeds order' hcopyable htakes
      (Nat.lt_add_left _ (Nat.lt_succ_self longestPath))
    obtain ⟨rfl, rfl⟩ := hfaithful.unique (faithful_copyLevel hs hadmits hapart.outside hlinks hc)
    rw [copyTree_of_dir hs hm, hc]
  · obtain ⟨made, hmade, hc⟩ := copyTree_file hs hnode h
    have hgrows : Grows fs made := by
      rcases hmade with rfl | ⟨above, -, hm⟩
      · exact .refl made
      · exact (Keeps.ok (addsDirs_mkdirAll above) hm).old.grows
    exact absurd hc (copyFile_of_dir (status_dir_grows ht hgrows))

/-- Whatever is copied over, each link below the source has led to a file in the end. -/
theorem links_copied {loc rest : Location} {node : Node} {name : String}
    {t : Path} (hnamed : fs.Named) (hs : fs.status source = .ok (loc, node))
    (hn : fs.node? (loc ++ rest ++ [name]) = some (.link t))
    (h : copyTree source dest order fs = .ok n fs') :
    Grows fs fs' ∧ fs'.FindsFile (loc ++ rest) name := by
  have hdir : fs.node? loc = some .dir := by
    have hbelow : rest ++ [name] ≠ [] := by simp
    rw [List.append_assoc] at hn
    exact node?_above hbelow (by rw [hn]; rfl)
  rw [(leads_of_status hs).2.1] at hdir
  cases hdir
  obtain ⟨made, hm, hfrom, hc⟩ := copyTree_dir hs h
  have hmade := (Keeps.ok (addsDirs_mkdirAll dest) hm).builds hnamed
  have hbuilds : Builds fs fs' := Keeps.ok (building_copyTree source dest order) h hnamed
  exact ⟨hbuilds.grows, (link_copied hfrom hmade.names (hmade.grows.link hn) hc).1⟩

/-- Whatever it is copied over, what a directory holds could be named behind both paths. -/
theorem reachable_of_copyTree {loc rest : Location} (hnamed : fs.Named)
    (hs : fs.status source = .ok (loc, .dir)) (hrest : rest ≠ [])
    (hsome : (fs.node? (loc ++ rest)).isSome) (h : copyTree source dest order fs = .ok n fs') :
    Reachable source rest ∧ Reachable dest rest := by
  obtain ⟨made, hm, hfrom, hc⟩ := copyTree_dir hs h
  have hmade := (Keeps.ok (addsDirs_mkdirAll dest) hm).builds hnamed
  obtain ⟨node, hn⟩ := Option.isSome_iff_exists.1 hsome
  obtain ⟨node', hn', -⟩ := hmade.grows _ node hn
  exact reachable_of_copied hfrom hmade.names (by rw [hn']; rfl) hrest hc

end FileM

open FileM FileSystem

/-- Copying is faithful. To where nothing is, if the directories above it can be made and are not in
the source, it copies a directory whose links lead to files elsewhere, or a file: then the target
shows what the source does and no more, as many files are answered as there are, and nothing else is
changed, whatever order directories list their names in. Over a directory without links, what comes
of it for one order comes of it for each, and what the source does not have stays. A link to a
directory makes it fail, and so does one that leads to no file in the end. -/
theorem copies_faithful {fs : FileSystem} {source dest : Path} {loc : Location} {node : Node}
    (hnamed : fs.Named) (hallowed : fs.Allowed) (hs : fs.status source = .ok (loc, node)) :
    (∀ made dir name, fs.Vacant dest made dir name → ¬loc <+: dir ++ [name] →
      (∀ rest, made.node? (loc ++ rest) = fs.node? (loc ++ rest)) →
      fs.LinksOut loc (dir ++ [name]) →
      (node = .dir ∧ fs.Fits source dest loc ∨
        ∃ content, node = .file content ∧ dest.endsWithSlash = false) →
      AddsDirs dest.ancestors fs made ∧ ∃ n fs',
        (∀ order, copyTree source dest order fs = .ok n fs') ∧
        Faithful loc (dir ++ [name]) fs made n fs' ∧
        ∀ rest, fs'.node? (dir ++ [name] ++ rest) = fs.shown (loc ++ rest)) ∧
    (∀ target order n fs', fs.status dest = .ok (target, .dir) → fs.LinkFree target →
      Apart loc target → fs.LinksOut loc target → copyTree source dest order fs = .ok n fs' →
      Faithful loc target fs fs n fs' ∧ ∀ order', copyTree source dest order' fs = .ok n fs') ∧
    ∀ rest name t order n fs', fs.node? (loc ++ rest ++ [name]) = some (.link t) →
      copyTree source dest order fs = .ok n fs' →
      fs'.FindsFile (loc ++ rest) name ∧
      ∀ place, fs.follow .look (loc ++ rest) name = .ok (.there place) →
        fs.node? place ≠ some .dir := by
  refine ⟨fun made dir name hvacant hapart huntouched hlinks hkind => ?_,
    fun target order n fs' ht hfree hapart hlinks h =>
      faithful_over hnamed hallowed hs ht hfree hapart hlinks h,
    fun rest name t order n fs' hn h => ?_⟩
  · have hcopied : ∃ n fs', (∀ order, copyTree source dest order fs = .ok n fs') ∧
        Faithful loc (dir ++ [name]) fs made n fs' := by
      rcases hkind with ⟨rfl, hfits⟩ | ⟨content, rfl, hslash⟩
      · exact faithful_dir hvacant huntouched hnamed hallowed hs hapart hlinks hfits
      · exact ⟨1, faithful_file hvacant huntouched hs hapart hslash⟩
    obtain ⟨n, fs', hc, hfaithful⟩ := hcopied
    refine ⟨hvacant.adds, n, fs', hc, hfaithful, fun rest => ?_⟩
    rw [hfaithful.inside, node?_append_of_none hvacant.nothing, Option.or_none]
  · obtain ⟨hgrows, hfinds⟩ := links_copied hnamed hs hn h
    refine ⟨hfinds, fun place hf hdir => ?_⟩
    -- what a link leads to, it leads to still
    obtain ⟨place', content, hf', hfile⟩ := hfinds
    have hstill := walk_mono hgrows hf
    rw [follow] at hf'
    rw [hf'] at hstill
    cases hstill
    rw [hgrows.dir hdir] at hfile
    cases hfile

namespace Sample

/-- A directory `s` with a file, an empty directory and a link to a file elsewhere, and another with
a file. -/
def origin : FileSystem :=
  ((((((FileSystem.empty.add [] "s" .dir).add ["s"] "a" (.file [1])).add ["s"] "e" .dir).add [] "t"
    (.file [2])).add ["s"] "l" (.link ⟨"/t"⟩)).add [] "k" .dir).add ["k"] "b" (.file [3])

def originNodes : List (Location × Node) :=
  [([], .dir), (["s"], .dir), (["s", "a"], .file [1]), (["s", "e"], .dir), (["t"], .file [2]),
    (["s", "l"], .link ⟨"/t"⟩), (["k"], .dir), (["k", "b"], .file [3])]

theorem mem_originNodes {loc : Location} {node : Node} (h : origin.node? loc = some node) :
    (loc, node) ∈ originNodes := by
  iterate 7
    rcases mem_add h with ⟨rfl, rfl⟩ | h
    · decide
  obtain ⟨rfl, rfl⟩ := mem_empty h
  decide

theorem originNodes_allowed : ∀ p ∈ originNodes, ∀ name ∈ p.1,
    Path.IsPlain name ∧ name.utf8ByteSize ≤ longestName ∧ '\x00' ∉ name.toList := by decide

theorem origin_named : origin.Named := by
  intro dir name hs
  obtain ⟨node, hn⟩ := Option.isSome_iff_exists.1 hs
  exact (originNodes_allowed _ (mem_originNodes hn) name (by simp)).1

theorem origin_allowed : origin.Allowed := by
  intro dir name hs
  obtain ⟨node, hn⟩ := Option.isSome_iff_exists.1 hs
  exact (originNodes_allowed _ (mem_originNodes hn) name (by simp)).2

theorem originNodes_room : ∀ p ∈ originNodes,
    (Path.join ⟨"/s"⟩ (.ofComponents (p.1.drop 1))).text.utf8ByteSize ≤ longestPath ∧
      (Path.join ⟨"/x/d"⟩ (.ofComponents (p.1.drop 1))).text.utf8ByteSize ≤ longestPath := by decide

theorem origin_link {rest : Location} {t : Path}
    (hn : origin.node? (["s"] ++ rest) = some (.link t)) : rest = ["l"] := by
  have hmem := mem_originNodes hn
  have hlink : rest = ["l"] ∧ t = ⟨"/t"⟩ := by simpa [originNodes] using hmem
  exact hlink.1

theorem origin_fits : origin.Fits ⟨"/s"⟩ ⟨"/x/d"⟩ ["s"] where
  room rest _ hs := by
    obtain ⟨node, hn⟩ := Option.isSome_iff_exists.1 hs
    simpa only [List.singleton_append, List.drop_succ_cons, List.drop_zero] using
      originNodes_room _ (mem_originNodes hn)
  links rest t hn := by
    obtain rfl := origin_link hn
    decide +kernel

theorem origin_linksOut {target : Location} (h : ¬target <+: ["t"]) :
    origin.LinksOut ["s"] target := by
  intro rest name t hn
  have hlast : rest ++ [name] = [] ++ ["l"] := origin_link (by rwa [← List.append_assoc])
  obtain ⟨rfl, hname⟩ := List.append_inj' hlast rfl
  cases hname
  exact ⟨["t"], [2], by decide +kernel, by decide +kernel, h⟩

theorem origin_linkFree : origin.LinkFree ["k"] := by
  intro rest t hn
  have hmem := mem_originNodes hn
  simp [originNodes] at hmem

/-- To go to a directory that has to be made first. -/
theorem origin_vacant : origin.Vacant ⟨"/x/d"⟩ (origin.add [] "x" .dir) ["x"] "d" := by
  have hroot : mkdirAll ⟨"/"⟩ origin = .ok () origin := mkdirAll_of_isDir (by decide +kernel)
  have habove : origin.Vacant ⟨"/x"⟩ origin [] "x" :=
    ⟨⟨⟨"/"⟩, by decide, hroot⟩, by decide +kernel⟩
  exact ⟨⟨⟨"/x"⟩, by decide, habove.mkdirAll⟩, by decide +kernel⟩

theorem origin_untouched (rest : Location) :
    (origin.add [] "x" .dir).node? (["s"] ++ rest) = origin.node? (["s"] ++ rest) := by
  rw [node?_add .dir (node?_root origin) (by decide +kernel), if_neg (by simp)]

end Sample

theorem copies_faithful_sample :
    (∃ n fs', (∀ order, copyTree ⟨"/s"⟩ ⟨"/x/d"⟩ order Sample.origin = .ok n fs') ∧
      fs'.node? ["x", "d", "l"] = some (.file [2]) ∧ fs'.node? ["x", "d", "e"] = some .dir) ∧
    ∃ fs', (∀ order, copyTree ⟨"/s"⟩ ⟨"/k"⟩ order Sample.origin = .ok 2 fs') ∧
      fs'.node? ["k", "a"] = some (.file [1]) ∧ fs'.node? ["k", "b"] = some (.file [3]) := by
  have hs : Sample.origin.status ⟨"/s"⟩ = .ok (["s"], .dir) := by decide +kernel
  constructor
  · obtain ⟨-, n, fs', hc, -, hshows⟩ :=
      (copies_faithful Sample.origin_named Sample.origin_allowed hs).1
        (Sample.origin.add [] "x" .dir)
        ["x"] "d" Sample.origin_vacant (by decide) Sample.origin_untouched
        (Sample.origin_linksOut (by decide)) (Or.inl ⟨rfl, Sample.origin_fits⟩)
    exact ⟨n, fs', hc, (hshows ["l"]).trans (by decide +kernel),
      (hshows ["e"]).trans (by decide +kernel)⟩
  · have hok := ok_of_answer (r := copyTree ⟨"/s"⟩ ⟨"/k"⟩ .byName Sample.origin) (a := 2)
      (by decide +kernel)
    obtain ⟨hfaithful, hc⟩ := (copies_faithful Sample.origin_named Sample.origin_allowed hs).2.1
      ["k"] .byName 2 _ (by decide +kernel) Sample.origin_linkFree ⟨by decide, by decide⟩
      (Sample.origin_linksOut (by decide)) hok
    exact ⟨_, hc, (hfaithful.inside ["a"]).trans (by decide +kernel),
      (hfaithful.inside ["b"]).trans (by decide +kernel)⟩

namespace Sample

/-- A link in `s` that leads nowhere, but would lead to a file if there were a directory `d` that
had what `s` has. -/
def mended : FileSystem :=
  (((FileSystem.empty.add [] "s" .dir).add ["s"] "sub" .dir).add [] "t" (.file [1])).add
    ["s", "sub"] "z" (.link ⟨"/d/sub/../../t"⟩)

/-- A directory with one file. -/
def lone : FileSystem := (FileSystem.empty.add [] "s" .dir).add ["s"] "n" (.file [])

theorem lone_tidy : lone.Tidy :=
  (tidy_empty.add [] (by decide) (by simp)).add ["s"] (by decide) (by simp)

/-- With a link to the directory beside it. -/
def looped : FileSystem := lone.add [] "l" (.link ⟨"/s"⟩)

/-- The way to `s` with as many more separators as one likes. -/
def far : Nat → Path
  | 0 => ⟨"/s"⟩
  | n + 1 => ⟨"/" ++ (far n).text⟩

theorem size_far (n : Nat) : (far n).text.utf8ByteSize = n + 2 := by
  induction n with
  | zero => decide
  | succ n ih =>
    have hslash : "/".utf8ByteSize = 1 := by decide
    rw [far, String.utf8ByteSize_append, ih, hslash]
    omega

theorem segments_far (n : Nat) : (far n).segments = ["s"] := by
  induction n with
  | zero => decide
  | succ n ih =>
    rw [Path.segments_eq] at ih ⊢
    rw [far, String.toList_append]
    exact (Path.namesIn_slash _).trans ih

theorem endsWithSlash_far (n : Nat) : (far n).endsWithSlash = false := by
  induction n with
  | zero => decide
  | succ n ih =>
    have hne : (far n).text.toList ≠ [] := by
      intro he
      have hsize := size_far n
      rw [String.toList_eq_nil_iff.1 he] at hsize
      simp at hsize
    rw [Path.endsWithSlash, decide_eq_false_iff_not] at ih ⊢
    rwa [far, String.toList_append, List.getLast?_append_of_ne_nil _ hne]

theorem noNul_far (n : Nat) : '\x00' ∉ (far n).text.toList := by
  induction n with
  | zero => decide
  | succ n ih =>
    rw [far, String.toList_append, List.mem_append, not_or]
    exact ⟨by decide, ih⟩

theorem status_far {n : Nat} (h : n + 2 ≤ longestPath) :
    lone.status (far n) = .ok (["s"], .dir) := by
  have hne : (far n).text ≠ "" := by
    intro he
    have hsize := size_far n
    rw [he] at hsize
    simp at hsize
  refine status_of_leads (pathFault?_eq_none.2 ⟨noNul_far n, by rwa [size_far], hne⟩) ?_
    (by decide +kernel)
  rw [Leads, segments_far]
  decide +kernel

/-- A directory with a link to the file beside it, and a link to the root, which a path may follow
as often as one likes. -/
def ringed : FileSystem :=
  (((FileSystem.empty.add [] "s" .dir).add [] "t" (.file [1])).add ["s"] "z" (.link ⟨"/t"⟩)).add []
    "o" (.link ⟨"/"⟩)

def round : Nat → Path
  | 0 => ⟨"/s"⟩
  | n + 1 => ⟨"/o" ++ (round n).text⟩

end Sample

/-- What stands in the way of a copy: paths that become too long or follow too many links, a path
that asks for a directory where a file is to be, and one that no directory can be made at. What is
made on the way to the target may be in the source, and a link that leads nowhere may lead to a file
by the time it is copied. -/
theorem copies_impeded :
    (Sample.mended.Vacant ⟨"/d"⟩ Sample.mended [] "d" ∧
      Sample.mended.follow .look ["s", "sub"] "z" = .error .notFound ∧
      answer (copyTree ⟨"/s"⟩ ⟨"/d"⟩ .byName Sample.mended) = .ok 1) ∧
    (Sample.lone.Vacant ⟨"/d"⟩ Sample.lone [] "d" ∧ Sample.lone.LinkFree ["s"] ∧
      Sample.lone.status (Sample.far 4092) = .ok (["s"], .dir) ∧
      ∀ order n fs', copyTree (Sample.far 4092) ⟨"/d"⟩ order Sample.lone ≠ .ok n fs') ∧
    (Sample.ringed.Vacant ⟨"/d"⟩ Sample.ringed [] "d" ∧
      Sample.ringed.status (Sample.round 40) = .ok (["s"], .dir) ∧
      Sample.ringed.follow .look ["s"] "z" = .ok (.there ["t"]) ∧
      answer (copyTree (Sample.round 40) ⟨"/d"⟩ .byName Sample.ringed) = .error .tooManyLinks) ∧
    (Sample.mended.Vacant ⟨"/d/"⟩ Sample.mended [] "d" ∧
      Sample.mended.status ⟨"/t"⟩ = .ok (["t"], .file [1]) ∧
      answer (copyTree ⟨"/t"⟩ ⟨"/d/"⟩ .byName Sample.mended) = .error .isDirectory) ∧
    (Sample.mended.status ⟨"/d/."⟩ = .error .notFound ∧ Path.parent? ⟨"/d/."⟩ = some ⟨"/"⟩ ∧
      Sample.mended.isDir ⟨"/"⟩ ∧
      answer (copyTree ⟨"/t"⟩ ⟨"/d/."⟩ .byName Sample.mended) = .error .notFound) ∧
    Sample.looped.status ⟨"/l/x/../../d"⟩ = .error .notFound ∧
      Sample.looped.node? ["s", "x"] = none ∧ ∃ fs',
        copyTree ⟨"/s"⟩ ⟨"/l/x/../../d"⟩ .byName Sample.looped = .ok 1 fs' ∧
        fs'.status ⟨"/l/x/../../d"⟩ = .ok (["d"], .dir) ∧ fs'.node? ["s", "x"] = some .dir := by
  have hroot : ∀ fs : FileSystem, fs.isDir ⟨"/"⟩ → mkdirAll ⟨"/"⟩ fs = .ok () fs := fun fs =>
    mkdirAll_of_isDir
  have hmended := hroot Sample.mended (by decide +kernel)
  have hlone := hroot Sample.lone (by decide +kernel)
  have hringed := hroot Sample.ringed (by decide +kernel)
  refine ⟨⟨⟨⟨⟨"/"⟩, by decide, hmended⟩, by decide +kernel⟩, by decide +kernel, by decide +kernel⟩,
    ⟨⟨⟨⟨"/"⟩, by decide, hlone⟩, by decide +kernel⟩, Sample.lone_tidy.free _,
      Sample.status_far (by decide), fun order n fs' h => ?_⟩,
    ⟨⟨⟨⟨"/"⟩, by decide, hringed⟩, by decide +kernel⟩, by decide +kernel, by decide +kernel,
      by decide +kernel⟩,
    ⟨⟨⟨⟨"/"⟩, by decide, hmended⟩, by decide +kernel⟩, by decide +kernel, by decide +kernel⟩,
    ⟨by decide +kernel, by decide, by decide +kernel, by decide +kernel⟩,
    by decide +kernel, by decide +kernel, _, ok_of_answer (by decide +kernel), by decide +kernel,
    by decide +kernel⟩
  -- the way to the directory leaves no room for the name of the file
  have hthere : (Sample.lone.node? (["s"] ++ ["n"])).isSome := by decide +kernel
  have hreach := (reachable_of_copyTree Sample.lone_tidy.names (Sample.status_far (by decide))
    (by simp) hthere h).1
  have hsize := (pathFault?_eq_none.1 hreach.1).2.1
  have hgap : (Sample.far 4092).gap.utf8ByteSize = 1 := by
    have hne : (Sample.far 4092).text ≠ "" := fun he => by
      have hfar := Sample.size_far 4092
      rw [he] at hfar
      simp at hfar
    rw [Path.gap, if_neg (by simp [hne, Sample.endsWithSlash_far])]
    decide
  have hname : "n".utf8ByteSize = 1 := by decide
  rw [← Path.child_eq, Path.text_child _ (by decide), String.utf8ByteSize_append,
    String.utf8ByteSize_append, Sample.size_far, hgap, hname, longestPath] at hsize
  omega

end Depot
