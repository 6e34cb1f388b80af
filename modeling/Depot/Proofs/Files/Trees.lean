import Depot.Proofs.Files.Copies

/-! Whole copies: of a directory to a new one, and of whatever there is to a name in a directory
without links. -/

namespace Depot

open Work

namespace FileSystem

variable {fs fs' : FileSystem}

/-- What a path leads to and everything below that, links replaced by what they lead to. -/
def shownAt (fs : FileSystem) (p : Path) : Location → Option Node := fun rest =>
  match fs.status p with
  | .ok (loc, _) => fs.shown (loc ++ rest)
  | .error _ => none

theorem shownAt_of_status {p : Path} {loc : Location} {node : Node}
    (h : fs.status p = .ok (loc, node)) (rest : Location) :
    fs.shownAt p rest = fs.shown (loc ++ rest) := by
  rw [shownAt, h]

theorem treeAt_of_status {p : Path} {loc : Location} {node : Node}
    (h : fs.status p = .ok (loc, node)) (rest : Location) :
    fs.treeAt p rest = fs.node? (loc ++ rest) := by
  rw [treeAt, h]

theorem status_grows {p : Path} {loc : Location} {node : Node}
    (h : fs.status p = .ok (loc, node)) (hg : Grows fs fs') :
    ∃ node', fs'.status p = .ok (loc, node') ∧ node.Like node' := by
  obtain ⟨hf, hw, hn⟩ := status_eq_ok.1 h
  obtain ⟨node', hn', hlike⟩ := hg loc node hn
  exact ⟨node', status_eq_ok.2 ⟨hf, walk_mono hg hw, hn'⟩, hlike⟩

theorem status_dir_grows {p : Path} {loc : Location} (h : fs.status p = .ok (loc, .dir))
    (hg : Grows fs fs') : fs'.status p = .ok (loc, .dir) := by
  obtain ⟨node, hs, hlike⟩ := status_grows h hg
  cases hlike
  exact hs

end FileSystem

namespace FileM

open FileSystem

variable {fs fs' : FileSystem} {order : ListingOrder} {source target : Path} {n : Nat}

theorem status_of_copyTree (h : copyTree source target order fs = .ok n fs') :
    ∃ loc node, fs.status source = .ok (loc, node) := by
  obtain ⟨⟨loc, node⟩, _, hask, -⟩ := bind_eq_ok.1 h
  exact ⟨loc, node, (ask_eq_ok.1 hask).1⟩

/-- The ways in which copying can begin. -/
inductive CopyStart (source target : Path) (order : ListingOrder) (fs : FileSystem) :
    EStateM.Result FileError FileSystem Nat → Prop where
  | missing {e : FileError} : CopyStart source target order fs (.error e fs)
  | unmade {e : FileError} {fs₁ : FileSystem} {p : Path} : p ∈ target :: target.ancestors →
      mkdirAll p fs = .error e fs₁ → CopyStart source target order fs (.error e fs₁)
  | dir {loc : Location} {fs₁ : FileSystem} :
      fs.status source = .ok (loc, .dir) → mkdirAll target fs = .ok () fs₁ →
      CopyStart source target order fs (copyLevel order (longestPath + 1) source target fs₁)
  | file {loc : Location} {node : Node} {fs₁ : FileSystem} :
      fs.status source = .ok (loc, node) → node ≠ .dir →
      (fs₁ = fs ∨ ∃ above ∈ target.ancestors, mkdirAll above fs = .ok () fs₁) →
      CopyStart source target order fs ((do
        change (·.copyFile source target)
        return 1 : FileM Nat) fs₁)

theorem copyStart (source target : Path) (order : ListingOrder) (fs : FileSystem) :
    CopyStart source target order fs (copyTree source target order fs) := by
  unfold copyTree
  cases hask : ask (·.status source) fs with
  | error e fs₀ =>
    rw [bind_error hask, ask_error hask]
    exact .missing
  | ok found fs₀ =>
    obtain ⟨hs, rfl⟩ := ask_eq_ok.1 hask
    rw [bind_ok hask]
    obtain ⟨loc, node⟩ := found
    cases node
    case dir =>
      dsimp only
      cases hm : mkdirAll target fs₀ with
      | error e fs₁ =>
        rw [bind_error hm]
        exact .unmade (List.mem_cons_self ..) hm
      | ok u fs₁ =>
        rw [bind_ok hm]
        exact .dir hs hm
    -- whatever is no directory is copied as a file
    all_goals
      dsimp only
      cases hp : target.parent? with
      | none => exact .file hs (by simp) (Or.inl rfl)
      | some above =>
        have hmem : above ∈ target.ancestors := List.mem_of_mem_head? hp
        dsimp only
        cases hm : mkdirAll above fs₀ with
        | error e fs₁ =>
          rw [bind_error hm]
          exact .unmade (List.mem_cons_of_mem _ hmem) hm
        | ok u fs₁ =>
          rw [bind_ok hm]
          exact .file hs (by simp) (Or.inr ⟨above, hmem, hm⟩)

theorem copyTree_dir {loc : Location} (hs : fs.status source = .ok (loc, .dir))
    (h : copyTree source target order fs = .ok n fs') : ∃ fs₁,
      mkdirAll target fs = .ok () fs₁ ∧ fs₁.Leads source loc ∧
      copyLevel order (longestPath + 1) source target fs₁ = .ok n fs' := by
  have hcase := copyStart source target order fs
  generalize copyTree source target order fs = result at hcase h
  cases hcase with
  | missing => cases h
  | unmade => cases h
  | @dir _ fs₁ hs' hm =>
    have hgrows := (Keeps.ok (addsDirs_mkdirAll target) hm).old.grows
    exact ⟨fs₁, hm, (leads_of_status hs).1.mono hgrows, h⟩
  | file hs' hnode =>
    rw [hs] at hs'
    cases hs'
    exact absurd rfl hnode

theorem copyTree_file {loc : Location} {node : Node} (hs : fs.status source = .ok (loc, node))
    (hnode : node ≠ .dir) (h : copyTree source target order fs = .ok n fs') : ∃ fs₁,
      (fs₁ = fs ∨ ∃ above ∈ target.ancestors, mkdirAll above fs = .ok () fs₁) ∧
      fs₁.copyFile source target = .ok fs' := by
  have hcase := copyStart source target order fs
  generalize copyTree source target order fs = result at hcase h
  cases hcase with
  | missing => cases h
  | unmade => cases h
  | dir hs' =>
    rw [hs] at hs'
    cases hs'
    exact absurd rfl hnode
  | file _ _ hmade =>
    obtain ⟨_, _, hc, hn⟩ := bind_eq_ok.1 h
    cases hn
    exact ⟨_, hmade, change_eq_ok.1 hc⟩

/-! ## To a new directory -/

/-- What a directory without links holds is in the copy, and nothing else is; and all of it could
be named behind both paths. -/
theorem copyTree_fresh {b b' : Location} (hs : fs.status source = .ok (b, .dir))
    (ht : fs.status target = .ok (b', .dir)) (hfill : fs.Fillable b')
    (hempty : ∀ rest ≠ [], fs.node? (b' ++ rest) = none) (hapart : Apart b b')
    (hfree : fs.LinkFree b) (h : copyTree source target order fs = .ok n fs') :
    Fills b' fs fs' ∧ (∀ rest, fs'.node? (b' ++ rest) = fs.node? (b ++ rest)) ∧
      ∀ rest ≠ [], (fs.node? (b ++ rest)).isSome →
        Reachable source rest ∧ Reachable target rest := by
  obtain ⟨fs₁, hm, hfrom, hc⟩ := copyTree_dir hs h
  rw [mkdirAll_of_isDir (isDir_iff.2 ⟨b', ht⟩)] at hm
  cases hm
  have hadmits : fs.Admits target b' := ⟨(leads_of_status ht).1, hfill⟩
  have hfills : Fills b' fs fs' := Keeps.ok (fills_copyLevel order _ _ _ _) hc hadmits
  have hfree' : fs'.LinkFree b := hfills.linkFree hfree
  have hsource : ∀ rest, fs'.node? (b ++ rest) = fs.node? (b ++ rest) := fun rest =>
    hfills.outside _ (hapart.outside rest)
  have hshows := shows_copyLevel hfrom hadmits (List.prefix_refl b') hapart.outside (.refl b' fs')
    (hfree'.leadsOut b') hc
  refine ⟨hfills, fun rest => ?_, fun rest hrest hsome => ?_⟩
  · by_cases hrest : rest = []
    · subst hrest
      rw [List.append_nil, List.append_nil, hfills.grows.dir hfill.stands]
      exact (leads_of_status hs).2.1.symm
    · rw [(hshows rest hrest).node, shown_eq (hfree' rest), hsource, hempty rest hrest,
        Option.or_none]
  · apply (hshows rest hrest).fits
    rwa [hsource]

/-! ## Into itself -/

section Itself

variable {levels : Nat} {origin dir : Location}

/-- The turn of each name comes. -/
theorem reaches_name {names : List String} {count : Nat}
    (hplain : ∀ name ∈ names, Path.IsPlain name) (hadmits : fs.Admits target dir)
    (h : names.foldlM (copyEntry (copyLevel order levels) source target origin) count fs =
      .ok n fs') {name : String} (hname : name ∈ names) : ∃ count fs₁ k fs₂,
      Fills dir fs fs₁ ∧
      copyEntry (copyLevel order levels) source target origin count name fs₁ = .ok k fs₂ := by
  obtain ⟨count', fs₁, k, fs₂, hbefore, he, -⟩ := Keeps.turn
    (R := fun a b => a.Admits target dir → Fills dir a b) (fun a _ => .refl dir a)
    (fun hab hbc ha => (hab ha).trans (hbc (ha.after (hab ha))))
    (fun count name hn fs hadmits => (fills_copyEntry (hplain name hn)
      (fills_copyLevel order levels _ _ _) count fs hadmits).widen (List.prefix_append ..)) h hname
  exact ⟨count', fs₁, k, fs₂, hbefore hadmits, he⟩

/-- Copying a directory into itself finds no end: each level makes another one to copy. -/
theorem copyLevel_into {d : Location} (hd : d ≠ []) (hfrom : fs.Leads source origin)
    (hadmits : fs.Admits target (origin ++ d)) :
    copyLevel order levels source target fs ≠ .ok n fs' := by
  induction levels generalizing source target origin d fs fs' n with
  | zero => exact fun h => nomatch h
  | succ levels ih =>
    intro h
    obtain ⟨_, origin', hlevels, hstatus, h⟩ := copyLevel_ok h
    cases hlevels
    cases hfrom.unique (leads_of_status hstatus).1
    obtain ⟨name, rest, rfl⟩ := List.exists_cons_of_ne_nil hd
    have hinner : fs.node? (origin ++ [name]) = some .dir := by
      by_cases hrest : rest = []
      · subst hrest
        exact hadmits.fill.stands
      · apply node?_above hrest
        rw [List.append_assoc, List.singleton_append, hadmits.fill.stands]
        rfl
    have hname : name ∈ order.arrange origin (fs.children origin) := by
      refine (order.perm origin (fs.children origin)).mem_iff.2 (mem_children.2 ?_)
      rw [hinner]
      rfl
    have hplain : ∀ name ∈ order.arrange origin (fs.children origin), Path.IsPlain name :=
      fun name hname => (plain_of_children hadmits.fill.names hname).2
    obtain ⟨count, fs₁, k, fs₂, hfills, he⟩ := reaches_name hplain hadmits h hname
    rw [copyEntry_apply, hfills.grows.dir hinner] at he
    obtain ⟨u, fs₃, hm, h₃⟩ := bind_eq_ok.1 he
    obtain ⟨hputs, hadmits'⟩ := admits_child (hadmits.after hfills) (hplain name hname) hm
    obtain ⟨m, fs₄, hc, -⟩ := bind_eq_ok.1 h₃
    have hfrom' := (leads_of_copied hfrom (hplain name hname)
      (hfills.grows.trans hputs.fills.grows) hinner hc).1
    have hsplit : origin ++ name :: rest ++ [name] = origin ++ [name] ++ (rest ++ [name]) := by simp
    rw [hsplit] at hadmits'
    exact ih (by simp) hfrom' hadmits' hc

end Itself

/-! ## To a name in a directory -/

/-- Everything at the source is in the copy, and what was at the target and is not at the source is
there still. -/
structure Lands (source target : Location) (fs fs' : FileSystem) : Prop where
  fills : Fills target fs fs'
  node : ∀ rest, fs'.node? (target ++ rest) =
    (fs'.shown (source ++ rest)).or (fs.node? (target ++ rest))
  whole : ∀ rest, (fs'.node? (source ++ rest)).isSome → (fs'.shown (source ++ rest)).isSome

section Below

variable {base : Path} {b loc : Location} {init : List String} {last : String}

/-- The way to a name in a directory that is there. -/
theorem walk_above (hplain : ∀ name ∈ init ++ [last], Path.IsPlain name)
    (hdir : fs.Leads (base.join (.ofComponents init)) (b ++ init)) :
    (base.join (.ofComponents (init ++ [last]))).segments = (base.segments ++ init) ++ [last] ∧
      fs.walk .look linkLimit [] (base.segments ++ init) = .ok (.there (b ++ init)) := by
  have hinit : ∀ name ∈ init, Path.IsPlain name := fun n hn =>
    hplain n (List.mem_append_left _ hn)
  rw [Leads, Path.segments_join (Path.isAbsolute_ofComponents hinit),
    Path.segments_ofComponents hinit] at hdir
  refine ⟨?_, hdir⟩
  rw [Path.segments_join (Path.isAbsolute_ofComponents hplain), Path.segments_ofComponents hplain,
    List.append_assoc]

/-- Making the directory of a name makes nothing else. -/
theorem puts_mkdirAll (hl : fs.Leads base b)
    (hfree : fs.LinkFree b) (hplain : ∀ name ∈ init ++ [last], Path.IsPlain name)
    (hdir : fs.Leads (base.join (.ofComponents init)) (b ++ init))
    (hstands : fs.node? (b ++ init) = some .dir)
    (hm : mkdirAll (base.join (.ofComponents (init ++ [last]))) fs = .ok () fs') :
    fs'.Leads (base.join (.ofComponents (init ++ [last]))) (b ++ init ++ [last]) ∧
      Puts (b ++ init) last .dir fs fs' ∧ Reachable base (init ++ [last]) := by
  have hadds := Keeps.ok (addsDirs_mkdirAll _) hm
  have hfree' := hadds.linkFree hfree
  obtain ⟨loc, hs⟩ := isDir_iff.1
    (isDir_of_ensureChain (Path.join_ofComponents_ne_empty hplain (by simp)) hm)
  obtain ⟨hleads, hmade, -⟩ := leads_of_status hs
  obtain ⟨hreach, rfl⟩ := loc_of_status (hl.mono hadds.old.grows) hfree' hplain (by simp) hs
  rw [← List.append_assoc] at hleads hmade
  obtain ⟨hsegs, hw⟩ := walk_above hplain hdir
  have hsolid : ∀ t, fs.node? (b ++ init ++ [last]) ≠ some (.link t) := by
    rw [List.append_assoc]
    exact hfree (init ++ [last])
  exact ⟨hleads, hadds.puts_last hsegs hw hstands (hplain last (by simp)) hsolid hmade, hreach⟩

theorem lands_dir (hl : fs.Leads base b) (hfree : fs.LinkFree b) (hnamed : fs.Named)
    (hplain : ∀ name ∈ init ++ [last], Path.IsPlain name)
    (hdir : fs.Leads (base.join (.ofComponents init)) (b ++ init))
    (hstands : fs.node? (b ++ init) = some .dir) (hs : fs.status source = .ok (loc, .dir))
    (hout : ¬b <+: loc) (hlinks : fs'.LeadsOut loc (b ++ init ++ [last]))
    (h : copyTree source (base.join (.ofComponents (init ++ [last]))) order fs = .ok n fs') :
    Lands loc (b ++ init ++ [last]) fs fs' ∧ Reachable base (init ++ [last]) := by
  obtain ⟨fs₁, hm, hfrom, hc⟩ := copyTree_dir hs h
  obtain ⟨hleads, hputs, hreach⟩ := puts_mkdirAll hl hfree hplain hdir hstands hm
  have hb : b <+: b ++ init ++ [last] := by
    rw [List.append_assoc]
    exact List.prefix_append ..
  have hfree₁ : fs₁.LinkFree (b ++ init ++ [last]) := by
    rw [List.append_assoc]
    exact (hputs.fills.linkFree hfree).below _
  have hadmits : fs₁.Admits (base.join (.ofComponents (init ++ [last]))) (b ++ init ++ [last]) :=
    ⟨hleads, hputs.here, hfree₁, hputs.fills.names hnamed⟩
  have hapart : Apart loc (b ++ init ++ [last]) := by
    refine ⟨fun hp => ?_, fun hp => hout (hb.trans hp)⟩
    obtain ⟨d, hd⟩ := hp
    have hne : d ≠ [] := by
      rintro rfl
      rw [List.append_nil] at hd
      exact hout (hd ▸ hb)
    rw [← hd] at hadmits
    exact copyLevel_into hne hfrom hadmits hc
  have hlevel : Fills (b ++ init ++ [last]) fs₁ fs' :=
    Keeps.ok (fills_copyLevel order _ _ _ _) hc hadmits
  have hfills := hputs.fills.trans hlevel
  have hshows := shows_copyLevel hfrom hadmits (List.prefix_refl _) hapart.outside (.refl _ fs')
    hlinks hc
  have hsource : fs'.shown loc = some .dir := by
    have hn := hfills.grows.dir (leads_of_status hs).2.1
    rw [shown_eq (by simp [hn]), hn]
  refine ⟨⟨hfills, fun rest => ?_, fun rest hsome => ?_⟩, hreach⟩
  · by_cases hrest : rest = []
    · subst hrest
      rw [List.append_nil, List.append_nil, hsource, Option.some_or]
      exact hlevel.grows.dir hputs.here
    · rw [(hshows rest hrest).node]
      have hbelow := hputs.below hrest
      rw [List.append_assoc _ [last], List.singleton_append, hbelow]
  · by_cases hrest : rest = []
    · subst hrest
      rw [List.append_nil, hsource]
      rfl
    · exact (hshows rest hrest).whole hsome

/-- A path that goes on to a name from a directory without links leads to that name there. -/
theorem isAt_of_resolve {why : Purpose} {place : Place} (hl : fs.Leads base b)
    (hfree : fs.LinkFree b) (hplain : ∀ name ∈ init ++ [last], Path.IsPlain name)
    (h : fs.resolve (base.join (.ofComponents (init ++ [last]))) why = .ok place) :
    Reachable base (init ++ [last]) ∧ fs.IsAt (b ++ init) last place := by
  obtain ⟨hreach, hat⟩ := place_of_resolve hl hfree hplain (by simp) h
  refine ⟨hreach, ?_⟩
  rw [← List.append_assoc] at hat
  rcases hat with hat | ⟨init', last', hnames, hp, hn⟩
  · exact Or.inl hat
  · obtain ⟨rfl, hlast⟩ := List.append_inj' hnames rfl
    cases hlast
    exact Or.inr ⟨hp, hn⟩

theorem lands_file {node : Node} (hl : fs.Leads base b) (hfree : fs.LinkFree b)
    (hplain : ∀ name ∈ init ++ [last], Path.IsPlain name)
    (hdir : fs.Leads (base.join (.ofComponents init)) (b ++ init))
    (hstands : fs.node? (b ++ init) = some .dir) (hs : fs.status source = .ok (loc, node))
    (hnode : node ≠ .dir) (hout : ¬b <+: loc)
    (h : copyTree source (base.join (.ofComponents (init ++ [last]))) order fs = .ok n fs') :
    Lands loc (b ++ init ++ [last]) fs fs' ∧ Reachable base (init ++ [last]) := by
  obtain ⟨fs₁, hmade, hc⟩ := copyTree_file hs hnode h
  obtain ⟨hsegs, hw⟩ := walk_above hplain hdir
  have hsame : fs₁ = fs := by
    rcases hmade with rfl | ⟨above, habove, hm⟩
    · rfl
    -- the directories above the target are there
    have hadds := Keeps.ok (addsDirs_mkdirAll above) hm
    obtain ⟨more, hmore, hshort⟩ := Path.segments_of_ancestor habove
    refine hadds.eq_of_leads fun p hp => ?_
    have hlonger : ∃ more ≠ [], p.segments ++ more = base.segments ++ init ++ [last] := by
      rcases List.mem_cons.1 hp with rfl | hp
      · exact ⟨more, hmore, hshort.symm.trans hsegs⟩
      · obtain ⟨more', -, hshort'⟩ := Path.segments_of_ancestor hp
        refine ⟨more' ++ more, by simp [hmore], ?_⟩
        rw [← List.append_assoc, ← hshort', ← hshort, hsegs]
    obtain ⟨more, hmore, hlong⟩ := hlonger
    obtain ⟨l, hleads, hd⟩ := leads_of_shorter hmore hlong hw hstands
    exact ⟨l, hleads, by rw [hd]; rfl⟩
  subst hsame
  have hplace : ∀ now place, Fills (b ++ init ++ [last]) fs₁ now →
      now.resolve (base.join (.ofComponents (init ++ [last]))) .write = .ok place →
      Reachable base (init ++ [last]) ∧ now.IsAt (b ++ init) last place := fun now place hf hr =>
    isAt_of_resolve (hl.mono hf.grows) (hf.linkFree hfree) hplain hr
  obtain ⟨loc', content, hsource, ⟨place, htarget⟩, hputs⟩ := copyFile_puts hstands
    (hplain last (by simp)) (fun now place hf hr => (hplace now place hf hr).2) hc
  have hreach := (hplace fs₁ place (.refl _ fs₁) htarget).1
  obtain ⟨hself, hn, -⟩ := leads_of_status hsource
  obtain rfl : loc' = loc := hself.unique (leads_of_status hs).1
  have hb : b <+: b ++ init ++ [last] := by
    rw [List.append_assoc]
    exact List.prefix_append ..
  have hne : loc' ≠ b ++ init ++ [last] := by
    rintro rfl
    exact hout hb
  rw [if_neg hne] at hputs
  have hn' : fs'.node? loc' = some (.file content) := by rw [hputs.nodes, if_neg hne, hn]
  have hshown : fs'.shown loc' = some (.file content) := by rw [shown_eq (by simp [hn']), hn']
  have hbelow : ∀ rest ≠ [], fs'.node? (loc' ++ rest) = none := fun rest =>
    node?_below (by simp [hn'])
  refine ⟨⟨hputs.fills, fun rest => ?_, fun rest hsome => ?_⟩, hreach⟩
  · by_cases hrest : rest = []
    · subst hrest
      rw [List.append_nil, List.append_nil, hshown, Option.some_or, hputs.here]
    · have hsame := hputs.below hrest
      rw [shown_none (hbelow rest hrest), Option.none_or, List.append_assoc _ [last],
        List.singleton_append, hsame]
  · by_cases hrest : rest = []
    · subst hrest
      rw [List.append_nil, hshown]
      rfl
    · simp [hbelow rest hrest] at hsome

/-- What is outside a base directory is copied to a name in it. -/
theorem lands_copyTree {node : Node} (hl : fs.Leads base b) (hfree : fs.LinkFree b)
    (hnamed : fs.Named) (hplain : ∀ name ∈ init ++ [last], Path.IsPlain name)
    (hdir : fs.Leads (base.join (.ofComponents init)) (b ++ init))
    (hstands : fs.node? (b ++ init) = some .dir) (hs : fs.status source = .ok (loc, node))
    (hout : ¬b <+: loc) (hlinks : fs'.LeadsOut loc (b ++ init ++ [last]))
    (h : copyTree source (base.join (.ofComponents (init ++ [last]))) order fs = .ok n fs') :
    Lands loc (b ++ init ++ [last]) fs fs' ∧ Reachable base (init ++ [last]) := by
  by_cases hnode : node = .dir
  · subst hnode
    exact lands_dir hl hfree hnamed hplain hdir hstands hs hout hlinks h
  · exact lands_file hl hfree hplain hdir hstands hs hnode hout h

end Below

end FileM

end Depot
