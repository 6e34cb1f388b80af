import Depot.Proofs.Files.Trees

/-! Changes that stay in one directory. What is made on the way to a name in it and what is copied
to it leaves everything outside as it was. -/

namespace Depot

open Work

namespace FileSystem

variable {fs fs' : FileSystem}

/-! ## A name in a directory -/

/-- A path that goes on with a plain name names a directory of that name. -/
theorem lstatus_child {root : Path} {name : String} {place : Location}
    (hplain : Path.IsPlain name) : fs.lstatus (root.child name) = .ok (place, .dir) ↔
      Reachable root [name] ∧
        ∃ dir, fs.Leads root dir ∧ place = dir ++ [name] ∧ fs.node? place = some .dir := by
  have hsegs := root.segments_child hplain
  have hslash := root.endsWithSlash_child hplain
  rw [lstatus, hslash, if_neg Bool.false_ne_true, except_bind_eq_ok]
  simp only [found_eq_ok]
  constructor
  · rintro ⟨_, he, rfl, hn⟩
    obtain ⟨hf, dir, hw, -, rfl, hsought⟩ := entry_there hsegs hplain he
    refine ⟨⟨by rwa [← Path.child_eq], ?_⟩, dir, hw, rfl, hn⟩
    simpa using hsought.short
  · rintro ⟨hreach, dir, hw, rfl, hn⟩
    have hf : pathFault? (root.child name) = none := by
      rw [Path.child_eq]
      exact hreach.1
    have hsplit : (root.child name).split? = some (root.segments, name) := by
      simp [Path.split?, hsegs]
    have hsought : Sought .look name [] :=
      sought_of_plain hplain (hreach.2 name (by simp)) List.not_mem_nil
    have hdir : fs.node? dir = some .dir :=
      node?_above (List.cons_ne_nil name []) (by rw [hn]; rfl)
    refine ⟨.there (dir ++ [name]), ?_, rfl, hn⟩
    rw [Leads] at hw
    simp only [entry, hf, hsplit, hw, walkNames]
    rw [if_neg (not_not.2 hdir), if_neg hsought.moves, if_neg hsought.down, if_neg hsought.allowed,
      if_neg hsought.short, hn]

theorem status_of_lstatus {root : Path} {name : String} {place : Location}
    (hplain : Path.IsPlain name) (h : fs.lstatus (root.child name) = .ok (place, .dir)) :
    fs.status (root.child name) = .ok (place, .dir) := by
  obtain ⟨hreach, dir, hl, rfl, hn⟩ := (lstatus_child hplain).1 h
  rw [Path.child_eq]
  exact status_of_reachable hl (by simpa using hplain) (by simp) hreach hn (by simp)

theorem lstatus_of_status {root : Path} {name : String} {dir : Location}
    (hplain : Path.IsPlain name) (hl : fs.Leads root dir)
    (h : fs.status (root.child name) = .ok (dir ++ [name], .dir)) :
    fs.lstatus (root.child name) = .ok (dir ++ [name], .dir) :=
  (lstatus_child hplain).2 ⟨reachable_of_isDir hplain (isDir_iff.2 ⟨_, h⟩), dir, hl, rfl,
    (leads_of_status h).2.1⟩

theorem lstatus_child_grows {root : Path} {name : String} {place : Location}
    (hplain : Path.IsPlain name) (hg : Grows fs fs')
    (h : fs.lstatus (root.child name) = .ok (place, .dir)) :
    fs'.lstatus (root.child name) = .ok (place, .dir) := by
  obtain ⟨hreach, dir, hl, hplace, hn⟩ := (lstatus_child hplain).1 h
  exact (lstatus_child hplain).2 ⟨hreach, dir, hl.mono hg, hplace, hg.dir hn⟩

/-- Neither of two directories in a root is in the other. -/
theorem name_of_prefix {root : Path} {name name' : String} {place place' rest : Location}
    (hplain : Path.IsPlain name) (hplain' : Path.IsPlain name')
    (h : fs.lstatus (root.child name) = .ok (place, .dir))
    (h' : fs.lstatus (root.child name') = .ok (place', .dir)) (hp : place' <+: place ++ rest) :
    name' = name := by
  obtain ⟨-, dir, hl, rfl, -⟩ := (lstatus_child hplain).1 h
  obtain ⟨-, dir', hl', rfl, -⟩ := (lstatus_child hplain').1 h'
  cases hl.unique hl'
  rw [List.append_assoc, List.prefix_append_right_inj, List.singleton_append,
    List.cons_prefix_cons] at hp
  exact hp.1

/-! ## On the way -/

/-- The paths that lead to a place on the way to some names behind another path. -/
def OnWay (base : Path) (names : List String) (p : Path) : Prop :=
  ∃ more, p.segments ++ more = base.segments ++ names

theorem onWay_join {base : Path} {names : List String}
    (hplain : ∀ name ∈ names, Path.IsPlain name) :
    OnWay base names (base.join (.ofComponents names)) :=
  ⟨[], by rw [List.append_nil, Path.segments_join (Path.isAbsolute_ofComponents hplain),
    Path.segments_ofComponents hplain]⟩

theorem OnWay.ancestor {base p q : Path} {names : List String} (h : OnWay base names p)
    (hq : q ∈ p.ancestors) : OnWay base names q := by
  obtain ⟨more, hmore⟩ := h
  obtain ⟨rest, -, hrest⟩ := Path.segments_of_ancestor hq
  exact ⟨rest ++ more, by rw [← List.append_assoc, ← hrest, hmore]⟩

theorem OnWay.made {base p q : Path} {names : List String} (h : OnWay base names p)
    (hq : q ∈ p :: p.ancestors) : OnWay base names q := by
  rcases List.mem_cons.1 hq with rfl | hq
  · exact h
  · exact h.ancestor hq

section Way

variable {base : Path} {b : Location} {names : List String} {paths : List Path}

/-- What is new on the way to a name below a base directory is on the way behind that. -/
theorem AddsDirs.on_way (hadds : AddsDirs paths fs fs')
    (hway : ∀ p ∈ paths, OnWay base names p) (hl : fs.Leads base b)
    (hdir : fs.node? b = some .dir) (hfree : fs.LinkFree b)
    (hplain : ∀ name ∈ names, Path.IsPlain name) {loc : Location} (hn : fs.node? loc = none)
    (hs : (fs'.node? loc).isSome) : ∃ init, init <+: names ∧ loc = b ++ init := by
  obtain ⟨-, p, hp, hleads⟩ := hadds.new loc hn hs
  obtain ⟨more, hmore⟩ := hway p hp
  rcases List.append_eq_append_iff.1 hmore with ⟨rest, hrest, -⟩ | ⟨init, hinit, hnames⟩
  · -- the path ends on the way to the base directory, which is there
    have hthere : ∃ mid, fs.Leads p mid ∧ fs.node? mid = some .dir := by
      by_cases hnil : rest = []
      · subst hnil
        rw [List.append_nil] at hrest
        exact ⟨b, by rw [Leads, ← hrest]; exact hl, hdir⟩
      · rw [Leads, hrest] at hl
        exact walk_prefix hnil hl
    obtain ⟨mid, hmid, hd⟩ := hthere
    cases hleads.unique (hmid.mono hadds.old.grows)
    rw [hd] at hn
    cases hn
  · have hplain' : ∀ name ∈ init, Path.IsPlain name := fun name hm =>
      hplain name (by rw [hnames]; exact List.mem_append_left _ hm)
    obtain ⟨left, -, hw⟩ := walk_append init (Or.inl rfl) (hl.mono hadds.old.grows)
    rw [Leads, hinit, hw] at hleads
    refine ⟨init, ⟨more, hnames.symm⟩, ?_⟩
    rcases walk_plain hplain' (hadds.linkFree hfree) hleads with ⟨hplace, -⟩ | ⟨_, _, _, hplace, -⟩
    · cases hplace
      rfl
    · cases hplace

theorem AddsDirs.fills (hadds : AddsDirs paths fs fs') (hway : ∀ p ∈ paths, OnWay base names p)
    (hl : fs.Leads base b) (hfill : fs.Fillable b)
    (hplain : ∀ name ∈ names, Path.IsPlain name) : Fills b fs fs' where
  outside loc hloc := by
    cases hn : fs.node? loc with
    | some node => exact hadds.old loc node hn
    | none =>
      cases hn' : fs'.node? loc with
      | none => rfl
      | some node =>
        obtain ⟨init, -, rfl⟩ := hadds.on_way hway hl hfill.stands hfill.free hplain hn
          (by rw [hn']; rfl)
        exact absurd (List.prefix_append ..) hloc
  grows := hadds.old.grows
  links := hadds.links
  names := hadds.names

/-- A directory that is there is not made, and nothing else is. -/
theorem AddsDirs.eq_of_there {p : Path} (hadds : AddsDirs (p :: p.ancestors) fs fs')
    (hl : fs.Leads p b) (hdir : fs.node? b = some .dir) : fs' = fs := by
  refine hadds.eq_of_leads fun q hq => ?_
  rcases List.mem_cons.1 hq with rfl | hq
  · exact ⟨b, hl, by rw [hdir]; rfl⟩
  · obtain ⟨more, hmore, hsegs⟩ := Path.segments_of_ancestor hq
    rw [Leads, hsegs] at hl
    obtain ⟨mid, hmid, hd⟩ := walk_prefix hmore hl
    exact ⟨mid, hmid, by rw [hd]; rfl⟩

end Way

/-- A walk for writing that gets somewhere gets there for looking too. -/
theorem walk_look {links : Nat} {here : Location} {names : List String} {place : Place}
    (h : fs.walk .write links here names = .ok place) :
    fs.walk .look links here names = .ok place := by
  have hlook : ∀ {name : String} {rest : List String}, Sought .write name rest →
      Sought .look name rest := fun hs => ⟨hs.moves, hs.down, by simp, hs.short⟩
  induction links using Nat.strongRecOn generalizing here names with
  | ind links ihlinks =>
  induction names generalizing here with
  | nil => simpa using h
  | cons name rest ih =>
    obtain ⟨hdir, hstep⟩ := step_of_ok h
    cases hstep with
    | idle hidle hw =>
      rw [walk_idle hdir hidle]
      exact ih hw
    | up hup hw =>
      subst hup
      rw [walk_up hdir]
      exact ih hw
    | free hs hn hrest hplace =>
      rw [walk_sought hdir (hlook hs), hn, if_pos hrest, hplace]
    | link hs hn hlinks hw =>
      subst hlinks
      rw [walk_link hdir (hlook hs) hn]
      exact ihlinks _ (Nat.lt_succ_self _) hw
    | down hs hn hl hw =>
      rw [walk_down hdir (hlook hs) hn hl]
      exact ih hw

/-- A directory is not opened for writing. -/
theorem copyFile_of_dir {source target : Path} {place : Location}
    (h : fs.status target = .ok (place, .dir)) : fs.copyFile source target ≠ .ok fs' := by
  intro hc
  obtain ⟨hf, hw, hn⟩ := status_eq_ok.1 h
  obtain ⟨_, _, opened, -, ho, -⟩ := copyFile_opens hc
  obtain ⟨place', ht, ho⟩ := except_bind_eq_ok.1 ho
  rw [resolve_eq hf] at ht
  have hlook := walk_look ht
  rw [hw] at hlook
  cases hlook
  simp [fill, hn] at ho

end FileSystem

namespace FileM

open FileSystem

variable {fs fs' : FileSystem} {order : ListingOrder} {source target base : Path} {b : Location}

/-! ## Making directories -/

theorem fills_mkdirAll {names : List String} {p : Path} (hway : OnWay base names p)
    (hl : fs.Leads base b) (hfill : fs.Fillable b) (hplain : ∀ name ∈ names, Path.IsPlain name) :
    Fills b fs (left (mkdirAll p fs)) :=
  (addsDirs_mkdirAll p fs).fills (fun _ hq => hway.made hq) hl hfill hplain

theorem fills_ensureShard {names : List String} (hl : fs.Leads base b) (hfill : fs.Fillable b)
    (hplain : ∀ name ∈ names, Path.IsPlain name) :
    Fills b fs (left (ensureShard (base.join (.ofComponents names)) fs)) :=
  (addsDirs_ensureShard _ fs).fills (fun _ hq => (onWay_join hplain).made hq) hl hfill hplain

/-! ## Copying -/

/-- What is copied stays in a directory if the way to the target does, and what is then written. -/
theorem fills_copyTree {names : List String} (hway : OnWay base names target)
    (hl : fs.Leads base b) (hfill : fs.Fillable b) (hplain : ∀ name ∈ names, Path.IsPlain name)
    (hdir : ∀ made, Fills b fs made → mkdirAll target fs = .ok () made →
      ∃ rest, made.Leads target (b ++ rest) ∧ made.node? (b ++ rest) = some .dir)
    (hfile : ∀ made written, Fills b fs made → made.copyFile source target = .ok written →
      Fills b made written) : Fills b fs (left (copyTree source target order fs)) := by
  have hmade : ∀ {p}, p ∈ target :: target.ancestors → ∀ {r}, mkdirAll p fs = r →
      Fills b fs (left r) := by
    rintro p hp _ rfl
    exact fills_mkdirAll (hway.made hp) hl hfill hplain
  have hcase := copyStart source target order fs
  generalize copyTree source target order fs = result at hcase
  cases hcase with
  | missing => exact .refl b fs
  | unmade hp hm => exact hmade hp hm
  | @dir loc made _ hm =>
    have hfills : Fills b fs made := hmade (List.mem_cons_self ..) hm
    obtain ⟨rest, hleads, hstands⟩ := hdir made hfills hm
    refine hfills.trans (Fills.widen ?_ (List.prefix_append b rest))
    exact fills_copyLevel order _ _ _ _ made ⟨hleads, (hfill.after hfills).inner hstands⟩
  | @file loc node made _ _ hbegun =>
    have hfills : Fills b fs made := by
      rcases hbegun with rfl | ⟨above, habove, hm⟩
      · exact .refl b _
      · exact hmade (List.mem_cons_of_mem _ habove) hm
    rw [left_answer, left_change]
    split
    · next hc => exact hfills.trans (hfile made _ hfills hc)
    · exact hfills

/-- A directory that is there is filled, or nothing comes of it. -/
theorem fills_onto (order : ListingOrder) (source : Path) (ht : fs.status target = .ok (b, .dir))
    (hfill : fs.Fillable b) : Fills b fs (left (copyTree source target order fs)) := by
  have hway : OnWay target [] target := ⟨[], rfl⟩
  refine fills_copyTree hway (leads_of_status ht).1 hfill (by simp) ?_ ?_
  · intro made hfills _
    refine ⟨[], ?_, ?_⟩
    · rw [List.append_nil]
      exact (leads_of_status ht).1.mono hfills.grows
    · rw [List.append_nil]
      exact hfills.grows.dir hfill.stands
  · intro made written hfills hc
    exact absurd hc (copyFile_of_dir (status_dir_grows ht hfills.grows))

/-- What is copied to a name in a directory without links stays in that directory. -/
theorem fills_below {init : List String} {last : String} (order : ListingOrder) (source : Path)
    (hl : fs.Leads base b) (hfill : fs.Fillable b)
    (hplain : ∀ name ∈ init ++ [last], Path.IsPlain name)
    (hstands : fs.node? (b ++ init) = some .dir) : Fills b fs
      (left (copyTree source (base.join (.ofComponents (init ++ [last]))) order fs)) := by
  refine fills_copyTree (onWay_join hplain) hl hfill hplain ?_ ?_
  · intro made hfills hm
    obtain ⟨loc, hs⟩ := isDir_iff.1
      (isDir_of_ensureChain (Path.join_ofComponents_ne_empty hplain (by simp)) hm)
    obtain ⟨hleads, hmade, -⟩ := leads_of_status hs
    obtain ⟨-, rfl⟩ := loc_of_status (hl.mono hfills.grows) (hfills.linkFree hfill.free) hplain
      (by simp) hs
    exact ⟨_, hleads, hmade⟩
  · intro made written hfills hc
    have hplace : ∀ now place, Fills (b ++ init ++ [last]) made now →
        now.resolve (base.join (.ofComponents (init ++ [last]))) .write = .ok place →
        now.IsAt (b ++ init) last place := fun now place hf hr =>
      (isAt_of_resolve ((hl.mono hfills.grows).mono hf.grows)
        (hf.linkFree (hfills.linkFree hfill.free)) hplain hr).2
    obtain ⟨_, _, -, -, hputs⟩ := copyFile_puts (hfills.grows.dir hstands)
      (hplain last (by simp)) hplace hc
    refine hputs.fills.widen ?_
    rw [List.append_assoc]
    exact List.prefix_append ..

end FileM

end Depot
