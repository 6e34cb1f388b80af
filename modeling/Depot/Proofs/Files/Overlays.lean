import Depot.Proofs.Files.CopyCounts

/-! Copies over directories that hold something already. If nothing is to be written into the
source, nor through a link, then what the source holds is laid over what the target holds, and
nothing else changes. -/

namespace Depot

open Work

namespace FileSystem

variable {fs fs' : FileSystem} {source target more : Location} {name : String}

/-- A directory that another one can be copied over. No link stands where something of the source is
to be written, and nothing is written into the source. -/
structure Receives (fs : FileSystem) (source target : Location) : Prop where
  names : fs.Named
  origin : fs.node? source = some .dir
  stands : fs.node? target = some .dir
  free : fs.LinkFree source
  solid : ∀ rest t, (fs.node? (source ++ rest)).isSome → fs.node? (target ++ rest) ≠ some (.link t)
  apart : ∀ rest ≠ [], (fs.node? (source ++ rest)).isSome → ¬source <+: target ++ rest

/-- Two directories, of which the first can be copied over the second without loss. The second is
not the first, nor is it above the first if the way down leads on within the first; and no link of
the second has the place of something in the first. -/
structure Clear (fs : FileSystem) (source target : Location) : Prop where
  way : ∀ down, source = target ++ down → fs.node? (source ++ down) = none
  solid : ∀ rest t, (fs.node? (source ++ rest)).isSome → fs.node? (target ++ rest) ≠ some (.link t)

/-- What the source holds lies over what the target held, and nothing else has changed. -/
structure Overlays (source target : Location) (fs fs' : FileSystem) : Prop where
  inside : ∀ rest, fs'.node? (target ++ rest) =
    (fs.node? (source ++ rest)).or (fs.node? (target ++ rest))
  outside : ∀ loc, ¬target <+: loc → fs'.node? loc = fs.node? loc

/-- What has been copied of a source leaves the whole source as it was. -/
theorem Overlays.kept (h : Overlays (source ++ more) (target ++ more) fs fs')
    (hr : fs.Receives source target) (rest : Location) :
    fs'.node? (source ++ rest) = fs.node? (source ++ rest) := by
  by_cases hp : target ++ more <+: source ++ rest
  swap
  · exact h.outside _ hp
  obtain ⟨last, hlast⟩ := hp
  have hinside := h.inside last
  rw [List.append_assoc] at hlast
  rw [List.append_assoc, List.append_assoc, hlast] at hinside
  rw [hinside]
  by_cases hnil : more ++ last = []
  · -- the target is a directory of the source, and stays one
    rw [hnil, List.append_nil] at hlast ⊢
    rw [hr.origin, ← hlast, hr.stands, Option.some_or]
  · cases hn : fs.node? (source ++ (more ++ last)) with
    | none => rw [Option.none_or]
    | some node =>
      have hapart := hr.apart _ hnil (by rw [hn]; rfl)
      rw [hlast] at hapart
      exact absurd (List.prefix_append ..) hapart

/-- The other names can be copied still. -/
theorem Receives.after (hr : fs.Receives source target)
    (h : Overlays (source ++ [name]) (target ++ [name]) fs fs') (hnamed : fs'.Named) :
    fs'.Receives source target := by
  have hkept := h.kept hr
  refine ⟨hnamed, ?_, ?_, fun rest t => ?_, fun rest t hs => ?_, fun rest hrest hs => ?_⟩
  · have horigin := hkept []
    rw [List.append_nil] at horigin
    rw [horigin, hr.origin]
  · rw [h.outside target, hr.stands]
    intro hp
    have hlen := hp.length_le
    rw [List.length_append, List.length_singleton] at hlen
    omega
  · rw [hkept]
    exact hr.free rest t
  · rw [hkept] at hs
    by_cases hp : target ++ [name] <+: target ++ rest
    · obtain ⟨last, hlast⟩ := hp
      rw [List.append_assoc, List.append_cancel_left_eq] at hlast
      have hinside := h.inside last
      rw [List.append_assoc, List.append_assoc, hlast] at hinside
      obtain ⟨node, hn⟩ := Option.isSome_iff_exists.1 hs
      rw [hinside, hn, Option.some_or, ← hn]
      exact hr.free rest t
    · rw [h.outside _ hp]
      exact hr.solid rest t hs
  · rw [hkept] at hs
    exact hr.apart rest hrest hs

section Entered

variable {made : FileSystem} (hr : fs.Receives source target)
  (hdir : fs.node? (source ++ [name]) = some .dir) (hputs : Puts target name .dir fs made)
include hr hdir hputs

theorem Receives.kept (rest : Location) :
    made.node? (source ++ rest) = fs.node? (source ++ rest) := by
  rw [hputs.nodes, if_neg]
  intro he
  exact hr.apart [name] (by simp) (by rw [hdir]; rfl) (he ▸ List.prefix_append ..)

/-- A directory of the source can be copied to its name in the target once that is a directory. -/
theorem Receives.inner : made.Receives (source ++ [name]) (target ++ [name]) := by
  have hkept := hr.kept hdir hputs
  refine ⟨hputs.fills.names hr.names, ?_, hputs.here, fun rest t => ?_, fun rest t hs => ?_,
    fun rest hrest hs => ?_⟩
  · rw [hkept, hdir]
  · rw [List.append_assoc, hkept]
    exact hr.free _ t
  · rw [List.append_assoc, hkept] at hs
    rw [hputs.nodes]
    split
    · simp
    · rw [List.append_assoc]
      exact hr.solid _ t hs
  · rw [List.append_assoc, hkept] at hs
    rw [List.append_assoc]
    intro hp
    exact hr.apart _ (by simp) hs ((List.prefix_append ..).trans hp)

theorem Receives.entered (h : Overlays (source ++ [name]) (target ++ [name]) made fs') :
    Overlays (source ++ [name]) (target ++ [name]) fs fs' := by
  refine ⟨fun rest => ?_, fun loc hloc => ?_⟩
  · rw [h.inside]
    by_cases hrest : rest = []
    · subst hrest
      rw [List.append_nil, List.append_nil, hr.kept hdir hputs, hdir, Option.some_or,
        Option.some_or]
    · have hbelow := hputs.below hrest
      rw [List.append_assoc source, hr.kept hdir hputs, List.append_assoc target,
        List.singleton_append, hbelow]
  · rw [h.outside loc hloc, hputs.fills.outside loc hloc]

end Entered

end FileSystem

namespace FileM

open FileSystem

variable {fs fs' : FileSystem} {order : ListingOrder} {levels count n : Nat}
  {source target : Path} {origin dir : Location} {name : String}

/-- A file is laid over its name in the target. -/
theorem overlays_file (hr : fs.Receives origin dir) (hfrom : fs.Leads source origin)
    (hto : fs.Leads target dir) (hname : (fs.node? (origin ++ [name])).isSome)
    (hdir : fs.node? (origin ++ [name]) ≠ some .dir)
    (h : fs.copyFile (source.child name) (target.child name) = .ok fs') :
    Overlays (origin ++ [name]) (dir ++ [name]) fs fs' := by
  have hplain := hr.names origin name hname
  obtain ⟨loc, content, hs, -, hputs⟩ := copyFile_puts hr.stands hplain
    (fun now place hf hp => isAt_child (hto.mono hf.grows) hplain
      (fun t ht => hr.solid [name] t hname (hf.links _ t ht)) hp) h
  have hn := (leads_of_status hs).2.1
  have hat := isAt_child hfrom hplain (hr.free [name]) (resolve_of_status hs)
  have hloc : loc = origin ++ [name] := by
    rcases hat with ⟨hp, -⟩ | ⟨hp, -⟩
    · cases hp
      rfl
    · cases hp
  subst hloc
  have hne : origin ++ [name] ≠ dir ++ [name] := fun he =>
    hr.apart [name] (by simp) hname (he ▸ List.prefix_append ..)
  rw [if_neg hne] at hputs
  refine ⟨fun rest => ?_, fun loc hloc => hputs.fills.outside loc hloc⟩
  by_cases hrest : rest = []
  · subst hrest
    rw [List.append_nil, List.append_nil, hputs.here, hn, Option.some_or]
  · have hbelow := hputs.below hrest
    rw [node?_below hdir hrest, Option.none_or, List.append_assoc, List.singleton_append, hbelow]

/-- Each name is laid over its name in the target. -/
theorem overlays_copyEntry
    (ih : ∀ {n source target origin dir fs fs'}, fs.Receives origin dir →
      fs.Leads source origin → fs.Leads target dir →
      copyLevel order levels source target fs = .ok n fs' → Overlays origin dir fs fs')
    (hr : fs.Receives origin dir) (hfrom : fs.Leads source origin) (hto : fs.Leads target dir)
    (hname : (fs.node? (origin ++ [name])).isSome)
    (h : copyEntry (copyLevel order levels) source target origin count name fs = .ok n fs') :
    Overlays (origin ++ [name]) (dir ++ [name]) fs fs' := by
  have hplain := hr.names origin name hname
  rw [copyEntry_apply] at h
  split at h
  · next hdir =>
    obtain ⟨u, made, hm, h₁⟩ := bind_eq_ok.1 h
    obtain ⟨hputs, hto'⟩ := puts_child hto hr.stands hplain (fun t => hr.solid [name] t hname) hm
    obtain ⟨k, _, hcopy, hp⟩ := bind_eq_ok.1 h₁
    cases hp
    have hfrom' := (leads_of_copied hfrom hplain hputs.fills.grows hdir hcopy).1
    exact hr.entered hdir hputs (ih (hr.inner hdir hputs) hfrom' hto' hcopy)
  · next hdir =>
    obtain ⟨_, _, hchange, hp⟩ := bind_eq_ok.1 h
    cases hp
    exact overlays_file hr hfrom hto hname hdir (change_eq_ok.1 hchange)

/-- The names copied so far are laid over the target, the others are yet to come. -/
theorem overlays_names {names : List String}
    (hentry : ∀ {name count n fs fs'}, fs.Receives origin dir → fs.Leads source origin →
      fs.Leads target dir → (fs.node? (origin ++ [name])).isSome →
      copyEntry (copyLevel order levels) source target origin count name fs = .ok n fs' →
      Overlays (origin ++ [name]) (dir ++ [name]) fs fs')
    (hr : fs.Receives origin dir) (hfrom : fs.Leads source origin) (hto : fs.Leads target dir)
    (hnames : ∀ name ∈ names, (fs.node? (origin ++ [name])).isSome)
    (h : names.foldlM (copyEntry (copyLevel order levels) source target origin) count fs =
      .ok n fs') :
    (∀ name rest, fs'.node? (dir ++ name :: rest) =
      if name ∈ names then
        (fs.node? (origin ++ name :: rest)).or (fs.node? (dir ++ name :: rest))
      else fs.node? (dir ++ name :: rest)) ∧
    ∀ loc, (∀ name ∈ names, ¬dir ++ [name] <+: loc) → fs'.node? loc = fs.node? loc := by
  induction names generalizing fs count with
  | nil =>
    cases h
    simp
  | cons first names ih =>
    obtain ⟨k, fs₁, hfirst, hrest⟩ := bind_eq_ok.1 h
    have hsome := hnames first (List.mem_cons_self ..)
    have hoverlays := hentry hr hfrom hto hsome hfirst
    have hbuilds : Builds fs fs₁ := Keeps.ok (building_copyEntry
      (building_copyLevel order levels) source target origin count first) hfirst hr.names
    have hkept := hoverlays.kept hr
    obtain ⟨hinside, houtside⟩ := ih (hr.after hoverlays hbuilds.names)
      (hfrom.mono hbuilds.grows) (hto.mono hbuilds.grows)
      (fun name hm => by rw [hkept]; exact hnames name (List.mem_cons_of_mem _ hm)) hrest
    refine ⟨fun name rest => ?_, fun loc hloc => ?_⟩
    · rw [hinside, hkept]
      by_cases he : name = first
      · subst he
        have hnow := hoverlays.inside rest
        rw [List.append_assoc, List.append_assoc, List.singleton_append] at hnow
        rw [hnow, if_pos (List.mem_cons_self ..)]
        split
        · cases fs.node? (origin ++ name :: rest) <;> rfl
        · rfl
      · have hsame : fs₁.node? (dir ++ name :: rest) = fs.node? (dir ++ name :: rest) := by
          apply hoverlays.outside
          simp [List.prefix_append_right_inj, List.cons_prefix_cons, Ne.symm he]
        simp only [List.mem_cons, he, false_or, hsame]
    · obtain ⟨hlast, hloc⟩ := List.forall_mem_cons.1 hloc
      rw [houtside loc hloc, hoverlays.outside loc hlast]

/-- A directory that has been copied lies over the other. -/
theorem overlays_copyLevel (hr : fs.Receives origin dir) (hfrom : fs.Leads source origin)
    (hto : fs.Leads target dir) (h : copyLevel order levels source target fs = .ok n fs') :
    Overlays origin dir fs fs' := by
  induction levels generalizing source target origin dir fs fs' n with
  | zero => cases h
  | succ levels ih =>
    obtain ⟨_, origin', hlevels, hstatus, h⟩ := copyLevel_ok h
    cases hlevels
    cases hfrom.unique (leads_of_status hstatus).1
    have hmem : ∀ name, name ∈ order.arrange origin (fs.children origin) ↔
        (fs.node? (origin ++ [name])).isSome := fun name =>
      (order.perm origin (fs.children origin)).mem_iff.trans mem_children
    obtain ⟨hinside, houtside⟩ := overlays_names
      (fun hr hfrom hto hname he => overlays_copyEntry ih hr hfrom hto hname he) hr hfrom hto
      (fun name hm => (hmem name).1 hm) h
    have hsome : ∀ name rest, (fs.node? (origin ++ name :: rest)).isSome →
        name ∈ order.arrange origin (fs.children origin) := by
      intro name rest hs
      have hsplit : origin ++ name :: rest = origin ++ [name] ++ rest := by simp
      rw [hmem]
      rw [hsplit] at hs
      by_cases hrest : rest = []
      · rwa [hrest, List.append_nil] at hs
      · rw [node?_above hrest hs]
        rfl
    refine ⟨fun rest => ?_, fun loc hloc => ?_⟩
    · cases rest with
      | nil =>
        rw [List.append_nil, List.append_nil, hr.origin, Option.some_or]
        rw [houtside dir, hr.stands]
        intro name _ hp
        have hlen := hp.length_le
        rw [List.length_append, List.length_singleton] at hlen
        omega
      | cons name rest =>
        rw [hinside]
        split
        · rfl
        · next hnot =>
          cases hn : fs.node? (origin ++ name :: rest) with
          | none => rw [Option.none_or]
          | some node => exact absurd (hsome name rest (by rw [hn]; rfl)) hnot
    · exact houtside loc fun name _ hp => hloc ((List.prefix_append ..).trans hp)

/-! ## Over any directory -/

section Trees

/-- Nothing is copied into the source itself. Below it, the copying would not have ended. -/
theorem receives_of_copyTree (hs : fs.status source = .ok (origin, .dir))
    (ht : fs.status target = .ok (dir, .dir)) (hfree : fs.LinkFree origin) (hnamed : fs.Named)
    (hclear : fs.Clear origin dir) (h : copyTree source target order fs = .ok n fs') :
    fs.Receives origin dir ∧ copyLevel order (longestPath + 1) source target fs = .ok n fs' := by
  obtain ⟨fs₁, hm, hfrom, hc⟩ := copyTree_dir hs h
  rw [mkdirAll_of_isDir (isDir_iff.2 ⟨dir, ht⟩)] at hm
  cases hm
  obtain ⟨hto, hstands, -⟩ := leads_of_status ht
  refine ⟨⟨hnamed, (leads_of_status hs).2.1, hstands, hfree, hclear.solid, ?_⟩, hc⟩
  rintro rest hrest hsome ⟨more, hmore⟩
  rcases List.append_eq_append_iff.1 hmore with ⟨down, rfl, -⟩ | ⟨down, rfl, rfl⟩
  · by_cases hnil : down = []
    · subst hnil
      have hnone := hclear.way [] (by simp)
      rw [List.append_nil] at hnone hstands
      rw [hstands] at hnone
      cases hnone
    · exact copyLevel_into hnil hfrom ⟨hto, hstands, hfree.below down, hnamed⟩ hc
  · have hnone := node?_append_of_none (hclear.way down rfl) more
    rw [List.append_assoc] at hnone
    rw [hnone] at hsome
    cases hsome

/-- One directory lies over the other, and all of it could be named behind both paths. -/
theorem overlays_copyTree (hs : fs.status source = .ok (origin, .dir))
    (ht : fs.status target = .ok (dir, .dir)) (hfree : fs.LinkFree origin) (hnamed : fs.Named)
    (hclear : fs.Clear origin dir) (h : copyTree source target order fs = .ok n fs') :
    Overlays origin dir fs fs' ∧
      (∀ rest, fs'.node? (origin ++ rest) = fs.node? (origin ++ rest)) ∧
      ∀ rest ≠ [], (fs.node? (origin ++ rest)).isSome →
        Reachable source rest ∧ Reachable target rest := by
  obtain ⟨hr, hc⟩ := receives_of_copyTree hs ht hfree hnamed hclear h
  have hfrom := (leads_of_status hs).1
  have hoverlays := overlays_copyLevel hr hfrom (leads_of_status ht).1 hc
  refine ⟨hoverlays, ?_, fun rest hrest hsome => reachable_of_copied hfrom hnamed hsome hrest hc⟩
  rw [← List.append_nil origin, ← List.append_nil dir] at hoverlays
  exact hoverlays.kept hr

end Trees

end FileM

end Depot
