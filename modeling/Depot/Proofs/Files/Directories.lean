import Depot.Files.Change
import Depot.Proofs.Files.Walks
import Depot.Proofs.Work

/-! Making directories. It adds directories on the way of the path and changes nothing else, whether
it succeeds or not. -/

namespace Depot

open Work

namespace FileSystem

variable {fs fs' : FileSystem} {why : Purpose}

/-! ## Where a path leads -/

/-- Where a path leads, whatever stands there. -/
def Leads (fs : FileSystem) (p : Path) (loc : Location) : Prop :=
  fs.walk .look linkLimit [] p.segments = .ok (.there loc)

theorem Leads.mono {p : Path} {loc : Location} (h : fs.Leads p loc) (hg : Grows fs fs') :
    fs'.Leads p loc := walk_mono hg h

theorem Leads.unique {p : Path} {loc loc' : Location} (h : fs.Leads p loc)
    (h' : fs.Leads p loc') : loc = loc' := by
  rw [Leads, h] at h'
  cases h'
  rfl

theorem found_eq_ok {place : Place} {loc : Location} {node : Node} :
    fs.found place = .ok (loc, node) ↔ place = .there loc ∧ fs.node? loc = some node := by
  cases place with
  | free dir name => simp [found]
  | there l =>
    simp only [found, Place.there.injEq]
    cases hn : fs.node? l with
    | none =>
      simp only [reduceCtorEq, false_iff, not_and]
      rintro rfl
      simp [hn]
    | some n =>
      simp only [Except.ok.injEq, Prod.mk.injEq]
      constructor
      · rintro ⟨rfl, rfl⟩
        exact ⟨rfl, hn⟩
      · rintro ⟨rfl, h⟩
        rw [hn] at h
        cases h
        exact ⟨rfl, rfl⟩

theorem resolve_eq {p : Path} (h : pathFault? p = none) :
    fs.resolve p why = fs.walk why linkLimit [] p.steps := by
  rw [resolve, h]

theorem pathFault?_of_resolve {p : Path} {place : Place} (h : fs.resolve p why = .ok place) :
    pathFault? p = none := by
  unfold resolve at h
  split at h
  · cases h
  · assumption

theorem status_eq_ok {p : Path} {loc : Location} {node : Node} :
    fs.status p = .ok (loc, node) ↔ pathFault? p = none ∧
      fs.walk .look linkLimit [] p.steps = .ok (.there loc) ∧ fs.node? loc = some node := by
  unfold status
  cases hf : pathFault? p with
  | some e => simp [resolve, hf, bind, Except.bind]
  | none =>
    rw [resolve_eq hf]
    cases fs.walk .look linkLimit [] p.steps with
    | error e => simp [bind, Except.bind]
    | ok place => simp [bind, Except.bind, found_eq_ok]

theorem resolve_of_status {p : Path} {loc : Location} {node : Node}
    (h : fs.status p = .ok (loc, node)) : fs.resolve p .look = .ok (.there loc) := by
  obtain ⟨hf, hw, -⟩ := status_eq_ok.1 h
  rw [resolve_eq hf, hw]

/-- A path that asks for a directory has the same names as one that does not. -/
theorem steps_cases (p : Path) : p.steps = p.segments ∨ p.steps = p.segments ++ [""] := by
  unfold Path.steps
  split
  · exact Or.inr rfl
  · exact Or.inl rfl

theorem leads_of_status {p : Path} {loc : Location} {node : Node}
    (h : fs.status p = .ok (loc, node)) :
    fs.Leads p loc ∧ fs.node? loc = some node ∧ pathFault? p = none := by
  obtain ⟨hf, hw, hn⟩ := status_eq_ok.1 h
  refine ⟨?_, hn, hf⟩
  rcases steps_cases p with hs | hs
  · rwa [hs] at hw
  · rw [hs] at hw
    obtain ⟨mid, hmid, hdir⟩ := walk_prefix (by simp) hw
    obtain ⟨left, -, he⟩ := walk_append [""] (Or.inl rfl) hmid
    rw [he, walk_idle hdir (Or.inl rfl), walk_nil] at hw
    cases hw
    exact hmid

theorem status_of_leads {p : Path} {loc : Location} (hf : pathFault? p = none)
    (h : fs.Leads p loc) (hn : fs.node? loc = some .dir) : fs.status p = .ok (loc, .dir) := by
  refine status_eq_ok.2 ⟨hf, ?_, hn⟩
  rcases steps_cases p with hs | hs
  · rwa [hs]
  · obtain ⟨left, -, he⟩ := walk_append [""] (Or.inl rfl) h
    rw [hs, he, walk_idle hn (Or.inl rfl), walk_nil]

theorem isDir_iff {p : Path} : fs.isDir p ↔ ∃ loc, fs.status p = .ok (loc, .dir) := by
  unfold isDir
  cases fs.status p with
  | error e => simp
  | ok found =>
    obtain ⟨loc, node⟩ := found
    cases node <;> simp

/-- A path that goes on from a place with plain names. -/
theorem resolve_join (why : Purpose) {p : Path} {loc : Location} {names : List String}
    (hl : fs.Leads p loc) (hplain : ∀ name ∈ names, Path.IsPlain name) (hne : names ≠ [])
    (hf : pathFault? (p.join (.ofComponents names)) = none) :
    ∃ left ≤ linkLimit,
      fs.resolve (p.join (.ofComponents names)) why = fs.walk why left loc names := by
  have habs := Path.isAbsolute_ofComponents hplain
  have hslash : (p.join (.ofComponents names)).endsWithSlash = false := by
    rw [Path.endsWithSlash_join habs (Path.ofComponents_ne_empty hplain hne),
      Path.endsWithSlash_ofComponents hplain]
  have hsteps : (p.join (.ofComponents names)).steps = p.segments ++ names := by
    rw [Path.steps_of_noSlash hslash, Path.segments_join habs, Path.segments_ofComponents hplain]
  have hys : why = .look ∨ names ≠ [] ∧ names ≠ [""] := by
    refine Or.inr ⟨hne, ?_⟩
    rintro rfl
    exact (hplain "" (by simp)).nonempty rfl
  obtain ⟨left, hleft, he⟩ := walk_append names hys hl
  exact ⟨left, hleft, by rw [resolve_eq hf, hsteps, he]⟩

/-! ## What is found at a path -/

/-- What a path leads to, and everything below that. -/
def treeAt (fs : FileSystem) (p : Path) : Location → Option Node := fun rest =>
  match fs.status p with
  | .ok (loc, _) => fs.node? (loc ++ rest)
  | .error _ => none

theorem node?_append_of_none {loc : Location} (h : fs.node? loc = none) (rest : Location) :
    fs.node? (loc ++ rest) = none := by
  by_cases hnil : rest = []
  · subst hnil
    rwa [List.append_nil]
  · cases hn : fs.node? (loc ++ rest) with
    | none => rfl
    | some node =>
      rw [node?_above hnil (by rw [hn]; rfl)] at h
      cases h

/-- What can keep a path of plain names from leading to what is there: its length, or a name's. -/
def Reachable (p : Path) (names : List String) : Prop :=
  pathFault? (p.join (.ofComponents names)) = none ∧
    ∀ name ∈ names, name.utf8ByteSize ≤ longestName

theorem pathFault?_eq_none {p : Path} : pathFault? p = none ↔
    '\x00' ∉ p.text.toList ∧ p.text.utf8ByteSize ≤ longestPath ∧ p.text ≠ "" := by
  unfold pathFault?
  split
  · next h => simp [h]
  split
  · next h => simp [Nat.not_le.2 h]
  split
  · next h => simp [h]
  · next hnul hlong hempty => simp [hnul, Nat.not_lt.1 hlong, hempty]

/-- Names behind a path can be reached if together they are not too long. -/
theorem reachable_of_size {p : Path} {names : List String} (hf : pathFault? p = none)
    (hplain : ∀ name ∈ names, Path.IsPlain name) (hne : names ≠ [])
    (hallowed : ∀ name ∈ names, name.utf8ByteSize ≤ longestName ∧ '\x00' ∉ name.toList)
    (hsize : (p.join (.ofComponents names)).text.utf8ByteSize ≤ longestPath) :
    Reachable p names := by
  obtain ⟨hnul, -, -⟩ := pathFault?_eq_none.1 hf
  refine ⟨pathFault?_eq_none.2 ⟨?_, hsize, Path.join_ofComponents_ne_empty hplain hne⟩,
    fun name hn => (hallowed name hn).1⟩
  rw [Path.mem_join (Path.isAbsolute_ofComponents hplain) (by decide)]
  rintro (h | h)
  · exact hnul h
  · obtain ⟨name, hname, hc⟩ := Path.mem_ofComponents (by decide) h
    exact (hallowed name hname).2 hc

/-- A path of plain names that goes on from a directory without links leads where it says. -/
theorem place_of_resolve {p : Path} {loc : Location} {names : List String} {place : Place}
    (hl : fs.Leads p loc) (hfree : fs.LinkFree loc) (hplain : ∀ name ∈ names, Path.IsPlain name)
    (hne : names ≠ []) (h : fs.resolve (p.join (.ofComponents names)) why = .ok place) :
    Reachable p names ∧ (place = .there (loc ++ names) ∧ (fs.node? (loc ++ names)).isSome ∨
      ∃ init last, names = init ++ [last] ∧ place = .free (loc ++ init) last ∧
        fs.node? (loc ++ names) = none) := by
  have hf := pathFault?_of_resolve h
  obtain ⟨left, -, he⟩ := resolve_join why hl hplain hne hf
  rw [he] at h
  refine ⟨⟨hf, short_of_walk hplain hfree h⟩, ?_⟩
  rcases walk_plain hplain hfree h with ⟨hp, hs⟩ | hfound
  · exact Or.inl ⟨hp, hs hne⟩
  · exact Or.inr hfound

theorem loc_of_status {p : Path} {loc found : Location} {names : List String} {node : Node}
    (hl : fs.Leads p loc) (hfree : fs.LinkFree loc) (hplain : ∀ name ∈ names, Path.IsPlain name)
    (hne : names ≠ []) (hs : fs.status (p.join (.ofComponents names)) = .ok (found, node)) :
    Reachable p names ∧ found = loc ++ names := by
  obtain ⟨hf, hwalk, -⟩ := status_eq_ok.1 hs
  have hresolve : fs.resolve (p.join (.ofComponents names)) .look = .ok (.there found) := by
    rw [resolve_eq hf, hwalk]
  obtain ⟨hreach, hplace⟩ := place_of_resolve hl hfree hplain hne hresolve
  refine ⟨hreach, ?_⟩
  rcases hplace with ⟨hplace, -⟩ | ⟨_, _, _, hplace, -⟩
  · cases hplace
    rfl
  · cases hplace

theorem status_of_reachable {p : Path} {loc : Location} {names : List String} {node : Node}
    (hl : fs.Leads p loc) (hplain : ∀ name ∈ names, Path.IsPlain name) (hne : names ≠ [])
    (hreach : Reachable p names) (hn : fs.node? (loc ++ names) = some node)
    (hsolid : ∀ t, node ≠ .link t) :
    fs.status (p.join (.ofComponents names)) = .ok (loc ++ names, node) := by
  obtain ⟨left, -, he⟩ := resolve_join .look hl hplain hne hreach.1
  rw [walk_there hplain hreach.2 hn hsolid] at he
  have hfound := found_eq_ok.2 ⟨rfl, hn⟩
  rw [status, he]
  exact hfound

open Classical in
theorem treeAt_join {p : Path} {loc : Location} {names : List String} (hl : fs.Leads p loc)
    (hfree : fs.LinkFree loc) (hplain : ∀ name ∈ names, Path.IsPlain name) (hne : names ≠ []) :
    fs.treeAt (p.join (.ofComponents names)) =
      if Reachable p names then fun rest => fs.node? (loc ++ names ++ rest) else fun _ => none := by
  funext rest
  unfold treeAt
  split
  · next l node hs =>
    obtain ⟨hreach, rfl⟩ := loc_of_status hl hfree hplain hne hs
    rw [if_pos hreach]
  · next e hs =>
    split
    · next hreach =>
      -- the path can be followed, so it fails because nothing is there
      have hnone : fs.node? (loc ++ names) = none := by
        cases hn : fs.node? (loc ++ names) with
        | none => rfl
        | some node =>
          have hsolid : ∀ t, node ≠ .link t := by
            rintro t rfl
            exact hfree names t hn
          rw [status_of_reachable hl hplain hne hreach hn hsolid] at hs
          cases hs
      exact (node?_append_of_none hnone rest).symm
    · rfl

/-! ## Adding directories -/

/-- Everything that was there is there unchanged. -/
def Extends (fs fs' : FileSystem) : Prop :=
  ∀ loc node, fs.node? loc = some node → fs'.node? loc = some node

namespace Extends

theorem refl (fs : FileSystem) : Extends fs fs := fun _ _ h => h

theorem trans {a b c : FileSystem} (hab : Extends a b) (hbc : Extends b c) : Extends a c :=
  fun loc node h => hbc loc node (hab loc node h)

theorem grows (h : Extends fs fs') : Grows fs fs' := fun loc node hn =>
  ⟨node, h loc node hn, .refl node⟩

end Extends

theorem entry_free {p : Path} {dir : Location} {name : String}
    (h : fs.entry p = .ok (.free dir name)) : pathFault? p = none ∧ ∃ above,
      p.segments = above ++ [name] ∧ fs.walk .look linkLimit [] above = .ok (.there dir) ∧
      fs.node? dir = some .dir ∧ fs.node? (dir ++ [name]) = none ∧ Sought .look name [] := by
  unfold entry at h
  cases hf : pathFault? p with
  | some e => simp [hf] at h
  | none =>
    refine ⟨rfl, ?_⟩
    simp only [hf] at h
    cases hs : p.split? with
    | none => simp [hs] at h
    | some parts =>
      obtain ⟨above, last⟩ := parts
      rw [Path.split?, Option.map_eq_some_iff] at hs
      obtain ⟨last', hlast, hparts⟩ := hs
      cases hparts
      obtain ⟨init, hinit⟩ := List.getLast?_eq_some_iff.1 hlast
      have hinit' : p.segments.dropLast = init := by rw [hinit, List.dropLast_concat]
      simp only [Path.split?, hlast, Option.map_some, hinit'] at h
      cases hw : fs.walk .look linkLimit [] init with
      | error e => simp [hw] at h
      | ok place =>
        cases place with
        | free d n => simp [hw] at h
        | there d =>
          simp only [hw, walkNames] at h
          split at h
          · cases h
          next hdir =>
          split at h
          · cases h
          next hidle =>
          split at h
          · cases h
          next hup =>
          split at h
          · cases h
          next hwrite =>
          split at h
          · cases h
          next hlong =>
          cases hn : fs.node? (d ++ [last]) with
          | some node =>
            rw [hn] at h
            cases node <;> cases h
          | none =>
            simp only [hn, ↓reduceIte, Except.ok.injEq, Place.free.injEq] at h
            obtain ⟨rfl, rfl⟩ := h
            exact ⟨init, hinit, hw, not_not.1 hdir, hn, ⟨hidle, hup, hwrite, hlong⟩⟩

theorem Sought.isPlain {name : String} {rest : List String} (h : Sought why name rest)
    (hslash : '/' ∉ name.toList) : Path.IsPlain name :=
  ⟨fun hne => h.moves (Or.inl hne), hslash, fun hdot => h.moves (Or.inr hdot), h.down⟩

theorem noSlash_of_mem_steps {p : Path} {name : String} (h : name ∈ p.steps) :
    '/' ∉ name.toList := by
  have hsegments : name ∈ p.segments → '/' ∉ name.toList := fun hm =>
    (Path.name_of_mem_segments hm).2
  rcases steps_cases p with hp | hp
  · rw [hp] at h
    exact hsegments h
  · rw [hp] at h
    rcases List.mem_append.1 h with h | h
    · exact hsegments h
    · rw [List.mem_singleton.1 h]
      decide

/-- A name that is free where a walk ends is one that an operating system can give. -/
theorem isPlain_of_walk {links : Nat} {here dir : Location} {names : List String} {name : String}
    (hslash : ∀ n ∈ names, '/' ∉ n.toList)
    (h : fs.walk why links here names = .ok (.free dir name)) : Path.IsPlain name := by
  induction links using Nat.strongRecOn generalizing here names with
  | ind links ihlinks =>
  induction names generalizing here with
  | nil =>
    rw [walk_nil] at h
    cases h
  | cons first rest ih =>
    have hrest : ∀ n ∈ rest, '/' ∉ n.toList := fun n hn => hslash n (List.mem_cons_of_mem _ hn)
    obtain ⟨-, hstep⟩ := step_of_ok h
    cases hstep with
    | idle _ hw => exact ih hrest hw
    | up _ hw => exact ih hrest hw
    | free hs _ _ hplace =>
      cases hplace
      exact hs.isPlain (hslash _ (List.mem_cons_self ..))
    | link _ _ hlinks hw =>
      subst hlinks
      refine ihlinks _ (Nat.lt_succ_self _) (fun n hn => ?_) hw
      rcases List.mem_append.1 hn with hn | hn
      · exact noSlash_of_mem_steps hn
      · exact hrest n hn
    | down _ _ _ hw => exact ih hrest hw

theorem isPlain_of_resolve {p : Path} {dir : Location} {name : String}
    (h : fs.resolve p why = .ok (.free dir name)) : Path.IsPlain name := by
  unfold resolve at h
  split at h
  · cases h
  · exact isPlain_of_walk (fun _ => noSlash_of_mem_steps) h

theorem mkdir_eq_ok {p : Path} : fs.mkdir p = .ok fs' ↔
    ∃ dir name, fs.entry p = .ok (.free dir name) ∧ fs' = fs.add dir name .dir := by
  unfold mkdir
  cases fs.entry p with
  | error e => simp [bind, Except.bind]
  | ok place =>
    cases place with
    | there loc => simp [bind, Except.bind]
    | free dir name => simp [bind, Except.bind, eq_comm]

theorem mem_empty {loc : Location} {node : Node} (h : FileSystem.empty.node? loc = some node) :
    loc = [] ∧ node = .dir := by
  rcases List.eq_nil_or_concat loc with rfl | ⟨dir, name, rfl⟩
  · cases h
    exact ⟨rfl, rfl⟩
  · rw [List.concat_eq_append, node?_concat, FileSystem.empty, Directories.lookup_addEmpty] at h
    simp [Directories.lookup] at h

/-- Nothing is there but what was put there or was there before. -/
theorem mem_add {dir loc : Location} {name : String} {node new : Node}
    (h : (fs.add dir name new).node? loc = some node) :
    loc = dir ++ [name] ∧ node = new ∨ fs.node? loc = some node := by
  unfold add at h
  split at h
  · rw [node?_set] at h
    split at h
    · next he => exact Or.inl ⟨he, (Option.some.inj h).symm⟩
    · exact Or.inr h
  · exact Or.inr h

/-- All names are such as an operating system has. -/
def Named (fs : FileSystem) : Prop :=
  ∀ dir name, (fs.node? (dir ++ [name])).isSome → Path.IsPlain name

/-- The names that lead to something are such. -/
theorem Named.plain (h : fs.Named) {loc rest : Location} (hs : (fs.node? (loc ++ rest)).isSome) :
    ∀ name ∈ rest, Path.IsPlain name := by
  induction rest using List.reverseRecOn with
  | nil => simp
  | append_singleton rest last ih =>
    rw [← List.append_assoc] at hs
    intro name hname
    rcases List.mem_append.1 hname with hname | hname
    · exact ih (by rw [fs.node?_parent hs]; rfl) name hname
    · rw [List.mem_singleton.1 hname]
      exact h _ _ hs

/-- Directories and files under names that an operating system has, and no links. -/
structure Tidy (fs : FileSystem) : Prop where
  names : fs.Named
  free : ∀ loc, fs.LinkFree loc

theorem tidy_empty : FileSystem.empty.Tidy where
  names dir name hs := by
    obtain ⟨node, hn⟩ := Option.isSome_iff_exists.1 hs
    simpa using (mem_empty hn).1
  free loc rest t hn := by
    cases (mem_empty hn).2

theorem Tidy.add (h : fs.Tidy) (dir : Location) {name : String} {node : Node}
    (hplain : Path.IsPlain name) (hsolid : ∀ t, node ≠ .link t) : (fs.add dir name node).Tidy where
  names d n hs := by
    obtain ⟨old, hn⟩ := Option.isSome_iff_exists.1 hs
    rcases mem_add hn with ⟨he, -⟩ | hn
    · obtain ⟨-, he⟩ := List.append_inj' he rfl
      cases he
      exact hplain
    · exact h.names d n (by rw [hn]; rfl)
  free loc rest t hn := by
    rcases mem_add hn with ⟨-, he⟩ | hn
    · exact hsolid t he.symm
    · exact h.free loc rest t hn

theorem extends_add {dir : Location} {name : String} (node : Node)
    (hdir : fs.node? dir = some .dir) (hfree : fs.node? (dir ++ [name]) = none) :
    Extends fs (fs.add dir name node) := by
  intro loc n hn
  rw [node?_add node hdir hfree, if_neg, hn]
  rintro rfl
  rw [hfree] at hn
  cases hn

/-- The name at the end of a path stands where the path leads, and may be a link there. -/
theorem entry_of_isDir {p : Path} (h : fs.isDir p) : ∃ loc, fs.entry p = .ok (.there loc) := by
  obtain ⟨loc, hs⟩ := isDir_iff.1 h
  obtain ⟨hl, -, hf⟩ := leads_of_status hs
  unfold entry
  rw [hf]
  dsimp only
  cases hp : p.segments.getLast? with
  | none => exact ⟨[], by rw [Path.split?, hp]; rfl⟩
  | some name =>
    obtain ⟨above, habove⟩ := List.getLast?_eq_some_iff.1 hp
    have hdrop : p.segments.dropLast = above := by rw [habove, List.dropLast_concat]
    rw [Leads, habove] at hl
    obtain ⟨dir, hw, -⟩ := walk_prefix (by simp) hl
    obtain ⟨left, -, he⟩ := walk_append [name] (Or.inl rfl) hw
    rw [he] at hl
    obtain ⟨hdir, hstep⟩ := step_of_ok hl
    simp only [Path.split?, hp, Option.map_some, hdrop, hw, walkNames, if_neg (not_not.2 hdir)]
    cases hstep with
    | idle hidle _ => exact ⟨dir, if_pos hidle⟩
    | up hup _ =>
      subst hup
      exact ⟨dir.dropLast, rfl⟩
    | free _ _ _ hplace => cases hplace
    | link hs hn _ _ =>
      rw [if_neg hs.moves, if_neg hs.down, if_neg hs.allowed, if_neg hs.short, hn]
      exact ⟨_, rfl⟩
    | @down node hs hn hlink _ =>
      rw [if_neg hs.moves, if_neg hs.down, if_neg hs.allowed, if_neg hs.short, hn]
      cases node with
      | link t => exact absurd rfl (hlink t)
      | dir => exact ⟨_, rfl⟩
      | file c => exact ⟨_, rfl⟩

theorem mkdir_of_isDir {p : Path} (h : fs.isDir p) : fs.mkdir p = .error .alreadyExists := by
  obtain ⟨loc, he⟩ := entry_of_isDir h
  rw [mkdir, he]
  rfl

/-- A directory that has been made is where its path leads. -/
theorem mkdir_leads {p : Path} (h : fs.mkdir p = .ok fs') : ∃ dir name,
    fs.node? dir = some .dir ∧ fs.node? (dir ++ [name]) = none ∧ fs' = fs.add dir name .dir ∧
      fs'.status p = .ok (dir ++ [name], .dir) ∧ Path.IsPlain name ∧ ∃ above,
        p.segments = above ++ [name] ∧ fs.walk .look linkLimit [] above = .ok (.there dir) := by
  obtain ⟨dir, name, he, rfl⟩ := mkdir_eq_ok.1 h
  obtain ⟨hf, above, hsegs, hw, hdir, hfree, hs⟩ := entry_free he
  have hext := extends_add .dir hdir hfree
  have hnew : (fs.add dir name .dir).node? (dir ++ [name]) = some .dir := by
    rw [node?_add .dir hdir hfree, if_pos rfl]
  have hplain : Path.IsPlain name :=
    hs.isPlain (Path.name_of_mem_segments (p := p) (by simp [hsegs])).2
  refine ⟨dir, name, hdir, hfree, rfl, status_of_leads hf ?_ hnew, hplain, above, hsegs, hw⟩
  obtain ⟨left, -, hrest⟩ := walk_append [name] (Or.inl rfl) (walk_mono hext.grows hw)
  rw [Leads, hsegs, hrest, walk_down (hext dir _ hdir) hs hnew (by simp), walk_nil]

/-- Nothing but directories has been added, each where one of the paths leads. -/
structure AddsDirs (paths : List Path) (fs fs' : FileSystem) : Prop where
  old : Extends fs fs'
  new : ∀ loc, fs.node? loc = none → (fs'.node? loc).isSome →
    fs'.node? loc = some .dir ∧ ∃ p ∈ paths, fs'.Leads p loc
  names : fs.Named → fs'.Named

namespace AddsDirs

variable {paths : List Path}

theorem refl (paths : List Path) (fs : FileSystem) : AddsDirs paths fs fs where
  old := .refl fs
  new loc hn hs := by simp [hn] at hs
  names := id

theorem trans {a b c : FileSystem} (hab : AddsDirs paths a b) (hbc : AddsDirs paths b c) :
    AddsDirs paths a c where
  old := hab.old.trans hbc.old
  new loc hn hs := by
    cases hb : b.node? loc with
    | none => exact hbc.new loc hb hs
    | some node =>
      obtain ⟨hdir, p, hp, hl⟩ := hab.new loc hn (by rw [hb]; rfl)
      exact ⟨hbc.old loc _ hdir, p, hp, hl.mono hbc.old.grows⟩
  names := hbc.names ∘ hab.names

theorem mono {more : List Path} (h : AddsDirs paths fs fs') (hsub : paths ⊆ more) :
    AddsDirs more fs fs' where
  old := h.old
  new loc hn hs := by
    obtain ⟨hdir, p, hp, hl⟩ := h.new loc hn hs
    exact ⟨hdir, p, hsub hp, hl⟩
  names := h.names

theorem links (h : AddsDirs paths fs fs') (loc : Location) (t : Path)
    (hn' : fs'.node? loc = some (.link t)) : fs.node? loc = some (.link t) := by
  cases hn : fs.node? loc with
  | some node =>
    rw [h.old loc node hn] at hn'
    exact hn'
  | none =>
    obtain ⟨hdir, -⟩ := h.new loc hn (by rw [hn']; rfl)
    rw [hdir] at hn'
    cases hn'

theorem linkFree (h : AddsDirs paths fs fs') {loc : Location} (hfree : fs.LinkFree loc) :
    fs'.LinkFree loc := fun rest t hn => hfree rest t (h.links _ t hn)

end AddsDirs

theorem addsDirs_mkdir {p : Path} (h : fs.mkdir p = .ok fs') : AddsDirs [p] fs fs' := by
  obtain ⟨dir, name, hdir, hfree, rfl, hs, hplain, -⟩ := mkdir_leads h
  refine ⟨extends_add .dir hdir hfree, fun loc hn hsome => ?_, fun hnamed d n hsome => ?_⟩
  · rw [node?_add .dir hdir hfree] at hsome ⊢
    split at hsome
    · next he =>
      subst he
      exact ⟨if_pos rfl, p, by simp, (leads_of_status hs).1⟩
    · simp [hn] at hsome
  · rw [node?_add .dir hdir hfree] at hsome
    split at hsome
    · next he =>
      obtain ⟨rfl, hn⟩ := List.append_inj' he rfl
      cases hn
      exact hplain
    · exact hnamed d n hsome

end FileSystem

namespace FileM

open FileSystem

variable {fs fs' : FileSystem}

theorem addsDirs_ensureDir (p : Path) : Keeps (AddsDirs [p]) (ensureDir p) := by
  intro fs
  unfold ensureDir
  cases h : fs.mkdir p with
  | ok fs' => exact addsDirs_mkdir h
  | error e =>
    dsimp only
    split <;> exact .refl _ fs

theorem isDir_of_ensureDir {p : Path} {u : Unit} (h : ensureDir p fs = .ok u fs') :
    fs'.isDir p := by
  unfold ensureDir at h
  cases hm : fs.mkdir p with
  | ok fs₁ =>
    rw [hm] at h
    cases h
    obtain ⟨dir, name, -, -, -, hs, -⟩ := mkdir_leads hm
    exact isDir_iff.2 ⟨_, hs⟩
  | error e =>
    rw [hm] at h
    dsimp only at h
    split at h
    · next hd =>
      cases h
      exact hd
    · cases h

theorem ensureChain_cons (p : Path) (above : List Path) (fs : FileSystem) :
    ensureChain (p :: above) fs =
      if p.text = "" then .ok () fs
      else match fs.mkdir p with
        | .error .notFound => (ensureChain above >>= fun _ => ensureDir p) fs
        | _ => ensureDir p fs := rfl

theorem addsDirs_ensureChain (paths : List Path) :
    Keeps (AddsDirs paths) (ensureChain paths) := by
  induction paths with
  | nil => exact fun fs => .refl [] fs
  | cons p above ih =>
    intro fs
    rw [ensureChain_cons]
    split
    · exact .refl _ fs
    split
    · have hseq : Keeps (AddsDirs (p :: above)) (ensureChain above >>= fun _ => ensureDir p) := by
        refine Keeps.bind .trans ?_ fun _ => ?_
        · exact fun fs => (ih fs).mono (List.subset_cons_self ..)
        · exact fun fs => (addsDirs_ensureDir p fs).mono (by simp)
      exact hseq fs
    · exact (addsDirs_ensureDir p fs).mono (by simp)

theorem isDir_of_ensureChain {p : Path} {above : List Path} {u : Unit} (hne : p.text ≠ "")
    (h : ensureChain (p :: above) fs = .ok u fs') : fs'.isDir p := by
  rw [ensureChain_cons, if_neg hne] at h
  split at h
  · obtain ⟨_, _, -, h⟩ := bind_eq_ok.1 h
    exact isDir_of_ensureDir h
  · exact isDir_of_ensureDir h

theorem addsDirs_mkdirAll (p : Path) : Keeps (AddsDirs (p :: p.ancestors)) (mkdirAll p) :=
  addsDirs_ensureChain _

/-- Where a path leads once it has been made. -/
theorem leads_of_mkdirAll {p : Path} {u : Unit} (h : mkdirAll p fs = .ok u fs') :
    ∃ loc, fs'.Leads p loc ∧ fs'.node? loc = some .dir := by
  by_cases hne : p.text = ""
  · refine ⟨[], ?_, fs'.node?_root⟩
    have hsegs : p.segments = [] := by rw [Path.segments_eq, hne]; rfl
    rw [Leads, hsegs, walk_nil]
  · obtain ⟨loc, hs⟩ := isDir_iff.1 (isDir_of_ensureChain hne h)
    obtain ⟨hl, hn, -⟩ := leads_of_status hs
    exact ⟨loc, hl, hn⟩

/-- Nothing is made where there is a directory already. -/
theorem mkdirAll_of_isDir {p : Path} (h : fs.isDir p) : mkdirAll p fs = .ok () fs := by
  have hm := mkdir_of_isDir h
  have hensure : ensureDir p fs = .ok () fs := by
    rw [ensureDir, hm]
    exact if_pos h
  rw [mkdirAll, ensureChain_cons, hm]
  split
  · rfl
  · exact hensure

theorem addsDirs_ensureShard (dir : Path) :
    Keeps (AddsDirs (dir :: dir.ancestors)) (ensureShard dir) := by
  intro fs
  unfold ensureShard
  rw [bind_get]
  cases fs.isDir dir with
  | true => exact .refl _ fs
  | false => exact addsDirs_mkdirAll dir fs

theorem ensureShard_of_isDir {dir : Path} (h : fs.isDir dir) : ensureShard dir fs = .ok () fs := by
  unfold ensureShard
  rw [bind_get, h]
  rfl

theorem isDir_of_ensureShard {dir : Path} {u : Unit} (hne : dir.text ≠ "")
    (h : ensureShard dir fs = .ok u fs') : fs'.isDir dir := by
  unfold ensureShard at h
  rw [bind_get] at h
  cases hd : fs.isDir dir with
  | true =>
    simp only [hd] at h
    cases h
    exact hd
  | false =>
    simp only [hd] at h
    exact isDir_of_ensureChain hne h

end FileM

end Depot
