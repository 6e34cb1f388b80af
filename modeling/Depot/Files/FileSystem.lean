import Depot.Files.Path
import Std.Data.ExtTreeMap

/-! A file system: its directories, each with what it holds. `node?` says what is at a location;
every change is one of the four below, which say what `node?` is afterwards. -/

namespace Depot

/-- The bytes of a file. -/
abbrev Content := List UInt8

inductive Node where
  | dir
  | file (content : Content)
  | link (target : Path)
  deriving DecidableEq

/-- The names that lead from the root to a place, outermost first. -/
abbrev Location := List String

/-- What a directory holds, by name. -/
abbrev Entries := Std.ExtTreeMap String Node

abbrev Directories := Std.ExtTreeMap Location Entries

namespace Directories

def lookup (dirs : Directories) (dir : Location) (name : String) : Option Node :=
  (dirs[dir]?).bind (·[name]?)

theorem getElem?_insert (dirs : Directories) (dir : Location) (entries : Entries) (d : Location) :
    (dirs.insert dir entries)[d]? = if d = dir then some entries else dirs[d]? := by
  rw [Std.ExtTreeMap.getElem?_insert]
  by_cases h : d = dir
  · simp [h]
  · simp [h, Ne.symm h]

/-- Gives a name in a directory its node. A directory that is not there yet comes into being. -/
def setEntry (dirs : Directories) (dir : Location) (name : String) (node : Node) : Directories :=
  dirs.insert dir (((dirs[dir]?).getD ∅).insert name node)

theorem mem_insert {dirs : Directories} {dir : Location} {entries : Entries} {d : Location} :
    d ∈ dirs.insert dir entries ↔ d = dir ∨ d ∈ dirs := by
  rw [Std.ExtTreeMap.mem_insert, Std.LawfulEqOrd.compare_eq_iff_eq, eq_comm]

theorem lookup_setEntry (dirs : Directories) (dir : Location) (name : String) (node : Node)
    (d : Location) (n : String) : (dirs.setEntry dir name node).lookup d n =
      if d = dir ∧ n = name then some node else dirs.lookup d n := by
  unfold lookup setEntry
  rw [getElem?_insert]
  by_cases hd : d = dir
  · subst hd
    simp only [↓reduceIte, Option.bind_some, Std.ExtTreeMap.getElem?_insert, true_and]
    by_cases hn : n = name
    · simp [hn]
    · cases dirs[d]? <;> simp [hn, Ne.symm hn]
  · simp [hd]

theorem mem_setEntry {dirs : Directories} {dir : Location} {name : String} {node : Node}
    {d : Location} : d ∈ dirs.setEntry dir name node ↔ d = dir ∨ d ∈ dirs := mem_insert

/-- Adds a directory with nothing in it, unless it is there. -/
def addEmpty (dirs : Directories) (dir : Location) : Directories :=
  if dir ∈ dirs then dirs else dirs.insert dir ∅

theorem lookup_addEmpty (dirs : Directories) (dir d : Location) (n : String) :
    (dirs.addEmpty dir).lookup d n = dirs.lookup d n := by
  unfold addEmpty lookup
  split
  · rfl
  · next h =>
    rw [getElem?_insert]
    split <;> simp_all

theorem mem_addEmpty {dirs : Directories} {dir d : Location} :
    d ∈ dirs.addEmpty dir ↔ d = dir ∨ d ∈ dirs := by
  unfold addEmpty
  split
  · next h =>
    constructor
    · exact Or.inr
    · rintro (rfl | hd) <;> assumption
  · exact mem_insert

/-- Leaves what `keep` holds of. -/
def keepOnly (dirs : Directories) (keep : Location → Bool) : Directories :=
  dirs.filterMap fun dir entries =>
    if keep dir then some (entries.filter fun name _ => keep (dir ++ [name])) else none

theorem lookup_keepOnly (dirs : Directories) (keep : Location → Bool) (d : Location) (n : String) :
    (dirs.keepOnly keep).lookup d n =
      if keep d ∧ keep (d ++ [n]) then dirs.lookup d n else none := by
  unfold lookup keepOnly
  rw [Std.ExtTreeMap.getElem?_filterMap']
  cases dirs[d]? with
  | none => simp
  | some entries =>
    by_cases hd : keep d
    · simp only [Option.bind_some, hd, ↓reduceIte, Std.ExtTreeMap.getElem?_filter', true_and]
      cases entries[n]? <;> simp [Option.filter]
    · simp [hd]

theorem mem_keepOnly {dirs : Directories} {keep : Location → Bool} {d : Location} :
    d ∈ dirs.keepOnly keep ↔ keep d ∧ d ∈ dirs := by
  simp only [Std.ExtTreeMap.mem_iff_isSome_getElem?, keepOnly,
    Std.ExtTreeMap.getElem?_filterMap']
  cases dirs[d]? <;> by_cases hd : keep d <;> simp [hd]

end Directories

/-- The root is a directory, and so is whatever a directory holds as one. -/
structure FileSystem where
  dirs : Directories
  root : [] ∈ dirs
  linked : ∀ (dir : Location) (name : String),
    dir ++ [name] ∈ dirs ↔ dirs.lookup dir name = some .dir

namespace FileSystem

def node? (fs : FileSystem) (loc : Location) : Option Node :=
  match loc.getLast? with
  | none => some .dir
  | some name => fs.dirs.lookup loc.dropLast name

@[simp] theorem node?_root (fs : FileSystem) : fs.node? [] = some .dir := rfl

theorem node?_concat (fs : FileSystem) (dir : Location) (name : String) :
    fs.node? (dir ++ [name]) = fs.dirs.lookup dir name := by
  simp [node?]

theorem mem_dirs {fs : FileSystem} {loc : Location} : loc ∈ fs.dirs ↔ fs.node? loc = some .dir := by
  rcases List.eq_nil_or_concat loc with rfl | ⟨dir, name, rfl⟩
  · simpa using fs.root
  · rw [List.concat_eq_append, node?_concat]
    exact fs.linked dir name

theorem node?_parent (fs : FileSystem) {dir : Location} {name : String}
    (h : (fs.node? (dir ++ [name])).isSome) : fs.node? dir = some .dir := by
  rw [← mem_dirs]
  rw [node?_concat, Directories.lookup] at h
  cases hd : fs.dirs[dir]? with
  | none => simp [hd] at h
  | some _ => simp [Std.ExtTreeMap.mem_iff_isSome_getElem?, hd]

@[ext] theorem ext {fs fs' : FileSystem} (h : ∀ loc, fs.node? loc = fs'.node? loc) : fs = fs' := by
  have hd : fs.dirs = fs'.dirs := by
    apply Std.ExtTreeMap.ext_getElem?
    intro dir
    have hi : dir ∈ fs.dirs ↔ dir ∈ fs'.dirs := by rw [mem_dirs, mem_dirs, h]
    have he := fun name => h (dir ++ [name])
    simp only [node?_concat, Directories.lookup] at he
    simp only [Std.ExtTreeMap.mem_iff_isSome_getElem?] at hi
    cases h₁ : fs.dirs[dir]? <;> cases h₂ : fs'.dirs[dir]? <;> simp only [h₁, h₂] at hi he
    · rfl
    · simp at hi
    · simp at hi
    · exact congrArg some (Std.ExtTreeMap.ext_getElem? he)
  cases fs
  cases fs'
  congr

/-- Nothing but the root. -/
def empty : FileSystem where
  dirs := Directories.addEmpty ∅ []
  root := Directories.mem_addEmpty.2 (Or.inl rfl)
  linked dir name := by
    rw [Directories.mem_addEmpty, Directories.lookup_addEmpty]
    simp [Directories.lookup]

/-- The directories with a node of another kind at a location that is not a directory. -/
def set (fs : FileSystem) (dir : Location) (name : String) (node : Node)
    (hdir : fs.node? dir = some .dir) (hname : fs.node? (dir ++ [name]) ≠ some .dir) :
    FileSystem where
  dirs :=
    let dirs := fs.dirs.setEntry dir name node
    if node = .dir then dirs.addEmpty (dir ++ [name]) else dirs
  root := by
    have := @Directories.mem_setEntry fs.dirs dir name node []
    split
    · exact Directories.mem_addEmpty.2 (Or.inr (this.2 (Or.inr fs.root)))
    · exact this.2 (Or.inr fs.root)
  linked d n := by
    have hnew : dir ++ [name] ∉ fs.dirs := by rwa [mem_dirs]
    have hold := fs.linked d n
    have hmem : d ++ [n] = dir ∨ d ++ [n] ∈ fs.dirs ↔ d ++ [n] ∈ fs.dirs :=
      or_iff_right_of_imp fun h => h ▸ mem_dirs.2 hdir
    have heq : d ++ [n] = dir ++ [name] ↔ d = dir ∧ n = name := by simp
    split
    · next hn =>
      rw [Directories.mem_addEmpty, Directories.lookup_addEmpty, Directories.mem_setEntry,
        Directories.lookup_setEntry, hmem, heq]
      split <;> simp_all
    · next hn =>
      rw [Directories.mem_setEntry, Directories.lookup_setEntry, hmem]
      split
      · next h => simp_all
      · exact hold

theorem node?_set {fs : FileSystem} {dir : Location} {name : String} {node : Node} {hdir hname}
    (loc : Location) : (fs.set dir name node hdir hname).node? loc =
      if loc = dir ++ [name] then some node else fs.node? loc := by
  rcases List.eq_nil_or_concat loc with rfl | ⟨d, n, rfl⟩
  · simp
  · have heq : d ++ [n] = dir ++ [name] ↔ d = dir ∧ n = name := by simp
    rw [List.concat_eq_append, node?_concat, node?_concat]
    simp only [heq, set]
    split
    · rw [Directories.lookup_addEmpty, Directories.lookup_setEntry]
    · rw [Directories.lookup_setEntry]

/-- Puts a node into a directory that has nothing of that name. -/
def add (fs : FileSystem) (dir : Location) (name : String) (node : Node) : FileSystem :=
  if h : fs.node? dir = some .dir ∧ fs.node? (dir ++ [name]) = none then
    fs.set dir name node h.1 (by simp [h.2])
  else fs

theorem node?_add {fs : FileSystem} {dir : Location} {name : String} (node : Node)
    (hdir : fs.node? dir = some .dir) (hfree : fs.node? (dir ++ [name]) = none) (loc : Location) :
    (fs.add dir name node).node? loc = if loc = dir ++ [name] then some node else fs.node? loc := by
  rw [add, dif_pos ⟨hdir, hfree⟩, node?_set]

/-- Replaces the content of a file. -/
def setContent (fs : FileSystem) (loc : Location) (content : Content) : FileSystem :=
  match hl : loc.getLast?, h : fs.node? loc with
  | some name, some (.file _) =>
    fs.set loc.dropLast name (.file content)
      (by
        obtain ⟨dir, rfl⟩ := List.getLast?_eq_some_iff.1 hl
        rw [List.dropLast_concat]
        exact fs.node?_parent (by rw [h]; rfl))
      (by
        obtain ⟨dir, rfl⟩ := List.getLast?_eq_some_iff.1 hl
        simp [h])
  | _, _ => fs

theorem node?_setContent {fs : FileSystem} {loc : Location} {old : Content} (content : Content)
    (h : fs.node? loc = some (.file old)) (loc' : Location) :
    (fs.setContent loc content).node? loc' =
      if loc' = loc then some (.file content) else fs.node? loc' := by
  unfold setContent
  split
  · next name _ hl _ =>
    obtain ⟨dir, rfl⟩ := List.getLast?_eq_some_iff.1 hl
    rw [node?_set, List.dropLast_concat]
  · next hne =>
    rcases List.eq_nil_or_concat loc with rfl | ⟨dir, name, rfl⟩
    · simp at h
    · exact absurd h (hne name old (by simp))

/-- Leaves what `keep` holds of. -/
def keepOnly (fs : FileSystem) (keep : Location → Bool) (hroot : keep [])
    (hup : ∀ dir name, keep (dir ++ [name]) → keep dir) : FileSystem where
  dirs := fs.dirs.keepOnly keep
  root := Directories.mem_keepOnly.2 ⟨hroot, fs.root⟩
  linked dir name := by
    have := hup dir name
    rw [Directories.mem_keepOnly, Directories.lookup_keepOnly, fs.linked]
    by_cases hk : keep (dir ++ [name]) <;> simp_all

theorem node?_keepOnly {fs : FileSystem} {keep : Location → Bool} {hroot hup} (loc : Location) :
    (fs.keepOnly keep hroot hup).node? loc = if keep loc then fs.node? loc else none := by
  rcases List.eq_nil_or_concat loc with rfl | ⟨dir, name, rfl⟩
  · simp [hroot]
  · have := hup dir name
    rw [List.concat_eq_append, node?_concat, node?_concat]
    simp only [keepOnly, Directories.lookup_keepOnly]
    by_cases hk : keep (dir ++ [name]) <;> simp_all

/-- Empties a directory. -/
def clear (fs : FileSystem) (loc : Location) : FileSystem :=
  fs.keepOnly (fun l => l = loc ∨ ¬loc <+: l) (by cases loc <;> simp) fun dir name h => by
    simp only [decide_eq_true_eq] at *
    refine Or.inr fun hp => ?_
    rcases h with rfl | h
    · have := hp.length_le
      simp only [List.length_append, List.length_singleton] at this
      omega
    · exact h (hp.trans (List.prefix_append ..))

theorem node?_clear {fs : FileSystem} {loc : Location} (loc' : Location) :
    (fs.clear loc).node? loc' = if loc' = loc ∨ ¬loc <+: loc' then fs.node? loc' else none := by
  simp [clear, node?_keepOnly]

/-- Removes a node and whatever is below. The root stays. -/
def prune (fs : FileSystem) (loc : Location) : FileSystem :=
  fs.keepOnly (fun l => l = [] ∨ ¬loc <+: l) (by simp) fun dir name h => by
    simp only [decide_eq_true_eq, List.append_eq_nil_iff, List.cons_ne_self, and_false,
      false_or] at *
    exact Or.inr fun hp => h (hp.trans (List.prefix_append ..))

theorem node?_prune {fs : FileSystem} {loc : Location} (loc' : Location) :
    (fs.prune loc).node? loc' = if loc' = [] ∨ ¬loc <+: loc' then fs.node? loc' else none := by
  simp [prune, node?_keepOnly]

/-- The names in a directory, in order. -/
def children (fs : FileSystem) (dir : Location) : List String :=
  match fs.dirs[dir]? with
  | some entries => entries.keys
  | none => []

theorem mem_children {fs : FileSystem} {dir : Location} {name : String} :
    name ∈ fs.children dir ↔ (fs.node? (dir ++ [name])).isSome := by
  rw [node?_concat, Directories.lookup, children]
  cases fs.dirs[dir]? <;> simp

/-- What `loc` adds to `dir`, if it is in or below it. -/
def below? : Location → Location → Option Location
  | [], loc => some loc
  | d :: dir, l :: loc => if d = l then below? dir loc else none
  | _ :: _, [] => none

theorem below?_eq_some {dir loc rest : Location} :
    below? dir loc = some rest ↔ loc = dir ++ rest := by
  fun_induction below? dir loc <;> grind

/-- Everything below a directory, each directory before what it holds, names in order. -/
def contents (fs : FileSystem) (dir : Location) : List (Location × Node) :=
  let entries := fs.dirs.toList.flatMap fun (d, entries) =>
    match below? dir d with
    | some rest => entries.toList.map fun (name, node) => (rest ++ [name], node)
    | none => []
  entries.mergeSort fun a b => (compare a.1 b.1).isLE

end FileSystem

end Depot
