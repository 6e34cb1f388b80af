import Depot.Proofs.Files.Trees
import Mathlib.Data.Set.Card

/-! What a copy of a directory answers and what it has looked at: as many files as the source has,
and each link below the source, which led to a file when its turn came. -/

namespace Depot

open Work

namespace FileSystem

variable {fs fs' : FileSystem} {source : Location} {name : String}

/-! ## How many files there are -/

/-- Where there is something below a place that is no directory, be it a link. A file is below
itself. -/
def files (fs : FileSystem) (loc : Location) : Set Location :=
  {rest | ∃ node, fs.node? (loc ++ rest) = some node ∧ node ≠ .dir}

theorem mem_files {loc rest : Location} :
    rest ∈ fs.files loc ↔ ∃ node, fs.node? (loc ++ rest) = some node ∧ node ≠ .dir := Iff.rfl

theorem files_congr {loc : Location}
    (h : ∀ rest, fs'.node? (loc ++ rest) = fs.node? (loc ++ rest)) :
    fs'.files loc = fs.files loc := by
  ext rest
  rw [mem_files, mem_files, h]

theorem cons_mem_files {loc rest : Location} :
    name :: rest ∈ fs.files loc ↔ rest ∈ fs.files (loc ++ [name]) := by
  rw [mem_files, mem_files, List.append_assoc, List.singleton_append]

theorem files_of_file {loc : Location} {node : Node} (hn : fs.node? loc = some node)
    (hne : node ≠ .dir) : fs.files loc = {[]} := by
  ext rest
  rw [mem_files, Set.mem_singleton_iff]
  constructor
  · rintro ⟨other, hother, -⟩
    by_contra hrest
    rw [node?_below (by simpa [hn] using hne) hrest] at hother
    cases hother
  · rintro rfl
    exact ⟨node, by rwa [List.append_nil], hne⟩

/-- The files below some of the names in a directory. -/
def filesIn (fs : FileSystem) (loc : Location) (names : List String) : Set Location :=
  {rest ∈ fs.files loc | ∃ name ∈ names, ∃ more, rest = name :: more}

@[simp] theorem filesIn_nil (loc : Location) : fs.filesIn loc [] = ∅ := by
  simp [filesIn]

theorem encard_filesIn_cons {loc : Location} {names : List String} (hname : name ∉ names) :
    (fs.filesIn loc (name :: names)).encard =
      (fs.files (loc ++ [name])).encard + (fs.filesIn loc names).encard := by
  have hsplit : fs.filesIn loc (name :: names) =
      (name :: ·) '' fs.files (loc ++ [name]) ∪ fs.filesIn loc names := by
    ext rest
    constructor
    · rintro ⟨hrest, first, hfirst, more, rfl⟩
      rcases List.mem_cons.1 hfirst with rfl | hfirst
      · exact Or.inl ⟨more, cons_mem_files.1 hrest, rfl⟩
      · exact Or.inr ⟨hrest, first, hfirst, more, rfl⟩
    · rintro (⟨more, hmore, rfl⟩ | ⟨hrest, first, hfirst, more, rfl⟩)
      · exact ⟨cons_mem_files.2 hmore, name, List.mem_cons_self .., more, rfl⟩
      · exact ⟨hrest, first, List.mem_cons_of_mem _ hfirst, more, rfl⟩
  have hapart : Disjoint ((name :: ·) '' fs.files (loc ++ [name])) (fs.filesIn loc names) := by
    rw [Set.disjoint_left]
    rintro _ ⟨more, -, rfl⟩ ⟨-, first, hfirst, more', he⟩
    cases he
    exact hname hfirst
  rw [hsplit, Set.encard_union_eq hapart, (List.cons_injective).encard_image]

theorem filesIn_children {names : List String} (hdir : fs.node? source = some .dir)
    (hnames : ∀ name, (fs.node? (source ++ [name])).isSome → name ∈ names) :
    fs.filesIn source names = fs.files source := by
  ext rest
  constructor
  · exact fun h => h.1
  · rintro ⟨node, hn, hne⟩
    refine ⟨⟨node, hn, hne⟩, ?_⟩
    cases rest with
    | nil =>
      rw [List.append_nil, hdir] at hn
      exact absurd (Option.some.inj hn).symm hne
    | cons name more =>
      refine ⟨name, hnames name ?_, more, rfl⟩
      by_cases hmore : more = []
      · subst hmore
        rw [hn]
        rfl
      · have hsplit : source ++ name :: more = source ++ [name] ++ more := by simp
        rw [hsplit] at hn
        rw [node?_above hmore (by rw [hn]; rfl)]
        rfl

theorem nodup_children (fs : FileSystem) (dir : Location) : (fs.children dir).Nodup := by
  unfold children
  split
  · exact Std.ExtTreeMap.nodup_keys
  · exact List.nodup_nil

/-! ## What names lead to -/

/-- A name in a directory leads to a file, in the end. -/
def FindsFile (fs : FileSystem) (dir : Location) (name : String) : Prop :=
  ∃ loc content, fs.follow .look dir name = .ok (.there loc) ∧ fs.node? loc = some (.file content)

theorem FindsFile.mono {dir : Location} (h : fs.FindsFile dir name) (hg : Grows fs fs') :
    fs'.FindsFile dir name := by
  obtain ⟨loc, content, hf, hn⟩ := h
  obtain ⟨node, hn', hlike⟩ := hg loc _ hn
  cases hlike
  exact ⟨loc, _, walk_mono hg hf, hn'⟩

end FileSystem

namespace FileM

open FileSystem

variable {fs fs' : FileSystem} {order : ListingOrder} {levels : Nat} {source target : Path}
  {origin dir outer : Location} {name : String} {count n : Nat}

/-- A name is copied as one file, or as all that its directory holds. -/
theorem count_copyEntry
    (ih : ∀ {source target origin dir fs n fs'}, fs.Leads source origin →
      fs.Admits target dir → outer <+: dir → (∀ rest, ¬outer <+: origin ++ rest) →
      copyLevel order levels source target fs = .ok n fs' →
      (n : ℕ∞) = (fs.files origin).encard)
    (hfrom : fs.Leads source origin) (hadmits : fs.Admits target dir) (hin : outer <+: dir)
    (hout : ∀ rest, ¬outer <+: origin ++ rest) (hname : (fs.node? (origin ++ [name])).isSome)
    (hplain : Path.IsPlain name)
    (h : copyEntry (copyLevel order levels) source target origin count name fs = .ok n fs') :
    (n : ℕ∞) = count + (fs.files (origin ++ [name])).encard := by
  rw [copyEntry_apply] at h
  split at h
  · next hdir =>
    obtain ⟨u, fs₁, hm, h⟩ := bind_eq_ok.1 h
    obtain ⟨hputs, hadmits₁⟩ := admits_child hadmits hplain hm
    obtain ⟨k, _, hcopy, hp⟩ := bind_eq_ok.1 h
    cases hp
    have hsame : ∀ rest, fs₁.node? (origin ++ [name] ++ rest) =
        fs.node? (origin ++ [name] ++ rest) := fun rest =>
      hputs.fills.outside _ fun hp => hout (name :: rest)
        (by simpa using (hin.trans (List.prefix_append ..)).trans hp)
    have hk := ih (leads_of_copied hfrom hplain hputs.fills.grows hdir hcopy).1 hadmits₁
      (hin.trans (List.prefix_append ..)) (fun rest => by simpa using hout (name :: rest)) hcopy
    rw [Nat.cast_add, hk, files_congr hsame]
  · next hdir =>
    obtain ⟨_, _, -, hp⟩ := bind_eq_ok.1 h
    cases hp
    obtain ⟨node, hn⟩ := Option.isSome_iff_exists.1 hname
    have hne : node ≠ .dir := by
      rintro rfl
      exact hdir hn
    rw [files_of_file hn hne, Set.encard_singleton, Nat.cast_add, Nat.cast_one]

/-- The names copied so far count, and those that follow have as many files as before. -/
theorem count_names {names : List String}
    (hentry : ∀ {fs fs' : FileSystem} {name : String} {count n : Nat}, name ∈ names →
      fs.Leads source origin → fs.Admits target dir → (fs.node? (origin ++ [name])).isSome →
      copyEntry (copyLevel order levels) source target origin count name fs = .ok n fs' →
      (n : ℕ∞) = count + (fs.files (origin ++ [name])).encard)
    (hplain : ∀ name ∈ names, Path.IsPlain name) (hnodup : names.Nodup)
    (hnames : ∀ name ∈ names, (fs.node? (origin ++ [name])).isSome)
    (hfrom : fs.Leads source origin) (hadmits : fs.Admits target dir) (hin : outer <+: dir)
    (hout : ∀ rest, ¬outer <+: origin ++ rest)
    (h : names.foldlM (copyEntry (copyLevel order levels) source target origin) count fs =
      .ok n fs') : (n : ℕ∞) = count + (fs.filesIn origin names).encard := by
  induction names generalizing fs count with
  | nil =>
    cases h
    simp
  | cons first names ih =>
    obtain ⟨k, fs₁, hfirst, hrest⟩ := bind_eq_ok.1 h
    rw [List.nodup_cons] at hnodup
    rw [List.forall_mem_cons] at hnames hplain
    have hstep : Fills (dir ++ [first]) fs fs₁ := Keeps.ok (fills_copyEntry hplain.1
      (fills_copyLevel order levels _ _ _) count) hfirst hadmits
    have hsame : ∀ rest, fs₁.node? (origin ++ rest) = fs.node? (origin ++ rest) := fun rest =>
      hstep.outside _ fun hp => hout rest ((hin.trans (List.prefix_append ..)).trans hp)
    have hk := hentry (List.mem_cons_self ..) hfrom hadmits hnames.1 hfirst
    have hlast := ih (fun hn => hentry (List.mem_cons_of_mem _ hn)) hplain.2 hnodup.2
      (fun name hn => by rw [hsame]; exact hnames.2 name hn) (hfrom.mono hstep.grows)
      (hadmits.after hstep) hrest
    have hfiles : fs₁.filesIn origin names = fs.filesIn origin names := by
      rw [filesIn, files_congr hsame, filesIn]
    rw [hlast, hfiles, hk, encard_filesIn_cons hnodup.1, add_assoc]

/-- The answer of a copy is the number of files in the source. -/
theorem count_copyLevel (hfrom : fs.Leads source origin) (hadmits : fs.Admits target dir)
    (hin : outer <+: dir) (hout : ∀ rest, ¬outer <+: origin ++ rest)
    (h : copyLevel order levels source target fs = .ok n fs') :
    (n : ℕ∞) = (fs.files origin).encard := by
  induction levels generalizing source target origin dir fs fs' n with
  | zero => cases h
  | succ levels ih =>
    obtain ⟨_, origin', hlevels, hstatus, h⟩ := copyLevel_ok h
    cases hlevels
    obtain ⟨hself, hdir, -⟩ := leads_of_status hstatus
    cases hfrom.unique hself
    have hperm := order.perm origin (fs.children origin)
    have hmem : ∀ name ∈ order.arrange origin (fs.children origin),
        (fs.node? (origin ++ [name])).isSome ∧ Path.IsPlain name := fun name hname =>
      plain_of_children hadmits.fill.names hname
    have hcount := count_names (fun hname hfrom hadmits hsome he =>
        count_copyEntry ih hfrom hadmits hin hout hsome (hmem _ hname).2 he)
      (fun name hname => (hmem name hname).2) (hperm.nodup_iff.2 (fs.nodup_children origin))
      (fun name hname => (hmem name hname).1) hfrom hadmits hin hout h
    rw [hcount, filesIn_children hdir fun name hs => hperm.mem_iff.2 (mem_children.2 hs),
      Nat.cast_zero, zero_add]

/-! ## Whatever the target holds -/

section Turns

variable (hfrom : fs.Leads source origin) (hnamed : fs.Named)
  (h : copyLevel order levels source target fs = .ok n fs')
include hfrom hnamed h

/-- Each name of a directory has its turn, with more there than before and more to come. -/
theorem turn_of_name (hname : (fs.node? (origin ++ [name])).isSome) : ∃ below count fs₁ k fs₂,
      Builds fs fs₁ ∧ Builds fs₂ fs' ∧
      copyEntry (copyLevel order below) source target origin count name fs₁ = .ok k fs₂ := by
  obtain ⟨below, origin', -, hstatus, h⟩ := copyLevel_ok h
  cases hfrom.unique (leads_of_status hstatus).1
  have hmem : name ∈ order.arrange origin (fs.children origin) :=
    (order.perm origin (fs.children origin)).mem_iff.2 (mem_children.2 hname)
  have hentry : ∀ count name,
      Building (copyEntry (copyLevel order below) source target origin count name) :=
    building_copyEntry (building_copyLevel order below) source target origin
  obtain ⟨count, fs₁, k, fs₂, hbefore, hturn, hafter⟩ := Keeps.turn (fun _ => .refl)
    (fun hab hbc hnamed => (hab hnamed).trans (hbc (hab hnamed).names))
    (fun count name _ => hentry count name) h hmem
  have hfirst := hbefore hnamed
  have hsecond : Builds fs₁ fs₂ := (hentry count name).ok hturn hfirst.names
  exact ⟨below, count, fs₁, k, fs₂, hfirst, hafter hsecond.names, hturn⟩

/-- A directory is copied when its turn comes. -/
theorem turn_of_dir (hdir : fs.node? (origin ++ [name]) = some .dir) : ∃ below fs₁ k fs₂,
      Builds fs fs₁ ∧ Builds fs₂ fs' ∧ Reachable source [name] ∧ Reachable target [name] ∧
      fs₁.Leads (source.child name) (origin ++ [name]) ∧
      copyLevel order below (source.child name) (target.child name) fs₁ = .ok k fs₂ := by
  have hname : (fs.node? (origin ++ [name])).isSome := by rw [hdir]; rfl
  have hplain := hnamed origin name hname
  obtain ⟨below, count, fs₁, k, fs₂, hbefore, hafter, hturn⟩ := turn_of_name hfrom hnamed h hname
  rw [copyEntry_apply, hbefore.grows.dir hdir] at hturn
  obtain ⟨u, fs₃, hm, hturn⟩ := bind_eq_ok.1 hturn
  obtain ⟨m, fs₄, hc, hp⟩ := bind_eq_ok.1 hturn
  cases hp
  have hmade : Builds fs₁ fs₃ := Keeps.ok (building_mkdirAll _) hm hbefore.names
  obtain ⟨hleads, hreach⟩ := leads_of_copied hfrom hplain (hbefore.grows.trans hmade.grows) hdir hc
  exact ⟨below, fs₃, m, fs₂, hbefore.trans hmade, hafter, hreach, reachable_of_mkdirAll hplain hm,
    hleads, hc⟩

/-- Anything else is read when its turn comes, and something is opened for it. -/
theorem turn_of_file {node : Node} (hn : fs.node? (origin ++ [name]) = some node)
    (hne : node ≠ .dir) : ∃ fs₁ loc content, Builds fs fs₁ ∧ Builds fs₁ fs' ∧
      fs₁.status (source.child name) = .ok (loc, .file content) ∧
      Reachable source [name] ∧ Reachable target [name] := by
  have hname : (fs.node? (origin ++ [name])).isSome := by rw [hn]; rfl
  have hplain := hnamed origin name hname
  obtain ⟨below, count, fs₁, k, fs₂, hbefore, hafter, hturn⟩ := turn_of_name hfrom hnamed h hname
  obtain ⟨node', hn', hlike⟩ := hbefore.grows _ node hn
  have hne' : node' ≠ .dir := by
    rintro rfl
    cases hlike
    exact hne rfl
  rw [copyEntry_apply, hn'] at hturn
  split at hturn
  · next he => exact absurd (Option.some.inj he) hne'
  obtain ⟨_, _, hc, hp⟩ := bind_eq_ok.1 hturn
  cases hp
  have hc := change_eq_ok.1 hc
  obtain ⟨loc, content, opened, hs, ho, -⟩ := copyFile_opens hc
  obtain ⟨place, hplace, -⟩ := except_bind_eq_ok.1 ho
  have hreach := reachable_of_resolve (hfrom.mono hbefore.grows) hplain (resolve_of_status hs)
  refine ⟨fs₁, loc, content, hbefore, (builds_copyFile hbefore.names hc).trans hafter, hs, hreach,
    ?_, hreach.2⟩
  rw [← Path.child_eq]
  exact pathFault?_of_resolve hplace

end Turns

/-- Whatever has been copied could be named behind both paths. The induction is on the way to it. -/
theorem reachable_of_copied {rest : Location} (hfrom : fs.Leads source origin) (hnamed : fs.Named)
    (hs : (fs.node? (origin ++ rest)).isSome) (hrest : rest ≠ [])
    (h : copyLevel order levels source target fs = .ok n fs') :
    Reachable source rest ∧ Reachable target rest := by
  induction rest generalizing levels source target origin fs fs' n with
  | nil => exact absurd rfl hrest
  | cons name rest ih =>
    have hplain := hnamed.plain hs
    have hsplit : origin ++ name :: rest = origin ++ [name] ++ rest := by simp
    rw [hsplit] at hs
    by_cases hnil : rest = []
    · subst hnil
      rw [List.append_nil] at hs
      obtain ⟨node, hn⟩ := Option.isSome_iff_exists.1 hs
      by_cases hdir : node = .dir
      · subst hdir
        obtain ⟨-, -, -, -, -, -, hsource, htarget, -⟩ := turn_of_dir hfrom hnamed h hn
        exact ⟨hsource, htarget⟩
      · obtain ⟨-, -, -, -, -, -, hsource, htarget⟩ := turn_of_file hfrom hnamed h hn hdir
        exact ⟨hsource, htarget⟩
    · obtain ⟨below, fs₁, k, fs₂, hbefore, -, hsource, -, hleads, hc⟩ :=
        turn_of_dir hfrom hnamed h (node?_above hnil hs)
      obtain ⟨node, hn⟩ := Option.isSome_iff_exists.1 hs
      obtain ⟨node', hn', -⟩ := hbefore.grows _ node hn
      have hshort : name.utf8ByteSize ≤ longestName := hsource.2 name (List.mem_cons_self ..)
      obtain ⟨hsource', htarget'⟩ := ih hleads hbefore.names (by rw [hn']; rfl) hnil hc
      exact ⟨(reachable_cons hplain hnil).2 ⟨hshort, hsource'⟩,
        (reachable_cons hplain hnil).2 ⟨hshort, htarget'⟩⟩

/-- A link that has been copied leads to a file from then on, and behind the path of the source it
does so without too many links. The induction is on the way to it. -/
theorem link_copied {rest : Location} {t : Path} (hfrom : fs.Leads source origin)
    (hnamed : fs.Named) (hn : fs.node? (origin ++ rest ++ [name]) = some (.link t))
    (h : copyLevel order levels source target fs = .ok n fs') :
    fs'.FindsFile (origin ++ rest) name ∧ ∃ loc,
      fs'.walk .look linkLimit [] (source.segments ++ (rest ++ [name])) = .ok (.there loc) := by
  induction rest generalizing levels source target origin fs fs' n with
  | nil =>
    rw [List.append_nil] at hn ⊢
    have hplain := hnamed origin name (by rw [hn]; rfl)
    obtain ⟨fs₁, loc, content, hbefore, hafter, hs, -⟩ :=
      turn_of_file hfrom hnamed h hn (by simp)
    obtain ⟨hleads, hfile, -⟩ := leads_of_status hs
    have hfinds : fs₁.FindsFile origin name := ⟨loc, content,
      follow_of_resolve (hfrom.mono hbefore.grows) hplain (resolve_of_status hs), hfile⟩
    refine ⟨hfinds.mono hafter.grows, loc, ?_⟩
    rw [Leads, source.segments_child hplain] at hleads
    exact walk_mono hafter.grows hleads
  | cons first rest ih =>
    have hsplit : origin ++ first :: rest = origin ++ [first] ++ rest := by simp
    rw [hsplit] at hn ⊢
    have hdir : fs.node? (origin ++ [first]) = some .dir := by
      have hbelow : rest ++ [name] ≠ [] := by simp
      rw [List.append_assoc _ rest] at hn
      exact node?_above hbelow (by rw [hn]; rfl)
    have hplain := hnamed origin first (by rw [hdir]; rfl)
    obtain ⟨below, fs₁, k, fs₂, hbefore, hafter, -, -, hleads, hc⟩ :=
      turn_of_dir hfrom hnamed h hdir
    obtain ⟨hfinds, loc, hwalk⟩ := ih hleads hbefore.names (hbefore.grows.link hn) hc
    refine ⟨hfinds.mono hafter.grows, loc, ?_⟩
    rw [source.segments_child hplain, List.append_assoc] at hwalk
    exact walk_mono hafter.grows hwalk

end FileM

end Depot
