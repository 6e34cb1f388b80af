import Depot.Files.Place
import Depot.Proofs.Files.Paths
import Mathlib.Data.List.Induction

/-! Where walks lead. A walk that arrives somewhere arrives there still when the files have only
grown; a walk that goes on is two walks; and below a directory without links, plain names lead where
they say. -/

namespace Depot

/-- The same kind of node: files may differ in content. -/
inductive Node.Like : Node → Node → Prop where
  | dir : Like .dir .dir
  | file (c c' : Content) : Like (.file c) (.file c')
  | link (target : Path) : Like (.link target) (.link target)

theorem Node.Like.refl (n : Node) : n.Like n := by
  cases n with
  | dir => exact .dir
  | file c => exact .file c c
  | link target => exact .link target

theorem Node.Like.trans {a b c : Node} (hab : a.Like b) (hbc : b.Like c) : a.Like c := by
  cases hab <;> cases hbc
  · exact .dir
  · exact .file _ _
  · exact .link _

namespace FileSystem

variable {fs fs' : FileSystem} {why : Purpose}

/-- What was there is there still, though files may hold something else. -/
def Grows (fs fs' : FileSystem) : Prop :=
  ∀ loc node, fs.node? loc = some node → ∃ node', fs'.node? loc = some node' ∧ node.Like node'

namespace Grows

theorem refl (fs : FileSystem) : Grows fs fs := fun _ node h => ⟨node, h, .refl node⟩

theorem trans {a b c : FileSystem} (hab : Grows a b) (hbc : Grows b c) : Grows a c := by
  intro loc node h
  obtain ⟨node₁, h₁, hl₁⟩ := hab loc node h
  obtain ⟨node₂, h₂, hl₂⟩ := hbc loc node₁ h₁
  exact ⟨node₂, h₂, hl₁.trans hl₂⟩

theorem none (hg : Grows fs fs') {loc : Location} (h : fs'.node? loc = none) :
    fs.node? loc = none := by
  cases hn : fs.node? loc with
  | none => rfl
  | some node =>
    obtain ⟨node', hn', -⟩ := hg loc node hn
    rw [h] at hn'
    cases hn'

theorem dir (hg : Grows fs fs') {loc : Location} (h : fs.node? loc = some .dir) :
    fs'.node? loc = some .dir := by
  obtain ⟨node, hn, hl⟩ := hg loc _ h
  cases hl
  exact hn

theorem link (hg : Grows fs fs') {loc : Location} {target : Path}
    (h : fs.node? loc = some (.link target)) : fs'.node? loc = some (.link target) := by
  obtain ⟨node, hn, hl⟩ := hg loc _ h
  cases hl
  exact hn

end Grows

/-! ## Single steps -/

/-- What a walk does at a link. -/
def jump (fs : FileSystem) (why : Purpose) :
    Nat → Location → Path → List String → Except FileError Place
  | 0, _, _, _ => .error .tooManyLinks
  | links + 1, here, target, rest =>
    fs.walk why links (if target.isAbsolute then [] else here) (target.steps ++ rest)

theorem walk_eq (fs : FileSystem) (why : Purpose) (links : Nat) :
    fs.walk why links = fs.walkNames why (fs.jump why links) := by
  cases links <;> rfl

@[simp] theorem walk_nil (links : Nat) (here : Location) :
    fs.walk why links here [] = .ok (.there here) := by
  rw [walk_eq]
  rfl

theorem walk_cons (links : Nat) (here : Location) (name : String) (rest : List String) :
    fs.walk why links here (name :: rest) =
      if fs.node? here ≠ some .dir then .error .notDirectory
      else if name = "" ∨ name = "." then fs.walk why links here rest
      else if name = ".." then fs.walk why links here.dropLast rest
      else if why = .write ∧ rest = [""] then .error .isDirectory
      else if longestName < name.utf8ByteSize then .error .nameTooLong
      else match fs.node? (here ++ [name]) with
        | none => if rest = [] then .ok (.free here name) else .error .notFound
        | some (.link target) => fs.jump why links here target rest
        | some _ => fs.walk why links (here ++ [name]) rest := by
  rw [walk_eq]
  rfl

/-- A name that is looked for in the directory where the walk stands. -/
structure Sought (why : Purpose) (name : String) (rest : List String) : Prop where
  moves : ¬(name = "" ∨ name = ".")
  down : name ≠ ".."
  allowed : ¬(why = .write ∧ rest = [""])
  short : ¬longestName < name.utf8ByteSize

section Steps

variable {links : Nat} {here : Location} {name : String} {rest : List String}

theorem walk_idle (hdir : fs.node? here = some .dir) (h : name = "" ∨ name = ".") :
    fs.walk why links here (name :: rest) = fs.walk why links here rest := by
  rw [walk_cons, if_neg (not_not.2 hdir), if_pos h]

theorem walk_up (hdir : fs.node? here = some .dir) :
    fs.walk why links here (".." :: rest) = fs.walk why links here.dropLast rest := by
  rw [walk_cons, if_neg (not_not.2 hdir), if_neg (by simp), if_pos rfl]

theorem walk_sought (hdir : fs.node? here = some .dir) (h : Sought why name rest) :
    fs.walk why links here (name :: rest) =
      match fs.node? (here ++ [name]) with
      | none => if rest = [] then .ok (.free here name) else .error .notFound
      | some (.link target) => fs.jump why links here target rest
      | some _ => fs.walk why links (here ++ [name]) rest := by
  rw [walk_cons, if_neg (not_not.2 hdir), if_neg h.moves, if_neg h.down, if_neg h.allowed,
    if_neg h.short]

theorem walk_down (hdir : fs.node? here = some .dir) (h : Sought why name rest) {node : Node}
    (hn : fs.node? (here ++ [name]) = some node) (hl : ∀ t, node ≠ .link t) :
    fs.walk why links here (name :: rest) = fs.walk why links (here ++ [name]) rest := by
  rw [walk_sought hdir h, hn]
  cases node with
  | link t => exact absurd rfl (hl t)
  | dir => rfl
  | file c => rfl

theorem walk_link (hdir : fs.node? here = some .dir) (h : Sought why name rest) {target : Path}
    (hn : fs.node? (here ++ [name]) = some (.link target)) :
    fs.walk why (links + 1) here (name :: rest) =
      fs.walk why links (if target.isAbsolute then [] else here) (target.steps ++ rest) := by
  rw [walk_sought hdir h, hn]
  rfl

/-- The ways in which a walk that gets somewhere makes its first step. -/
inductive Step (fs : FileSystem) (why : Purpose) (links : Nat) (here : Location) (name : String)
    (rest : List String) (place : Place) : Prop where
  | idle : name = "" ∨ name = "." → fs.walk why links here rest = .ok place →
      Step fs why links here name rest place
  | up : name = ".." → fs.walk why links here.dropLast rest = .ok place →
      Step fs why links here name rest place
  | free : Sought why name rest → fs.node? (here ++ [name]) = none → rest = [] →
      place = .free here name → Step fs why links here name rest place
  | link {target : Path} {links' : Nat} : Sought why name rest →
      fs.node? (here ++ [name]) = some (.link target) → links = links' + 1 →
      fs.walk why links' (if target.isAbsolute then [] else here) (target.steps ++ rest) =
        .ok place → Step fs why links here name rest place
  | down {node : Node} : Sought why name rest → fs.node? (here ++ [name]) = some node →
      (∀ t, node ≠ .link t) → fs.walk why links (here ++ [name]) rest = .ok place →
      Step fs why links here name rest place

theorem step_of_ok {place : Place} (h : fs.walk why links here (name :: rest) = .ok place) :
    fs.node? here = some .dir ∧ Step fs why links here name rest place := by
  rw [walk_cons] at h
  split at h
  · cases h
  next hdir =>
  refine ⟨not_not.1 hdir, ?_⟩
  split at h
  · next hidle => exact .idle hidle h
  next hidle =>
  split at h
  · next hup => exact .up hup h
  next hup =>
  split at h
  · cases h
  next hwrite =>
  split at h
  · cases h
  next hlong =>
  have hs : Sought why name rest := ⟨hidle, hup, hwrite, hlong⟩
  cases hn : fs.node? (here ++ [name]) with
  | none =>
    rw [hn] at h
    dsimp only at h
    split at h
    · next hrest =>
      cases h
      exact .free hs hn hrest rfl
    · cases h
  | some node =>
    rw [hn] at h
    cases node with
    | link target =>
      cases links with
      | zero => cases h
      | succ links => exact .link hs hn rfl h
    | dir => exact .down hs hn (by simp) h
    | file c => exact .down hs hn (by simp) h

end Steps

/-! ## Walks among files that grow -/

/-- Links may be followed at every step, so the induction is on how many are left and, for each
number, on the names. -/
theorem walk_mono (hg : Grows fs fs') {links : Nat} {here loc : Location} {names : List String}
    (h : fs.walk why links here names = .ok (.there loc)) :
    fs'.walk why links here names = .ok (.there loc) := by
  induction links using Nat.strongRecOn generalizing here names with
  | ind links ihlinks =>
  induction names generalizing here with
  | nil => simpa using h
  | cons name rest ih =>
    obtain ⟨hdir, hstep⟩ := step_of_ok h
    have hdir' := hg.dir hdir
    cases hstep with
    | idle hidle hw =>
      rw [walk_idle hdir' hidle]
      exact ih hw
    | up hup hw =>
      subst hup
      rw [walk_up hdir']
      exact ih hw
    | free _ _ _ hplace => cases hplace
    | link hs hn hlinks hw =>
      subst hlinks
      rw [walk_link hdir' hs (hg.link hn)]
      exact ihlinks _ (Nat.lt_succ_self _) hw
    | @down node hs hn hl hw =>
      obtain ⟨node', hn', hlike⟩ := hg _ _ hn
      have hl' : ∀ t, node' ≠ .link t := by
        rintro t rfl
        cases hlike
        exact hl t rfl
      rw [walk_down hdir' hs hn' hl']
      exact ih hw

/-! ## Walks in two parts -/

theorem Sought.append {name : String} {rest ys : List String} (h : Sought .look name rest)
    (hys : why = .look ∨ ys ≠ [] ∧ ys ≠ [""]) : Sought why name (rest ++ ys) where
  moves := h.moves
  down := h.down
  allowed := by
    rintro ⟨rfl, he⟩
    rcases hys with hys | ⟨hne, hys⟩
    · cases hys
    · cases rest with
      | nil => exact hys he
      | cons r rest =>
        rw [List.cons_append, List.cons.injEq, List.append_eq_nil_iff] at he
        exact hne he.2.2
  short := h.short

/-- A walk that arrives goes on from there, with the links it has not followed. -/
theorem walk_append {links : Nat} {here mid : Location} {xs : List String} (ys : List String)
    (hys : why = .look ∨ ys ≠ [] ∧ ys ≠ [""])
    (h : fs.walk .look links here xs = .ok (.there mid)) :
    ∃ left ≤ links, fs.walk why links here (xs ++ ys) = fs.walk why left mid ys := by
  induction links using Nat.strongRecOn generalizing here xs with
  | ind links ihlinks =>
  induction xs generalizing here with
  | nil =>
    rw [walk_nil] at h
    cases h
    exact ⟨links, Nat.le_refl _, rfl⟩
  | cons name rest ih =>
    obtain ⟨hdir, hstep⟩ := step_of_ok h
    rw [List.cons_append]
    cases hstep with
    | idle hidle hw =>
      rw [walk_idle hdir hidle]
      exact ih hw
    | up hup hw =>
      subst hup
      rw [walk_up hdir]
      exact ih hw
    | free _ _ _ hplace => cases hplace
    | @link target links' hs hn hlinks hw =>
      subst hlinks
      obtain ⟨left, hleft, he⟩ := ihlinks links' (Nat.lt_succ_self _) hw
      rw [walk_link hdir (hs.append hys) hn, ← List.append_assoc]
      exact ⟨left, by omega, he⟩
    | down hs hn hl hw =>
      rw [walk_down hdir (hs.append hys) hn hl]
      exact ih hw

/-- A walk that gets anywhere has been everywhere on the way. -/
theorem walk_prefix {links : Nat} {here : Location} {xs ys : List String} {place : Place}
    (hys : ys ≠ []) (h : fs.walk .look links here (xs ++ ys) = .ok place) :
    ∃ mid, fs.walk .look links here xs = .ok (.there mid) ∧ fs.node? mid = some .dir := by
  induction links using Nat.strongRecOn generalizing here xs with
  | ind links ihlinks =>
  induction xs generalizing here with
  | nil =>
    cases ys with
    | nil => exact absurd rfl hys
    | cons y ys => exact ⟨here, walk_nil .., (step_of_ok h).1⟩
  | cons name rest ih =>
    rw [List.cons_append] at h
    obtain ⟨hdir, hstep⟩ := step_of_ok h
    have hsought : Sought .look name (rest ++ ys) → Sought .look name rest := fun hs =>
      ⟨hs.moves, hs.down, by simp, hs.short⟩
    cases hstep with
    | idle hidle hw =>
      rw [walk_idle hdir hidle]
      exact ih hw
    | up hup hw =>
      subst hup
      rw [walk_up hdir]
      exact ih hw
    | free _ _ hrest _ => exact absurd (List.append_eq_nil_iff.1 hrest).2 hys
    | @link target links' hs hn hlinks hw =>
      subst hlinks
      rw [walk_link hdir (hsought hs) hn]
      rw [← List.append_assoc] at hw
      exact ihlinks links' (Nat.lt_succ_self _) hw
    | down hs hn hl hw =>
      rw [walk_down hdir (hsought hs) hn hl]
      exact ih hw

/-! ## Plain names below a directory without links -/

/-- There is no link at a location or below. -/
def LinkFree (fs : FileSystem) (loc : Location) : Prop :=
  ∀ rest target, fs.node? (loc ++ rest) ≠ some (.link target)

theorem LinkFree.below {loc : Location} (h : fs.LinkFree loc) (rest : Location) :
    fs.LinkFree (loc ++ rest) := by
  intro more target
  rw [List.append_assoc]
  exact h (rest ++ more) target

theorem LinkFree.of_same {loc loc' : Location} (h : fs.LinkFree loc)
    (hsame : ∀ rest, fs'.node? (loc' ++ rest) = fs.node? (loc ++ rest)) : fs'.LinkFree loc' := by
  intro rest target
  rw [hsame]
  exact h rest target

theorem sought_of_plain {name : String} (h : Path.IsPlain name)
    (hshort : name.utf8ByteSize ≤ longestName) {rest : List String} (hrest : "" ∉ rest) :
    Sought why name rest where
  moves := by simp [h.nonempty, h.notDot]
  down := h.notDots
  allowed := by
    rintro ⟨-, rfl⟩
    simp at hrest
  short := Nat.not_lt.2 hshort

/-- What is on the way to something is a directory. -/
theorem node?_above {loc rest : Location} (hrest : rest ≠ [])
    (h : (fs.node? (loc ++ rest)).isSome) : fs.node? loc = some .dir := by
  induction rest using List.reverseRecOn with
  | nil => exact absurd rfl hrest
  | append_singleton rest name ih =>
    rw [← List.append_assoc] at h
    have hdir := fs.node?_parent h
    by_cases hnil : rest = []
    · subst hnil
      simpa using hdir
    · exact ih hnil (by rw [hdir]; rfl)

theorem node?_below {loc rest : Location} (h : fs.node? loc ≠ some .dir) (hrest : rest ≠ []) :
    fs.node? (loc ++ rest) = none := by
  cases hn : fs.node? (loc ++ rest) with
  | none => rfl
  | some node => exact absurd (node?_above hrest (by rw [hn]; rfl)) h

theorem short_of_walk {links : Nat} {here : Location} {names : List String}
    (hplain : ∀ name ∈ names, Path.IsPlain name) (hfree : fs.LinkFree here) {place : Place}
    (h : fs.walk why links here names = .ok place) :
    ∀ name ∈ names, name.utf8ByteSize ≤ longestName := by
  induction names generalizing here with
  | nil => simp
  | cons name rest ih =>
    have hname := hplain name (List.mem_cons_self ..)
    have hrest := fun n hn => hplain n (List.mem_cons_of_mem name hn)
    obtain ⟨-, hstep⟩ := step_of_ok h
    rw [List.forall_mem_cons]
    cases hstep with
    | idle hidle _ => exact absurd hidle (by simp [hname.nonempty, hname.notDot])
    | up hup _ => exact absurd hup hname.notDots
    | free hs _ hnil _ =>
      subst hnil
      exact ⟨Nat.not_lt.1 hs.short, by simp⟩
    | link _ hn _ _ => exact absurd hn (hfree [name] _)
    | down hs _ _ hw => exact ⟨Nat.not_lt.1 hs.short, ih hrest (hfree.below [name]) hw⟩

theorem walk_plain {links : Nat} {here : Location} {names : List String}
    (hplain : ∀ name ∈ names, Path.IsPlain name) (hfree : fs.LinkFree here) {place : Place}
    (h : fs.walk why links here names = .ok place) :
    place = .there (here ++ names) ∧ (names ≠ [] → (fs.node? (here ++ names)).isSome) ∨
      ∃ init last, names = init ++ [last] ∧ place = .free (here ++ init) last ∧
        fs.node? (here ++ names) = none := by
  induction names generalizing here with
  | nil =>
    rw [walk_nil] at h
    cases h
    exact Or.inl ⟨by simp, fun hne => absurd rfl hne⟩
  | cons name rest ih =>
    have hname := hplain name (List.mem_cons_self ..)
    obtain ⟨hdir, hstep⟩ := step_of_ok h
    cases hstep with
    | idle hidle _ => exact absurd hidle (by simp [hname.nonempty, hname.notDot])
    | up hup _ => exact absurd hup hname.notDots
    | free _ hn hrest hplace =>
      subst hrest
      exact Or.inr ⟨[], name, rfl, by simpa using hplace, hn⟩
    | link _ hn _ _ => exact absurd hn (hfree [name] _)
    | down _ hn _ hw =>
      have hrec := ih (fun n hn => hplain n (List.mem_cons_of_mem _ hn)) (hfree.below [name]) hw
      rcases hrec with ⟨hplace, hsome⟩ | ⟨init, last, hrest, hplace, hnone⟩
      · refine Or.inl ⟨by simpa using hplace, fun _ => ?_⟩
        by_cases hnil : rest = []
        · subst hnil
          rw [hn]
          rfl
        · simpa using hsome hnil
      · refine Or.inr ⟨name :: init, last, by rw [hrest]; rfl, by simpa using hplace, ?_⟩
        simpa using hnone

theorem notMem_of_plain {names : List String} (h : ∀ name ∈ names, Path.IsPlain name) :
    "" ∉ names := fun hm => (h "" hm).nonempty rfl

/-- What is there is found, if its names are not too long. All above it are directories, so there is
no link on the way. -/
theorem walk_there {links : Nat} {here : Location} {names : List String} {node : Node}
    (hplain : ∀ name ∈ names, Path.IsPlain name)
    (hshort : ∀ name ∈ names, name.utf8ByteSize ≤ longestName)
    (h : fs.node? (here ++ names) = some node) (hsolid : ∀ t, node ≠ .link t) :
    fs.walk why links here names = .ok (.there (here ++ names)) := by
  induction names generalizing here with
  | nil => simp
  | cons name rest ih =>
    have hname := hplain name (List.mem_cons_self ..)
    have hrest := fun n hn => hplain n (List.mem_cons_of_mem name hn)
    have hs : Sought why name rest :=
      sought_of_plain hname (hshort name (List.mem_cons_self ..)) (notMem_of_plain hrest)
    have hsplit : here ++ name :: rest = here ++ [name] ++ rest := by simp
    have hdir : fs.node? here = some .dir :=
      node?_above (List.cons_ne_nil name rest) (by rw [h]; rfl)
    rw [hsplit] at h ⊢
    have hnext : ∃ next, fs.node? (here ++ [name]) = some next ∧ ∀ t, next ≠ .link t := by
      by_cases hnil : rest = []
      · subst hnil
        rw [List.append_nil] at h
        exact ⟨node, h, hsolid⟩
      · exact ⟨.dir, node?_above hnil (by rw [h]; rfl), by simp⟩
    obtain ⟨next, hn, hl⟩ := hnext
    rw [walk_down hdir hs hn hl]
    exact ih hrest (fun n hn => hshort n (List.mem_cons_of_mem _ hn)) h

end FileSystem

end Depot
