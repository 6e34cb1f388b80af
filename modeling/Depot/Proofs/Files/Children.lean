import Depot.Proofs.Files.Directories

/-! Paths that go on with one more name. Each path is followed from the root with as many links as
any other, so one that goes on may be too long or meet too many links. Otherwise it leads to where
the name leads in the directory, and making it makes that name and nothing else. -/

namespace Depot

open Work

namespace Path

variable (p : Path) {name : String} {names : List String}

theorem child_eq (name : String) : p.child name = p.join (.ofComponents [name]) := by
  rw [child, ofComponents, String.intercalate_singleton]

theorem segments_child (h : IsPlain name) : (p.child name).segments = p.segments ++ [name] := by
  have hplain : ∀ n ∈ [name], IsPlain n := by simpa using h
  rw [child_eq, segments_join (isAbsolute_ofComponents hplain), segments_ofComponents hplain]

theorem endsWithSlash_child (h : IsPlain name) : (p.child name).endsWithSlash = false := by
  have hplain : ∀ n ∈ [name], IsPlain n := by simpa using h
  rw [child_eq, endsWithSlash_join (isAbsolute_ofComponents hplain)
    (ofComponents_ne_empty hplain (by simp)), endsWithSlash_ofComponents hplain]

theorem child_ne_empty (h : IsPlain name) : (p.child name).text ≠ "" := by
  rw [child_eq]
  exact join_ofComponents_ne_empty (by simpa using h) (by simp)

theorem text_child (h : IsPlain name) : (p.child name).text = p.text ++ p.gap ++ name := by
  rw [child, join_eq (isAbsolute_name h.noSlash)]

theorem size_child (h : IsPlain name) :
    p.text.utf8ByteSize < (p.child name).text.utf8ByteSize := by
  have hname : 0 < name.utf8ByteSize := Nat.pos_of_ne_zero fun he =>
    h.nonempty (String.utf8ByteSize_eq_zero_iff.1 he)
  rw [text_child p h, String.utf8ByteSize_append, String.utf8ByteSize_append]
  omega

/-- One name after the other. -/
theorem join_cons (hplain : ∀ n ∈ name :: names, IsPlain n) (hne : names ≠ []) :
    p.join (.ofComponents (name :: names)) = (p.child name).join (.ofComponents names) := by
  have hname := hplain name (List.mem_cons_self ..)
  have hrest : ∀ n ∈ names, IsPlain n := fun n hn => hplain n (List.mem_cons_of_mem _ hn)
  have hgap : (p.child name).gap = "/" := by
    rw [gap, if_neg (by simp [p.child_ne_empty hname, p.endsWithSlash_child hname])]
  rw [join_eq (isAbsolute_ofComponents hplain), join_eq (isAbsolute_ofComponents hrest), hgap,
    text_child p hname, ofComponents_cons hne]
  simp only [String.append_assoc]

end Path

namespace FileSystem

variable {fs fs' : FileSystem} {why : Purpose} {p : Path} {dir loc : Location} {name : String}

/-! ## Links that are left -/

/-- A walk with fewer links to follow comes to the same, or it meets too many. -/
theorem walk_fewer {left links : Nat} (hle : left ≤ links) (here : Location)
    (names : List String) : fs.walk why left here names = .error .tooManyLinks ∨
      fs.walk why left here names = fs.walk why links here names := by
  induction left using Nat.strongRecOn generalizing links here names with
  | ind left ihlinks =>
  induction names generalizing here with
  | nil => exact Or.inr (by rw [walk_nil, walk_nil])
  | cons name rest ih =>
    rw [walk_cons, walk_cons]
    split
    · exact Or.inr rfl
    split
    · exact ih here
    split
    · exact ih here.dropLast
    split
    · exact Or.inr rfl
    split
    · exact Or.inr rfl
    cases fs.node? (here ++ [name]) with
    | none => exact Or.inr rfl
    | some node =>
      cases node with
      | link target =>
        cases left with
        | zero => exact Or.inl rfl
        | succ left =>
          obtain ⟨links, rfl⟩ : ∃ more, links = more + 1 := ⟨links - 1, by omega⟩
          exact ihlinks left (Nat.lt_succ_self _) (by omega) _ _
      | dir => exact ih _
      | file content => exact ih _

theorem walk_more {left links : Nat} (hle : left ≤ links) {here : Location} {names : List String}
    {place : Place} (h : fs.walk why left here names = .ok place) :
    fs.walk why links here names = .ok place := by
  rcases walk_fewer hle here names with he | he
  · rw [h] at he
    cases he
  · rw [← he, h]

/-! ## One more name -/

theorem sought_of_follow {place : Place} (hplain : Path.IsPlain name)
    (h : fs.follow why dir name = .ok place) : Sought why name [] := by
  obtain ⟨-, hstep⟩ := step_of_ok h
  cases hstep with
  | idle hidle _ => exact absurd hidle (by simp [hplain.nonempty, hplain.notDot])
  | up hup _ => exact absurd hup hplain.notDots
  | free hs _ _ _ => exact hs
  | link hs _ _ _ => exact hs
  | down hs _ _ _ => exact hs

section Child

variable (hl : fs.Leads p dir) (hplain : Path.IsPlain name)
include hl hplain

theorem follow_of_resolve {place : Place} (h : fs.resolve (p.child name) why = .ok place) :
    fs.follow why dir name = .ok place := by
  have hf := pathFault?_of_resolve h
  rw [Path.child_eq] at h hf
  obtain ⟨left, hleft, he⟩ := resolve_join why hl (by simpa using hplain) (by simp) hf
  rw [he] at h
  exact walk_more hleft h

theorem follow_of_leads (h : fs.Leads (p.child name) loc) :
    fs.follow .look dir name = .ok (.there loc) := by
  rw [Leads, p.segments_child hplain] at h
  obtain ⟨left, hleft, he⟩ := walk_append [name] (Or.inl rfl) hl
  rw [he] at h
  exact walk_more hleft h

theorem leads_child {node : Node} (hshort : name.utf8ByteSize ≤ longestName)
    (hn : fs.node? (dir ++ [name]) = some node) (hsolid : ∀ t, node ≠ .link t) :
    fs.Leads (p.child name) (dir ++ [name]) := by
  have hdir : fs.node? dir = some .dir :=
    node?_above (List.cons_ne_nil name []) (by rw [hn]; rfl)
  obtain ⟨left, -, he⟩ := walk_append [name] (Or.inl rfl) hl
  rw [Leads, p.segments_child hplain, he,
    walk_down hdir (sought_of_plain hplain hshort List.not_mem_nil) hn hsolid, walk_nil]

end Child

theorem reachable_cons {names : List String} (hplain : ∀ n ∈ name :: names, Path.IsPlain n)
    (hne : names ≠ []) : Reachable p (name :: names) ↔
      name.utf8ByteSize ≤ longestName ∧ Reachable (p.child name) names := by
  rw [Reachable, Reachable, p.join_cons hplain hne, List.forall_mem_cons]
  tauto

theorem reachable_of_resolve {place : Place} (hl : fs.Leads p dir) (hplain : Path.IsPlain name)
    (h : fs.resolve (p.child name) why = .ok place) : Reachable p [name] := by
  have hf := pathFault?_of_resolve h
  have hs := sought_of_follow hplain (follow_of_resolve hl hplain h)
  refine ⟨by rwa [← Path.child_eq], ?_⟩
  simpa using hs.short

/-- What a path names, and is there, has its name in the directory that the path goes through last.
-/
theorem entry_there {above : List String}
    (hsegs : p.segments = above ++ [name]) (hplain : Path.IsPlain name)
    (h : fs.entry p = .ok (.there loc)) : pathFault? p = none ∧ ∃ dir,
      fs.walk .look linkLimit [] above = .ok (.there dir) ∧ fs.node? dir = some .dir ∧
      loc = dir ++ [name] ∧ Sought .look name [] := by
  unfold entry at h
  cases hf : pathFault? p with
  | some e => simp [hf] at h
  | none =>
    refine ⟨rfl, ?_⟩
    have hsplit : p.split? = some (above, name) := by simp [Path.split?, hsegs]
    simp only [hf, hsplit] at h
    cases hw : fs.walk .look linkLimit [] above with
    | error e => simp [hw] at h
    | ok place =>
      cases place with
      | free d n => simp [hw] at h
      | there dir =>
        simp only [hw, walkNames] at h
        split at h
        · cases h
        next hdir =>
        rw [if_neg (by simp [hplain.nonempty, hplain.notDot]), if_neg hplain.notDots] at h
        split at h
        · cases h
        next hwrite =>
        split at h
        · cases h
        next hlong =>
        have hsought : Sought .look name [] :=
          ⟨by simp [hplain.nonempty, hplain.notDot], hplain.notDots, hwrite, hlong⟩
        refine ⟨dir, rfl, not_not.1 hdir, ?_, hsought⟩
        cases hn : fs.node? (dir ++ [name]) with
        | none => simp [hn] at h
        | some node => cases node <;> simp_all

theorem reachable_of_isDir {root : Path} (hplain : Path.IsPlain name)
    (h : fs.isDir (root.child name)) : Reachable root [name] := by
  obtain ⟨loc, he⟩ := entry_of_isDir h
  obtain ⟨hf, -, -, -, -, hsought⟩ := entry_there (root.segments_child hplain) hplain he
  refine ⟨by rwa [← Path.child_eq], ?_⟩
  simpa using hsought.short

/-! ## Making what a path leads to -/

/-- The directories on the way of a path that is there are there. -/
theorem leads_of_shorter {q : Path} {above more : List String} {name : String} {dir : Location}
    (hne : more ≠ []) (hsegs : q.segments ++ more = above ++ [name])
    (hw : fs.walk .look linkLimit [] above = .ok (.there dir)) (hdir : fs.node? dir = some .dir) :
    ∃ loc, fs.Leads q loc ∧ fs.node? loc = some .dir := by
  obtain ⟨init, last, rfl⟩ := List.eq_nil_or_concat more |>.resolve_left hne
  rw [List.concat_eq_append, ← List.append_assoc] at hsegs
  obtain ⟨hinit, -⟩ := List.append_inj' hsegs rfl
  rw [← hinit] at hw
  by_cases hnil : init = []
  · subst hnil
    rw [List.append_nil] at hw
    exact ⟨dir, hw, hdir⟩
  · exact walk_prefix hnil hw

theorem AddsDirs.eq_of_leads {paths : List Path} (h : AddsDirs paths fs fs')
    (hleads : ∀ p ∈ paths, ∃ loc, fs.Leads p loc ∧ (fs.node? loc).isSome) : fs' = fs := by
  apply FileSystem.ext
  intro loc
  cases hn : fs.node? loc with
  | some node => exact h.old loc node hn
  | none =>
    cases hn' : fs'.node? loc with
    | none => rfl
    | some node =>
      obtain ⟨-, p, hp, hl⟩ := h.new loc hn (by rw [hn']; rfl)
      obtain ⟨loc', hl', hs⟩ := hleads p hp
      cases hl.unique (hl'.mono h.old.grows)
      simp [hn] at hs

/-- Making a path makes its last name only if the directory before it is there. -/
theorem AddsDirs.last {above : List String} (hadds : AddsDirs (p :: p.ancestors) fs fs')
    (hsegs : p.segments = above ++ [name])
    (hw : fs.walk .look linkLimit [] above = .ok (.there dir)) (hdir : fs.node? dir = some .dir)
    (hplain : Path.IsPlain name) (hsolid : ∀ t, fs.node? (dir ++ [name]) ≠ some (.link t))
    (hn : fs.node? loc = none) (hs : (fs'.node? loc).isSome) : loc = dir ++ [name] := by
  obtain ⟨-, q, hq, hleads⟩ := hadds.new loc hn hs
  rcases List.mem_cons.1 hq with rfl | hq
  · obtain ⟨left, -, he⟩ := walk_append [name] (Or.inl rfl) (walk_mono hadds.old.grows hw)
    rw [Leads, hsegs, he] at hleads
    obtain ⟨-, hstep⟩ := step_of_ok hleads
    cases hstep with
    | idle hidle _ => exact absurd hidle (by simp [hplain.nonempty, hplain.notDot])
    | up hup _ => exact absurd hup hplain.notDots
    | free _ _ _ hplace => cases hplace
    | link _ hlink _ _ => exact absurd (hadds.links _ _ hlink) (hsolid _)
    | down _ _ _ hw =>
      rw [walk_nil] at hw
      cases hw
      rfl
  · -- the directories before it are there
    obtain ⟨more, hmore, hshort⟩ := Path.segments_of_ancestor hq
    obtain ⟨mid, hmid, hd⟩ := leads_of_shorter hmore (hshort.symm.trans hsegs) hw hdir
    cases hleads.unique (hmid.mono hadds.old.grows)
    rw [hn] at hd
    cases hd

end FileSystem

end Depot
