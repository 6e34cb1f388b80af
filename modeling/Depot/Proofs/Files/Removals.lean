import Depot.Proofs.Files.Confinement

/-! Removing directories. What is not at or below the place of what is removed stays. What a path
names is found under it no more once it has been removed, but the directory itself may be left,
empty, where the way to it led through what was in it. -/

namespace Depot

open Work

namespace FileSystem

variable {fs fs' : FileSystem}

theorem extends_prune (fs : FileSystem) (loc : Location) : Extends (fs.prune loc) fs := by
  intro l node hn
  rw [node?_prune] at hn
  split at hn
  · exact hn
  · cases hn

theorem extends_clear (fs : FileSystem) (loc : Location) : Extends (fs.clear loc) fs := by
  intro l node hn
  rw [node?_clear] at hn
  split at hn
  · exact hn
  · cases hn

theorem prune_clear (fs : FileSystem) (loc : Location) : (fs.clear loc).prune loc = fs.prune loc := by
  ext l : 1
  rw [node?_prune, node?_prune, node?_clear]
  split
  · next h =>
    rcases h with rfl | h
    · rw [node?_root, ite_eq_left_iff]
      intro hout
      simp only [not_or, not_not] at hout
      exact absurd (List.prefix_nil.1 hout.2).symm hout.1
    · rw [if_pos (Or.inr h)]
  · rfl

/-- Emptying what holds nothing changes nothing. -/
theorem clear_of_solid {loc : Location} (h : fs.node? loc ≠ some .dir) : fs.clear loc = fs := by
  ext l : 1
  rw [node?_clear, ite_eq_left_iff]
  intro hin
  simp only [not_or, not_not] at hin
  obtain ⟨hne, rest, rfl⟩ := hin
  refine (node?_below h ?_).symm
  rintro rfl
  exact hne (List.append_nil _)

/-! ## What a path names -/

theorem node?_of_lstatus {p : Path} {place : Location} {node : Node}
    (h : fs.lstatus p = .ok (place, node)) : fs.node? place = some node := by
  unfold lstatus at h
  split at h
  · exact (status_eq_ok.1 h).2.2
  · obtain ⟨_, -, hfound⟩ := except_bind_eq_ok.1 h
    exact (found_eq_ok.1 hfound).2

/-- What a path names while there is less is what it names. -/
theorem lstatus_mono {p : Path} {place : Location} {node : Node} (hext : Extends fs fs')
    (h : fs.lstatus p = .ok (place, node)) : fs'.lstatus p = .ok (place, node) := by
  unfold lstatus at h ⊢
  by_cases hslash : p.endsWithSlash
  · rw [if_pos hslash] at h ⊢
    obtain ⟨hf, hw, hn⟩ := status_eq_ok.1 h
    exact status_eq_ok.2 ⟨hf, walk_mono hext.grows hw, hext place node hn⟩
  rw [if_neg hslash] at h ⊢
  obtain ⟨_, he, hfound⟩ := except_bind_eq_ok.1 h
  obtain ⟨rfl, hn⟩ := found_eq_ok.1 hfound
  refine except_bind_eq_ok.2 ⟨.there place, ?_, found_eq_ok.2 ⟨rfl, hext place node hn⟩⟩
  unfold entry at he ⊢
  split at he
  · cases he
  split at he
  · exact he
  next above name _ =>
  cases hw : fs.walk .look linkLimit [] above with
  | error e => simp [hw] at he
  | ok mid =>
    cases mid with
    | free d n => simp [hw] at he
    | there dir =>
      simp only [hw, walkNames] at he
      simp only [walk_mono hext.grows hw, walkNames]
      split at he
      · cases he
      next hdir =>
      rw [if_neg (not_not.2 (hext dir _ (not_not.1 hdir)))]
      split_ifs at he ⊢
      · exact he
      · exact he
      · cases hl : fs.node? (dir ++ [name]) with
        | none => simp [hl] at he
        | some there =>
          rw [hl] at he
          rw [hext _ _ hl]
          exact he

theorem entry_stands {p : Path} {loc : Location} (h : fs.entry p = .ok (.there loc)) :
    ∃ node, fs.node? loc = some node := by
  unfold entry at h
  split at h
  · cases h
  split at h
  · cases h
    exact ⟨.dir, fs.node?_root⟩
  next above name _ =>
  cases hw : fs.walk .look linkLimit [] above with
  | error e => simp [hw] at h
  | ok mid =>
    cases mid with
    | free d n => simp [hw] at h
    | there dir =>
      simp only [hw, walkNames] at h
      split at h
      · cases h
      next hdir =>
      split_ifs at h
      · cases h
        exact ⟨.dir, not_not.1 hdir⟩
      · cases h
        rcases List.eq_nil_or_concat dir with rfl | ⟨up, last, rfl⟩
        · exact ⟨.dir, fs.node?_root⟩
        · rw [List.concat_eq_append] at hdir ⊢
          rw [List.dropLast_concat]
          exact ⟨.dir, fs.node?_parent (by rw [not_not.1 hdir]; rfl)⟩
      · cases hn : fs.node? (dir ++ [name]) with
        | none => simp [hn] at h
        | some node => cases node <;> simp_all

/-- A directory that stands at the last name of a path is what the path names. -/
theorem lstatus_of_entry {p : Path} {above : List String} {name : String} {loc : Location}
    (hsegs : p.segments = above ++ [name]) (hplain : Path.IsPlain name)
    (he : fs.entry p = .ok (.there loc)) (hn : fs.node? loc = some .dir) :
    fs.lstatus p = .ok (loc, .dir) := by
  unfold lstatus
  split
  · obtain ⟨hf, dir, hw, hdir, rfl, hs⟩ := entry_there hsegs hplain he
    refine status_of_leads hf ?_ hn
    obtain ⟨left, -, hrest⟩ := walk_append [name] (Or.inl rfl) hw
    rw [Leads, hsegs, hrest, walk_down hdir hs hn (by simp), walk_nil]
  · exact except_bind_eq_ok.2 ⟨_, he, found_eq_ok.2 ⟨rfl, hn⟩⟩

theorem entry_of_lstatus {p : Path} {place : Location} (h : fs.lstatus p = .ok (place, .dir)) :
    ∃ loc, fs.entry p = .ok (.there loc) := by
  unfold lstatus at h
  split at h
  · exact entry_of_isDir (isDir_iff.2 ⟨place, h⟩)
  · obtain ⟨_, he, hfound⟩ := except_bind_eq_ok.1 h
    obtain ⟨rfl, -⟩ := found_eq_ok.1 hfound
    exact ⟨place, he⟩

/-! ## Removing an empty directory -/

theorem rmdir_ok {p : Path} (h : fs.rmdir p = .ok fs') :
    ∃ place, place ≠ [] ∧ fs.lstatus p = .ok (place, .dir) ∧ fs' = fs.prune place := by
  unfold rmdir at h
  split at h
  · cases h
  · cases h
  next above name hf hsplit =>
  obtain ⟨_, he, hrest⟩ := except_bind_eq_ok.1 h
  obtain ⟨⟨loc, node⟩, hfound, hlast⟩ := except_bind_eq_ok.1 hrest
  obtain ⟨rfl, hn⟩ := found_eq_ok.1 hfound
  dsimp only at hlast
  split_ifs at hlast with hdot hdots hdir hempty
  have hsegs : p.segments = above ++ [name] := by
    obtain ⟨last, hlast, hpair⟩ := Option.map_eq_some_iff.1 hsplit
    obtain ⟨init, hinit⟩ := List.getLast?_eq_some_iff.1 hlast
    cases hpair
    rw [hinit, List.dropLast_concat]
  have hname : name ≠ "" ∧ '/' ∉ name.toList :=
    Path.name_of_mem_segments (p := p) (by simp [hsegs])
  have hplain : Path.IsPlain name := ⟨hname.1, hname.2, hdot, hdots⟩
  rw [not_not.1 hdir] at hn
  refine ⟨loc, ?_, lstatus_of_entry hsegs hplain he hn, (Except.ok.inj hlast).symm⟩
  obtain ⟨-, dir, -, -, rfl, -⟩ := entry_there hsegs hplain he
  simp

/-- What a path names is not missing when it is to be removed. -/
theorem rmdir_finds {p : Path} {place : Location} (h : fs.lstatus p = .ok (place, .dir)) :
    fs.rmdir p ≠ .error .notFound := by
  obtain ⟨loc, he⟩ := entry_of_lstatus h
  obtain ⟨node, hn⟩ := entry_stands he
  have hfound := found_eq_ok.2 ⟨rfl, hn⟩
  intro hr
  unfold rmdir at hr
  split at hr
  · next hf =>
    cases hr
    simp [entry, hf] at he
  · cases hr
  · simp only [he, bind, Except.bind, hfound] at hr
    split_ifs at hr <;> cases hr

end FileSystem

namespace FileM

open FileSystem

variable {fs fs' : FileSystem} {p : Path} {place : Location}

/-! ## Removing a directory with what is in it -/

theorem removeTree_missing {e : FileError} (h : fs.lstatus p = .error e) :
    removeTree p fs = .error e fs := by
  have hask : ask (·.lstatus p) fs = .error e fs := by rw [ask, h]
  exact bind_error hask

theorem removeTree_found {node : Node} (h : fs.lstatus p = .ok (place, node)) :
    removeTree p fs = match node with
      | .link _ => .ok () (fs.prune place)
      | .file _ => .error .notDirectory fs
      | .dir => unmake p (fs.clear place) := by
  have hask : ask (·.lstatus p) fs = .ok (place, node) fs := ask_eq_ok.2 ⟨h, rfl⟩
  unfold removeTree
  rw [bind_ok hask]
  cases node <;> rfl

/-- What becomes of a directory: it is gone; or it is left empty, where nothing is found under its
path any more, or where it cannot be removed under this path. -/
inductive Removal (p : Path) (fs : FileSystem) (place : Location) :
    EStateM.Result FileError FileSystem Unit → Prop where
  | gone : place ≠ [] → (fs.clear place).lstatus p = .ok (place, .dir) →
      Removal p fs place (.ok () (fs.prune place))
  | lost : (∀ found, (fs.clear place).lstatus p ≠ .ok found) →
      Removal p fs place (.ok () (fs.clear place))
  | kept (e : FileError) : e ≠ .notFound → Removal p fs place (.error e (fs.clear place))

theorem removal (h : fs.lstatus p = .ok (place, .dir)) :
    Removal p fs place (removeTree p fs) := by
  have hsame : ∀ {found}, (fs.clear place).lstatus p = .ok found → found = (place, .dir) := by
    intro found hfound
    have hfs := lstatus_mono (extends_clear fs place) hfound
    rw [h] at hfs
    exact (Except.ok.inj hfs).symm
  rw [removeTree_found h]
  dsimp only [unmake]
  split
  · next fs' hr =>
    obtain ⟨place', hne, hplace, rfl⟩ := rmdir_ok hr
    cases hsame hplace
    rw [prune_clear]
    exact .gone hne hplace
  · next hr =>
    refine .lost fun found hfound => ?_
    rw [hsame hfound] at hfound
    exact rmdir_finds hfound hr
  · next e hkept _ => exact .kept e hkept

/-- Nothing comes of removing but that something is gone. -/
theorem extends_removeTree (p : Path) (fs : FileSystem) : Extends (left (removeTree p fs)) fs := by
  cases h : fs.lstatus p with
  | error e =>
    rw [removeTree_missing h]
    exact .refl fs
  | ok found =>
    obtain ⟨place, node⟩ := found
    cases node with
    | file content =>
      rw [removeTree_found h]
      exact .refl fs
    | link target =>
      rw [removeTree_found h]
      exact extends_prune fs place
    | dir =>
      have hcase := removal h
      generalize removeTree p fs = result at hcase
      cases hcase with
      | gone => exact extends_prune fs place
      | lost => exact extends_clear fs place
      | kept => exact extends_clear fs place

/-- Removing leaves everything that is not at or below the place that is named. -/
theorem outside_removeTree {node : Node} {loc : Location} (h : fs.lstatus p = .ok (place, node))
    (hout : ¬place <+: loc) : (left (removeTree p fs)).node? loc = fs.node? loc := by
  have hprune : (fs.prune place).node? loc = fs.node? loc := by
    rw [node?_prune, if_pos (Or.inr hout)]
  have hclear : (fs.clear place).node? loc = fs.node? loc := by
    rw [node?_clear, if_pos (Or.inr hout)]
  cases node with
  | file content => rw [removeTree_found h, left_error]
  | link target =>
    rw [removeTree_found h]
    exact hprune
  | dir =>
    have hcase := removal h
    generalize removeTree p fs = result at hcase
    cases hcase with
    | gone => exact hprune
    | lost => exact hclear
    | kept => exact hclear

/-- Removing answers that something is missing only where that is so from the start. -/
theorem removeTree_eq_notFound : removeTree p fs = .error .notFound fs' ↔
    fs.lstatus p = .error .notFound ∧ fs' = fs := by
  constructor
  · intro hr
    cases h : fs.lstatus p with
    | error e =>
      rw [removeTree_missing h] at hr
      cases hr
      exact ⟨rfl, rfl⟩
    | ok found =>
      obtain ⟨place, node⟩ := found
      cases node with
      | file content =>
        rw [removeTree_found h] at hr
        cases hr
      | link target =>
        rw [removeTree_found h] at hr
        cases hr
      | dir =>
        have hcase := removal h
        rw [hr] at hcase
        cases hcase with
        | kept _ hne => exact absurd rfl hne
  · rintro ⟨h, rfl⟩
    exact removeTree_missing h

/-- What a path named has been removed: nothing is found under the path, and nothing is left below
the place. The place is free too, unless the path cannot be followed to it once it is empty. -/
structure Removed (p : Path) (fs fs' : FileSystem) (place : Location) (node : Node) : Prop where
  named : fs.lstatus p = .ok (place, node)
  missing : ∀ found, fs'.lstatus p ≠ .ok found
  below : ∀ rest, rest ≠ [] → fs'.node? (place ++ rest) = none
  outside : ∀ loc, ¬place <+: loc → fs'.node? loc = fs.node? loc
  free : fs'.node? place = none ↔ (fs.clear place).lstatus p = .ok (place, node)

/-- What is at a place goes with everything below it. -/
theorem removed_prune {node : Node} (h : fs.lstatus p = .ok (place, node)) (hne : place ≠ [])
    (hstays : (fs.clear place).lstatus p = .ok (place, node)) :
    Removed p fs (fs.prune place) place node := by
  have hgone : ∀ rest, (fs.prune place).node? (place ++ rest) = none := by
    intro rest
    rw [node?_prune, if_neg]
    simp [hne]
  have hplace := hgone []
  rw [List.append_nil] at hplace
  refine ⟨h, fun found hfound => ?_, fun rest _ => hgone rest, fun loc hout => ?_, ?_⟩
  · have hfs := lstatus_mono (extends_prune fs place) hfound
    rw [h] at hfs
    cases hfs
    rw [node?_of_lstatus hfound] at hplace
    cases hplace
  · rw [node?_prune, if_pos (Or.inr hout)]
  · exact iff_of_true hplace hstays

theorem removeTree_eq_ok {u : Unit} (hr : removeTree p fs = .ok u fs') :
    ∃ place node, Removed p fs fs' place node := by
  cases h : fs.lstatus p with
  | error e =>
    rw [removeTree_missing h] at hr
    cases hr
  | ok found =>
    obtain ⟨place, node⟩ := found
    refine ⟨place, node, ?_⟩
    have hn := node?_of_lstatus h
    cases node with
    | file content =>
      rw [removeTree_found h] at hr
      cases hr
    | link target =>
      rw [removeTree_found h] at hr
      cases hr
      refine removed_prune h ?_ ?_
      · rintro rfl
        simp at hn
      · rwa [clear_of_solid (by simp [hn])]
    | dir =>
      have hcase := removal h
      rw [hr] at hcase
      cases hcase with
      | gone hne hstays => exact removed_prune h hne hstays
      | lost hlost =>
        refine ⟨h, hlost, fun rest hrest => ?_, fun loc hout => ?_, ?_⟩
        · rw [node?_clear, if_neg]
          simp [hrest]
        · rw [node?_clear, if_pos (Or.inr hout)]
        · rw [node?_clear, if_pos (Or.inl rfl), hn]
          exact iff_of_false (by simp) (hlost _)

end FileM

end Depot
