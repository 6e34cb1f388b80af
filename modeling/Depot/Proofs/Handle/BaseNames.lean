import Depot.Proofs.Handle.CopyPlaces
import Depot.Proofs.Identity

/-! The search for the name of a base directory. The candidates are tried in order; what is there
already is passed over, and the search ends at the first name that is free, whether or not a
directory can be made under it. -/

namespace Depot

open Work

/-! ## The candidates -/

namespace Text

theorem size_toString (n : Nat) : (toString n).utf8ByteSize = (Nat.toDigits 10 n).length := by
  have hascii : ∀ c ∈ Nat.toDigits 10 n, c.utf8Size = 1 := by
    intro c hc
    have hdigit := Nat.isDigit_of_mem_toDigits (by decide) (by decide) hc
    simp only [Char.isDigit, Bool.and_eq_true, decide_eq_true_eq] at hdigit
    rw [Char.utf8Size_eq_one_iff]
    exact UInt32.le_trans hdigit.2 (by decide)
  have hbytes := congrArg List.length (bytes_ofList hascii)
  rw [List.length_map] at hbytes
  rw [Nat.toString_eq_repr]
  exact hbytes

/-- A larger number has no fewer digits. -/
theorem size_toString_mono {m n : Nat} (h : m ≤ n) :
    (toString m).utf8ByteSize ≤ (toString n).utf8ByteSize := by
  have hpos : 0 < (Nat.toDigits 10 n).length := Nat.length_toDigits_pos
  have hn : n < 10 ^ (Nat.toDigits 10 n).length :=
    (Nat.length_toDigits_le_iff (by decide) hpos).1 (Nat.le_refl _)
  rw [size_toString, size_toString]
  exact (Nat.length_toDigits_le_iff (by decide) hpos).2 (by omega)

end Text

theorem Identity.length_shortHex (id : Identity) : id.shortHex.length = 8 := by
  simp [shortHex, digits, String.length_ofList]

namespace Handle

/-- The name that is tried after `n` others. -/
def candidate (h : Handle) : Nat → String
  | 0 => h.stem
  | n + 1 => h.stem ++ "-" ++ toString (n + 1)

theorem candidates_eq (h : Handle) : h.candidates = (List.range 1000).map h.candidate := by
  have all : ∀ k, h.stem :: (List.range k).map (fun n => h.stem ++ "-" ++ toString (n + 1)) =
      (List.range (k + 1)).map h.candidate := by
    intro k
    rw [List.range_succ_eq_map, List.map_cons, List.map_map]
    rfl
  exact all 999

theorem candidate_text (h : Handle) (n : Nat) : h.candidate n =
    "fs-" ++ Label.sanitize h.label h.settings.labelLimit.toNat ++ "-" ++ h.id.shortHex ++
      if n = 0 then "" else "-" ++ toString n := by
  cases n with
  | zero => simp [candidate, stem]
  | succ n => simp [candidate, stem, String.append_assoc]

theorem isPlain_candidate_of_lt (h : Handle) {n : Nat} (hn : n < 1000) :
    Path.IsPlain (h.candidate n) := by
  apply isPlain_candidate (h := h)
  rw [candidates_eq]
  exact List.mem_map_of_mem (List.mem_range.2 hn)

theorem size_candidate_mono (h : Handle) {m n : Nat} (hmn : m ≤ n) :
    (h.candidate m).utf8ByteSize ≤ (h.candidate n).utf8ByteSize := by
  have hdigits := Text.size_toString_mono hmn
  cases m <;> cases n <;> simp only [candidate, String.utf8ByteSize_append] <;> omega

theorem mem_candidate {h : Handle} {c : Char} (hdash : c ≠ '-') (hdigit : c.isDigit = false)
    (n : Nat) : c ∈ (h.candidate n).toList ↔ c ∈ h.stem.toList := by
  cases n with
  | zero => rfl
  | succ n =>
    have hnumber := Text.notMem_toString hdigit (n + 1)
    rw [candidate, String.toList_append, List.mem_append, String.toList_append, List.mem_append,
      or_iff_left hnumber, or_iff_left (by simpa using hdash)]

end Handle

namespace FileSystem

variable {fs fs' : FileSystem} {root : Path} {dir : Location} {name : String}

theorem reachable_child (hplain : Path.IsPlain name) : Reachable root [name] ↔
    ('\x00' ∉ root.text.toList ∧ '\x00' ∉ name.toList) ∧
      root.text.utf8ByteSize + root.gap.utf8ByteSize + name.utf8ByteSize ≤ longestPath ∧
      name.utf8ByteSize ≤ longestName := by
  have hrelative : (⟨name⟩ : Path).isAbsolute = false := Path.isAbsolute_name hplain.noSlash
  have hne : (root.child name).text ≠ "" := by
    rw [Path.child_eq]
    exact Path.join_ofComponents_ne_empty (by simpa using hplain) (by simp)
  rw [Reachable, ← Path.child_eq, pathFault?_eq_none, and_iff_left hne, Path.child,
    Path.mem_join hrelative (by decide), Path.join_eq hrelative]
  simp only [String.utf8ByteSize_append, List.mem_singleton, forall_eq, not_or, and_assoc]

end FileSystem

namespace Handle

open FileSystem

/-- The later of two candidates is the longer. -/
theorem reachable_candidate {h : Handle} {root : Path} {m n : Nat} (hmn : m ≤ n) (hn : n < 1000)
    (hreach : Reachable root [h.candidate n]) : Reachable root [h.candidate m] := by
  have hsize := h.size_candidate_mono hmn
  obtain ⟨⟨hroot, hname⟩, hlong, hshort⟩ :=
    (reachable_child (h.isPlain_candidate_of_lt hn)).1 hreach
  rw [mem_candidate (by decide) (by decide)] at hname
  refine (reachable_child (h.isPlain_candidate_of_lt (by omega))).2 ⟨⟨hroot, ?_⟩, ?_, ?_⟩
  · rwa [mem_candidate (by decide) (by decide)]
  · omega
  · omega

end Handle

/-! ## A directory under a name -/

namespace FileSystem

variable {fs fs' : FileSystem} {root : Path} {dir : Location} {name : String}

/-- A directory, a file, or a link, which may lead nowhere, has the name. -/
def Taken (fs : FileSystem) (dir : Location) (name : String) : Prop :=
  (fs.node? (dir ++ [name])).isSome

/-- What comes of making a directory in one that is there: it is made unless the path or the name is
too long, or the name is taken. -/
theorem mkdir_child (hplain : Path.IsPlain name) (hl : fs.Leads root dir)
    (hdir : fs.node? dir = some .dir) : fs.mkdir (root.child name) =
      match pathFault? (root.child name) with
      | some e => .error e
      | none =>
        if longestName < name.utf8ByteSize then .error .nameTooLong
        else if (fs.node? (dir ++ [name])).isSome then .error .alreadyExists
        else .ok (fs.add dir name .dir) := by
  have hsplit : (root.child name).split? = some (root.segments, name) := by
    simp [Path.split?, root.segments_child hplain]
  have hmoves : ¬(name = "" ∨ name = ".") := by simp [hplain.nonempty, hplain.notDot]
  rw [Leads] at hl
  unfold mkdir entry
  cases pathFault? (root.child name) with
  | some e => rfl
  | none =>
    simp only [hsplit, hl, walkNames]
    rw [if_neg (not_not.2 hdir), if_neg hmoves, if_neg hplain.notDots, if_neg (by simp)]
    split
    · rfl
    · cases fs.node? (dir ++ [name]) with
      | none => rfl
      | some node => cases node <;> rfl

theorem mkdir_taken (hplain : Path.IsPlain name) (hl : fs.Leads root dir)
    (hdir : fs.node? dir = some .dir) (hreach : Reachable root [name])
    (htaken : fs.Taken dir name) : fs.mkdir (root.child name) = .error .alreadyExists := by
  have hfault : pathFault? (root.child name) = none := by
    rw [Path.child_eq]
    exact hreach.1
  rw [mkdir_child hplain hl hdir, hfault]
  dsimp only
  rw [if_neg (Nat.not_lt.2 (hreach.2 name (by simp)))]
  exact if_pos htaken

theorem pathFault?_ne_alreadyExists (p : Path) : pathFault? p ≠ some .alreadyExists := by
  unfold pathFault?
  split_ifs <;> simp

theorem taken_of_mkdir (hplain : Path.IsPlain name) (hl : fs.Leads root dir)
    (hdir : fs.node? dir = some .dir)
    (h : fs.mkdir (root.child name) = .error .alreadyExists) : fs.Taken dir name := by
  rw [mkdir_child hplain hl hdir] at h
  split at h
  · next e hf =>
    cases h
    exact absurd hf (pathFault?_ne_alreadyExists _)
  · split_ifs at h with hlong htaken
    · cases h
    · exact htaken

/-- A new directory `name` is all that is different: it is in the directory to which `root` leads,
and nothing is in it. -/
structure Gains (root : Path) (dir : Location) (name : String) (fs fs' : FileSystem) : Prop where
  inside : fs'.Leads root dir
  stands : fs'.status (root.child name) = .ok (dir ++ [name], .dir)
  empty : fs'.children (dir ++ [name]) = []
  elsewhere : ∀ loc, loc ≠ dir ++ [name] → fs'.node? loc = fs.node? loc

theorem gains_mkdir (hplain : Path.IsPlain name) (hl : fs.Leads root dir)
    (h : fs.mkdir (root.child name) = .ok fs') :
    Gains root dir name fs fs' ∧ ¬fs.Taken dir name ∧ Reachable root [name] := by
  obtain ⟨dir', last, hdir, hfree, rfl, hs, -, above, hsegs, hw⟩ := mkdir_leads h
  rw [root.segments_child hplain] at hsegs
  obtain ⟨rfl, hlast⟩ := List.append_inj' hsegs rfl
  cases hlast
  cases hl.unique hw
  have hnodes := node?_add .dir hdir hfree
  refine ⟨⟨hl.mono (extends_add .dir hdir hfree).grows, hs, ?_, fun loc hloc => ?_⟩, ?_, ?_⟩
  · rw [List.eq_nil_iff_forall_not_mem]
    intro inner hinner
    rw [mem_children, hnodes, if_neg (by simp), node?_append_of_none hfree] at hinner
    cases hinner
  · rw [hnodes, if_neg hloc]
  · simp [Taken, hfree]
  · exact reachable_of_isDir hplain (isDir_iff.2 ⟨_, hs⟩)

end FileSystem

/-! ## The search -/

namespace FileM

variable {none : FileError} {before rest : List Path} {p : Path} {fs fs' : FileSystem}

theorem claim_made (h : fs.mkdir p = .ok fs') : claim none (p :: rest) fs = .ok p fs' := by
  unfold claim
  rw [h]

theorem claim_passed (h : fs.mkdir p = .error .alreadyExists) :
    claim none (p :: rest) fs = claim none rest fs := by
  conv => lhs; unfold claim
  rw [h]

theorem claim_failed {e : FileError} (h : fs.mkdir p = .error e) (he : e ≠ .alreadyExists) :
    claim none (p :: rest) fs = .error e fs := by
  unfold claim
  rw [h]
  split
  · next hm => cases hm
  · next hm => exact absurd (Except.error.inj hm) he
  · next hm =>
    cases hm
    rfl

/-- What is there is passed over. -/
theorem claim_append (h : ∀ q ∈ before, fs.mkdir q = .error .alreadyExists) :
    claim none (before ++ rest) fs = claim none rest fs := by
  induction before with
  | nil => rfl
  | cons q before ih =>
    rw [List.cons_append, claim_passed (h q (by simp))]
    exact ih fun q' hq' => h q' (by simp [hq'])

/-- Where nothing before can be made, the search goes no further than what fails. -/
theorem claim_stops (h : ∀ q ∈ before, ∀ made, fs.mkdir q ≠ .ok made) {e : FileError}
    (hp : fs.mkdir p = .error e) (he : e ≠ .alreadyExists) :
    ∃ cause, claim none (before ++ p :: rest) fs = .error cause fs := by
  induction before with
  | nil => exact ⟨e, claim_failed hp he⟩
  | cons q before ih =>
    rw [List.cons_append]
    cases hq : fs.mkdir q with
    | ok made => exact absurd hq (h q (by simp) made)
    | error e' =>
      by_cases he' : e' = .alreadyExists
      · rw [claim_passed (he' ▸ hq)]
        exact ih fun q' hq' => h q' (by simp [hq'])
      · exact ⟨e', claim_failed hq he'⟩

theorem claim_none (h : ∀ q ∈ before, ∀ made, fs.mkdir q ≠ .ok made) :
    ∃ cause, claim none before fs = .error cause fs := by
  cases hc : claim none before fs with
  | ok p fs' =>
    obtain ⟨hp, hm⟩ := claim_ok hc
    exact absurd hm (h p hp fs')
  | error e fs' => exact ⟨e, by rw [claim_error hc]⟩

end FileM

namespace Handle

/-- The first candidate whose name is not taken in a directory has the number `n`. -/
structure FirstFree (h : Handle) (fs : FileSystem) (dir : Location) (n : Nat) : Prop where
  offered : n < 1000
  taken : ∀ m < n, fs.Taken dir (h.candidate m)
  free : ¬fs.Taken dir (h.candidate n)

/-- The root is there or can be made, and a directory can be made in it under the first candidate
that is free then. -/
structure Offers (h : Handle) (fs made : FileSystem) (dir : Location) (n : Nat)
    (files : FileSystem) : Prop where
  root : FileM.mkdirAll h.tempRoot fs = .ok () made
  leads : made.Leads h.tempRoot dir
  first : h.FirstFree made dir n
  makes : made.mkdir (h.tempRoot.child (h.candidate n)) = .ok files

/-- The paths that are tried, cut at one of them. -/
theorem paths_eq (h : Handle) {n : Nat} (hn : n < 1000) : ∃ rest,
    h.candidates.map h.tempRoot.child =
      (List.range n).map (fun m => h.tempRoot.child (h.candidate m)) ++
        h.tempRoot.child (h.candidate n) :: rest := by
  obtain ⟨k, hk⟩ : ∃ k, 1000 = n + (k + 1) := ⟨999 - n, by omega⟩
  rw [candidates_eq, hk, List.range_add, List.range_succ_eq_map, List.map_append, List.map_append,
    List.map_map, List.map_cons, List.map_cons, List.map_cons]
  exact ⟨_, rfl⟩

end Handle

namespace HandleM

open FileSystem

variable {s : Scene} {made files : FileSystem} {dir : Location} {n : Nat}

theorem claimBase_eq (hroot : FileM.mkdirAll s.handle.tempRoot s.files = .ok () made) :
    claimBase s = onFiles .files (FileM.claim (.noFreeName s.handle.stem s.handle.tempRoot)
      (s.handle.candidates.map s.handle.tempRoot.child)) { s with files := made } := by
  have hmade : onFiles .files (FileM.mkdirAll s.handle.tempRoot) s =
      .ok () { s with files := made } := onFiles_eq_ok.2 ⟨made, hroot, rfl⟩
  unfold claimBase
  rw [bind_ok (handle_apply s), bind_ok hmade]

theorem claimBase_of_offers (h : s.handle.Offers s.files made dir n files) :
    claimBase s = .ok (s.handle.tempRoot.child (s.handle.candidate n)) { s with files } := by
  have hn := h.first.offered
  have hplain := s.handle.isPlain_candidate_of_lt hn
  obtain ⟨loc, hl, hdir⟩ := FileM.leads_of_mkdirAll h.root
  cases hl.unique h.leads
  obtain ⟨-, -, hreach⟩ := gains_mkdir hplain hl h.makes
  obtain ⟨rest, hpaths⟩ := s.handle.paths_eq hn
  have hbefore : ∀ q ∈ (List.range n).map (fun m => s.handle.tempRoot.child (s.handle.candidate m)),
      made.mkdir q = .error .alreadyExists := by
    intro q hq
    obtain ⟨m, hm, rfl⟩ := List.mem_map.1 hq
    rw [List.mem_range] at hm
    exact mkdir_taken (s.handle.isPlain_candidate_of_lt (by omega)) hl hdir
      (Handle.reachable_candidate (by omega) hn hreach) (h.first.taken m hm)
  rw [claimBase_eq h.root, onFiles_eq_ok]
  refine ⟨files, ?_, rfl⟩
  dsimp only
  rw [hpaths, FileM.claim_append hbefore, FileM.claim_made h.makes]

/-- No candidate is made if all are taken or none can be made under the first that is free. -/
theorem claimBase_of_none (hroot : FileM.mkdirAll s.handle.tempRoot s.files = .ok () made)
    (hl : made.Leads s.handle.tempRoot dir)
    (h : (∀ n < 1000, made.Taken dir (s.handle.candidate n)) ∨
      ∃ n, s.handle.FirstFree made dir n ∧
        ∀ files, made.mkdir (s.handle.tempRoot.child (s.handle.candidate n)) ≠ .ok files) :
    ∃ cause, claimBase s = .error (.files cause) { s with files := made } := by
  have htaken : ∀ {m}, m < 1000 → made.Taken dir (s.handle.candidate m) → ∀ files,
      made.mkdir (s.handle.tempRoot.child (s.handle.candidate m)) ≠ .ok files := by
    intro m hm ht files hmk
    exact (gains_mkdir (s.handle.isPlain_candidate_of_lt hm) hl hmk).2.1 ht
  have hclaim : ∃ cause, FileM.claim (.noFreeName s.handle.stem s.handle.tempRoot)
      (s.handle.candidates.map s.handle.tempRoot.child) made = .error cause made := by
    rcases h with hall | ⟨n, hfirst, hfails⟩
    · apply FileM.claim_none
      intro q hq
      rw [Handle.candidates_eq, List.map_map] at hq
      obtain ⟨m, hm, rfl⟩ := List.mem_map.1 hq
      rw [List.mem_range] at hm
      exact htaken hm (hall m hm)
    · have hn := hfirst.offered
      obtain ⟨rest, hpaths⟩ := s.handle.paths_eq hn
      rw [hpaths]
      cases hmk : made.mkdir (s.handle.tempRoot.child (s.handle.candidate n)) with
      | ok files => exact absurd hmk (hfails files)
      | error e =>
        refine FileM.claim_stops (fun q hq => ?_) hmk ?_
        · obtain ⟨m, hm, rfl⟩ := List.mem_map.1 hq
          rw [List.mem_range] at hm
          exact htaken (by omega) (hfirst.taken m hm)
        · rintro rfl
          obtain ⟨loc, hl', hdir⟩ := FileM.leads_of_mkdirAll hroot
          cases hl'.unique hl
          exact hfirst.free (taken_of_mkdir (s.handle.isPlain_candidate_of_lt hn) hl hdir hmk)
  obtain ⟨cause, hcause⟩ := hclaim
  exact ⟨cause, (claimBase_eq hroot).trans (onFiles_eq_error.2 ⟨cause, made, hcause, rfl, rfl⟩)⟩

/-- A base directory that has been made is the handle's; only copying a source into it can fail. -/
theorem settle_of_claimBase {base : Path} (hnone : s.handle.baseDir? = none)
    (h : claimBase s = .ok base { s with files }) :
    (left (settle s)).handle = { s.handle with storage := .placed base } ∧
      (s.handle.storage = .unassigned → answer (settle s) = .ok base) ∧
      ∀ source count copied, s.handle.storage = .restoring source →
        FileM.copyTree source base s.order files = .ok count copied →
        answer (settle s) = .ok base := by
  have hcase := settleCase s
  generalize settle s = result at hcase
  cases hcase with
  | placed hs => simp [Handle.baseDir?, hs] at hnone
  | unclaimed _ hc => simp [hc] at h
  | claimed hs hc =>
    rw [hc] at h
    cases h
    exact ⟨rfl, fun _ => rfl, fun _ _ _ _ _ => rfl⟩
  | restored hs hc hcopy =>
    rw [hc] at h
    cases h
    exact ⟨rfl, fun _ => rfl, fun _ _ _ _ _ => rfl⟩
  | broken hs hc hcopy =>
    rw [hc] at h
    cases h
    refine ⟨rfl, fun hu => by simp [hs] at hu, fun source count copied hs' hcopy' => ?_⟩
    rw [hs] at hs'
    cases hs'
    rw [hcopy] at hcopy'
    cases hcopy'

/-- The base directory is made under the first candidate that is free in the temporary root, which
is made as well if it is missing. Where no candidate is free, or the first free one cannot be made,
there is nothing new in the root and the handle is as it was; whenever a candidate can be made later
on, the handle gets it then. -/
theorem first_free_base (s : Scene) {made : FileSystem}
    (hroot : FileM.mkdirAll s.handle.tempRoot s.files = .ok () made) :
    s.handle.candidates = (List.range 1000).map s.handle.candidate ∧
    (∀ n, s.handle.candidate n =
      "fs-" ++ Label.sanitize s.handle.label s.handle.settings.labelLimit.toNat ++ "-" ++
        s.handle.id.shortHex ++ if n = 0 then "" else "-" ++ toString n) ∧
    s.handle.id.shortHex.length = 8 ∧
    AddsDirs (s.handle.tempRoot :: s.handle.tempRoot.ancestors) s.files made ∧
    (s.files.isDir s.handle.tempRoot → made = s.files) ∧
    ∃ dir, made.Leads s.handle.tempRoot dir ∧ made.node? dir = some .dir ∧
      (∀ n files, s.handle.FirstFree made dir n →
        made.mkdir (s.handle.tempRoot.child (s.handle.candidate n)) = .ok files →
        claimBase s = .ok (s.handle.tempRoot.child (s.handle.candidate n)) { s with files } ∧
          Gains s.handle.tempRoot dir (s.handle.candidate n) made files) ∧
      ((∀ n < 1000, made.Taken dir (s.handle.candidate n)) ∨
          (∃ n, s.handle.FirstFree made dir n ∧
            ∀ files, made.mkdir (s.handle.tempRoot.child (s.handle.candidate n)) ≠ .ok files) →
        ∃ cause, claimBase s = .error (.files cause) { s with files := made } ∧
          (s.handle.baseDir? = none →
            settle s = .error (.files cause) { s with files := made } ∧
            ∀ later now place n files, s.handle.Offers later now place n files →
              let base := s.handle.tempRoot.child (s.handle.candidate n)
              let result := settle { s with files := later }
              (left result).handle = { s.handle with storage := .placed base } ∧
                (s.handle.storage = .unassigned → answer result = .ok base) ∧
                ∀ source count copied, s.handle.storage = .restoring source →
                  FileM.copyTree source base s.order files = .ok count copied →
                  answer result = .ok base)) := by
  obtain ⟨dir, hl, hdir⟩ := FileM.leads_of_mkdirAll hroot
  refine ⟨s.handle.candidates_eq, s.handle.candidate_text, s.handle.id.length_shortHex,
    Keeps.ok (FileM.addsDirs_mkdirAll _) hroot, fun hthere => ?_, dir, hl, hdir,
    fun n files hfirst hmk => ?_, fun hnone => ?_⟩
  · rw [FileM.mkdirAll_of_isDir hthere] at hroot
    cases hroot
    rfl
  · have hplain := s.handle.isPlain_candidate_of_lt hfirst.offered
    exact ⟨claimBase_of_offers ⟨hroot, hl, hfirst, hmk⟩, (gains_mkdir hplain hl hmk).1⟩
  · obtain ⟨cause, hclaim⟩ := claimBase_of_none hroot hl hnone
    refine ⟨cause, hclaim, fun hbase => ⟨(settle_unclaimed hbase hclaim).1, ?_⟩⟩
    intro later now place n files hoffers
    exact settle_of_claimBase (s := { s with files := later }) hbase (claimBase_of_offers hoffers)

end HandleM

namespace Sample

/-- The first name to try is there, as a link that leads nowhere. -/
def dangling : FileSystem := FileSystem.empty.add [] "fs--00000000" (.link ⟨"/nowhere"⟩)

end Sample

open FileSystem in
theorem HandleM.first_free_base_sample : ∃ files,
    claimBase ⟨Sample.newcomer, Sample.dangling, .byName, [], 0⟩ =
      .ok ⟨"/fs--00000000-1"⟩ ⟨Sample.newcomer, files, .byName, [], 0⟩ ∧
    files.status ⟨"/fs--00000000-1"⟩ = .ok (["fs--00000000-1"], .dir) := by
  have hroot : FileM.mkdirAll Sample.newcomer.tempRoot Sample.dangling = .ok () Sample.dangling :=
    FileM.mkdirAll_of_isDir (by decide +kernel)
  obtain ⟨-, -, -, -, -, dir, hl, -, hfirst, -⟩ :=
    first_free_base ⟨Sample.newcomer, Sample.dangling, .byName, [], 0⟩ hroot
  have hdir : Sample.dangling.status Sample.newcomer.tempRoot = .ok ([], .dir) := by
    decide +kernel
  cases hl.unique (leads_of_status hdir).1
  have hname : Sample.newcomer.candidate 1 = "fs--00000000-1" := by decide +kernel
  have hpath : Sample.newcomer.tempRoot.child "fs--00000000-1" = ⟨"/fs--00000000-1"⟩ := by
    decide +kernel
  have hfree : Sample.newcomer.FirstFree Sample.dangling [] 1 := by
    refine ⟨by decide, fun m hm => ?_, ?_⟩
    · obtain rfl : m = 0 := by omega
      unfold Taken
      decide +kernel
    · unfold Taken
      decide +kernel
  have hmade : Sample.dangling.mkdir
      (Sample.newcomer.tempRoot.child (Sample.newcomer.candidate 1)) =
        .ok (Sample.dangling.add [] "fs--00000000-1" .dir) :=
    mkdir_eq_ok.2 ⟨[], _, by decide +kernel, rfl⟩
  obtain ⟨hclaim, hgains⟩ := hfirst 1 _ hfree hmade
  have hstands := hgains.stands
  dsimp only at hclaim hstands
  rw [hname, hpath] at hclaim hstands
  exact ⟨_, hclaim, hstands⟩

end Depot
