import Depot.Proofs.Files.Trees
import Depot.Proofs.Handle.CopySteps
import Depot.Proofs.Label

/-! Base directories. A new one is made in the temporary root under a name that was free; where a
handle had objects elsewhere before, they are copied into it. -/

namespace Depot

/-! ## Names -/

namespace Label

theorem noSlash_sanitize (label : String) (limit : Nat) : '/' ∉ (sanitize label limit).toList := by
  intro h
  exact absurd (isSafe_iff.2 (safe_of_mem_sanitize h)) (by decide)

end Label

theorem Text.noSlash_hexDigits (width n : Nat) : '/' ∉ hexDigits width n := by
  have all : ∀ n < 16, '/' ≠ hexDigit n := by decide
  induction width generalizing n with
  | zero => simp [hexDigits]
  | succ width ih =>
    intro h
    rcases List.mem_append.1 h with h | h
    · exact ih _ h
    · exact all _ (Nat.mod_lt _ (by omega)) (List.mem_singleton.1 h)

theorem Text.isDigit_of_mem_toString {n : Nat} {c : Char} (h : c ∈ (toString n).toList) :
    c.isDigit := by
  rw [Nat.toString_eq_repr, Nat.toList_repr] at h
  exact Nat.isDigit_of_mem_toDigits (by decide) (by decide) h

theorem Text.notMem_toString {c : Char} (h : c.isDigit = false) (n : Nat) :
    c ∉ (toString n).toList := by
  intro hm
  rw [isDigit_of_mem_toString hm] at h
  cases h

namespace Handle

theorem noSlash_stem (h : Handle) : '/' ∉ h.stem.toList := by
  have hlabel := Label.noSlash_sanitize h.label h.settings.labelLimit.toNat
  have hid : '/' ∉ h.id.shortHex.toList := by
    rw [Identity.shortHex, String.toList_ofList]
    exact fun hm => Text.noSlash_hexDigits _ _ (List.mem_of_mem_take hm)
  simp [stem, hlabel, hid]

theorem head_stem (h : Handle) (rest : String) : (h.stem ++ rest).toList.head? = some 'f' := by
  simp [stem]

theorem isPlain_candidate {h : Handle} {name : String} (hm : name ∈ h.candidates) :
    Path.IsPlain name := by
  have hstem := h.noSlash_stem
  rcases List.mem_cons.1 hm with rfl | hm
  · have hhead := h.head_stem ""
    rw [String.append_empty] at hhead
    exact Path.isPlain_of_head hhead (by decide) hstem
  · obtain ⟨n, -, rfl⟩ := List.mem_map.1 hm
    have hnum := Text.notMem_toString (c := '/') (by decide) (n + 1)
    have hhead := h.head_stem ("-" ++ toString (n + 1))
    rw [← String.append_assoc] at hhead
    apply Path.isPlain_of_head hhead (by decide)
    simp only [String.toList_append, List.mem_append, not_or]
    exact ⟨⟨hstem, by decide⟩, hnum⟩

end Handle

/-! ## Making one -/

theorem FileM.claim_error {none e : FileError} {paths : List Path} {fs fs' : FileSystem}
    (h : claim none paths fs = .error e fs') : fs' = fs := by
  induction paths with
  | nil =>
    cases h
    rfl
  | cons first paths ih =>
    unfold claim at h
    split at h
    · cases h
    · exact ih h
    · cases h
      rfl

theorem FileM.claim_ok {none : FileError} {paths : List Path} {p : Path} {fs fs' : FileSystem}
    (h : claim none paths fs = .ok p fs') : p ∈ paths ∧ fs.mkdir p = .ok fs' := by
  induction paths with
  | nil => cases h
  | cons first paths ih =>
    unfold claim at h
    split at h
    · next hm =>
      cases h
      exact ⟨List.mem_cons_self .., hm⟩
    · obtain ⟨hp, hm⟩ := ih h
      exact ⟨List.mem_cons_of_mem _ hp, hm⟩
    · cases h

namespace HandleM

open FileSystem Work

/-- A new directory in the temporary root. -/
structure NewBase (root base : Path) (fs fs' : FileSystem) (place : Location) : Prop where
  ready : ∃ made dir name, FileM.mkdirAll root fs = .ok () made ∧ made.Leads root dir ∧
    place = dir ++ [name] ∧ Puts dir name .dir made fs' ∧ made.node? place = none ∧
    base = root.child name
  stands : fs'.status base = .ok (place, .dir)

namespace NewBase

variable {root base : Path} {fs fs' : FileSystem} {place : Location}

theorem grows (h : NewBase root base fs fs' place) : Grows fs fs' := by
  obtain ⟨made, _, _, hmade, -, -, hputs, -⟩ := h.ready
  have hadds := Keeps.ok (FileM.addsDirs_mkdirAll root) hmade
  exact hadds.old.grows.trans hputs.fills.grows

theorem fresh (h : NewBase root base fs fs' place) : fs.node? place = none := by
  obtain ⟨made, _, _, hmade, -, -, -, hfree, -⟩ := h.ready
  have hadds := Keeps.ok (FileM.addsDirs_mkdirAll root) hmade
  exact hadds.old.grows.none hfree

theorem empty (h : NewBase root base fs fs' place) (rest : Location) (hrest : rest ≠ []) :
    fs'.node? (place ++ rest) = none := by
  obtain ⟨made, dir, name, -, -, rfl, hputs, hfree, -⟩ := h.ready
  have hbelow := hputs.below hrest
  rw [List.append_assoc, List.singleton_append, hbelow, ← List.singleton_append,
    ← List.append_assoc]
  exact node?_append_of_none hfree rest

theorem fillable (h : NewBase root base fs fs' place) (hnamed : fs.Named) : fs'.Fillable place := by
  obtain ⟨made, dir, name, hmade, -, rfl, hputs, -⟩ := h.ready
  have hadds := Keeps.ok (FileM.addsDirs_mkdirAll root) hmade
  refine ⟨hputs.here, fun rest t hn => ?_, hputs.fills.names (hadds.names hnamed)⟩
  by_cases hrest : rest = []
  · subst hrest
    rw [List.append_nil, hputs.here] at hn
    cases hn
  · rw [h.empty rest hrest] at hn
    cases hn

end NewBase

theorem claimBase_ok {base : Path} {s s' : Scene} (h : claimBase s = .ok base s') :
    (∃ place, NewBase s.handle.tempRoot base s.files s'.files place) ∧
      s' = { s with files := s'.files } := by
  unfold claimBase at h
  simp only [bind_eq_ok, handle_apply, onFiles_eq_ok] at h
  obtain ⟨_, _, hh, _, _, ⟨made, hmade, rfl⟩, fs', hclaim, rfl⟩ := h
  cases hh
  obtain ⟨hp, hm⟩ := FileM.claim_ok hclaim
  obtain ⟨name, hname, rfl⟩ := List.mem_map.1 hp
  have hplain := Handle.isPlain_candidate hname
  obtain ⟨dir, last, hdir, hfree, rfl, hs, -, above, hsegs, hw⟩ := mkdir_leads hm
  have habs := Path.isAbsolute_name hplain.noSlash
  have hself : (⟨name⟩ : Path).segments = [name] :=
    Path.namesIn_name hplain.nonempty hplain.noSlash
  rw [Path.child, Path.segments_join habs, hself] at hsegs
  obtain ⟨rfl, hlast⟩ := List.append_inj' hsegs rfl
  cases hlast
  refine ⟨⟨dir ++ [name], ⟨made, dir, name, hmade, hw, rfl, ?_, hfree, rfl⟩, hs⟩, rfl⟩
  exact puts_add hdir hplain hfree (by simp)

/-- How the base directory came about that a handle works with. -/
inductive Settled (s : Scene) (base : Path) (s' : Scene) : Prop where
  | placed : s.handle.storage = .placed base → s' = s → Settled s base s'
  | claimed {place : Location} : s.handle.storage = .unassigned →
      NewBase s.handle.tempRoot base s.files s'.files place → Settled s base s'
  | restored {source : Path} {fs : FileSystem} {place : Location} {n : Nat} :
      s.handle.storage = .restoring source →
      NewBase s.handle.tempRoot base s.files fs place →
      FileM.copyTree source base s.order fs = .ok n s'.files → Settled s base s'

theorem settled {base : Path} {s s' : Scene} (h : settle s = .ok base s') : Settled s base s' := by
  rw [settle_eq] at h
  cases hb : s.handle.storage with
  | placed b =>
    simp only [hb] at h
    cases h
    exact .placed hb rfl
  | unassigned =>
    simp only [hb, bind_eq_ok, putStorage_apply, report_apply, pure_apply] at h
    obtain ⟨b, s₁, hc, _, _, hu, _, _, hr, hp⟩ := h
    cases hu; cases hr; cases hp
    obtain ⟨⟨place, hnew⟩, -⟩ := claimBase_ok hc
    exact .claimed hb hnew
  | restoring source =>
    simp only [hb, bind_eq_ok, putStorage_apply, report_apply, get_apply, pure_apply] at h
    obtain ⟨b, s₁, hc, _, _, hu, _, _, hr, _, _, hg, n, _, hf, hp⟩ := h
    cases hu; cases hr; cases hg; cases hp
    obtain ⟨files, hcopy, rfl⟩ := onFiles_eq_ok.1 hf
    obtain ⟨⟨place, hnew⟩, hs⟩ := claimBase_ok hc
    have horder : s.order = s₁.order := by rw [hs]
    exact .restored hb hnew (horder ▸ hcopy)

/-! ## Places in it -/

/-- The ways in which making the directory of an index can go. -/
inductive LocateCase (base : Path) (index : UInt64) (s : Scene) :
    EStateM.Result Failure Scene Path → Prop where
  | full {o : Overflow} : s.handle.layout.check index = .error o →
      LocateCase base index s (.error (.overflow o) s)
  | made {dir : Path} {files : FileSystem} : s.handle.layout.check index = .ok () →
      dir = base.join (.ofComponents (s.handle.layout.shard index)) →
      FileM.ensureShard dir s.files = .ok () files →
      LocateCase base index s (.ok dir { s with files })
  | failed {dir : Path} {cause : FileError} {files : FileSystem} :
      s.handle.layout.check index = .ok () →
      dir = base.join (.ofComponents (s.handle.layout.shard index)) →
      FileM.ensureShard dir s.files = .error cause files →
      LocateCase base index s
        (.error (.files cause) { s with files, events := s.events ++ [.shardFailed dir cause] })

theorem locateCase (base : Path) (index : UInt64) (s : Scene) :
    LocateCase base index s (locate base index true s) := by
  unfold locate
  rw [bind_ok (handle_apply s)]
  cases hc : s.handle.layout.check index with
  | error o =>
    have hpath : s.handle.layout.path base index = .error o := by
      rw [Layout.path, Layout.components, hc]
      rfl
    rw [hpath]
    exact .full hc
  | ok u =>
    rw [Layout.path_of_check hc]
    generalize hdir : base.join (.ofComponents (s.handle.layout.shard index)) = dir
    have hpath : check .overflow (.ok dir) s = .ok dir s := rfl
    rw [bind_ok hpath]
    simp only [↓reduceIte]
    cases hf : FileM.ensureShard dir s.files with
    | ok u files =>
      rw [bind_ok (tryCatch_ok (onFiles_eq_ok.2 ⟨files, hf, rfl⟩) _)]
      exact .made hc hdir.symm hf
    | error cause files =>
      rw [bind_error]
      · exact .failed hc hdir.symm hf
      · exact tryCatch_error (onFiles_eq_error.2 ⟨cause, files, hf, rfl, rfl⟩) _

/-- The directory of an index that has one is made, or it was there. -/
theorem locate_made {base dir : Path} {index : UInt64} {s s' : Scene}
    (h : locate base index true s = .ok dir s') : s'.handle = s.handle ∧
      dir = base.join (.ofComponents (s.handle.layout.shard index)) ∧
      AddsDirs (dir :: dir.ancestors) s.files s'.files ∧ s'.files.isDir dir := by
  have hcase := locateCase base index s
  rw [h] at hcase
  cases hcase with
  | made _ hdir hf =>
    have hplain : ∀ name ∈ s.handle.layout.shard index, Path.IsPlain name := fun _ hn =>
      Layout.isPlain_of_mem_shard hn
    have hne := Path.join_ofComponents_ne_empty (p := base) hplain
      (s.handle.layout.shard_ne_nil index)
    rw [← hdir] at hne
    exact ⟨rfl, hdir, Keeps.ok (FileM.addsDirs_ensureShard _) hf, FileM.isDir_of_ensureShard hne hf⟩

/-- The place of an index that has one cannot be made only because of the files. -/
theorem locate_error {base : Path} {index : UInt64} {e : Failure} {s s' : Scene}
    (hcheck : s.handle.layout.check index = .ok ()) (h : locate base index true s = .error e s') :
    ∃ dir cause files, e = .files cause ∧
      s' = { s with files, events := s.events ++ [.shardFailed dir cause] } := by
  have hcase := locateCase base index s
  rw [h] at hcase
  cases hcase with
  | full hfull =>
    rw [hcheck] at hfull
    cases hfull
  | failed => exact ⟨_, _, _, rfl, rfl⟩

/-- How the place of a copy was reserved: a base directory was settled on after the content had been
written out, and the directory of the key's index made in it. -/
structure Reserved (store : FileStore) (flush : FileM Unit) (key : Key) (target : Path)
    (s s' : Scene) (base : Path) (ready : Scene) : Prop where
  settled : ∃ files, flush s.files = .ok () files ∧
    settle { s with files, flushes := s.flushes + 1 } = .ok base ready
  handle : s'.handle =
    { s.handle with storage := .placed base, nextIndex := s.handle.nextIndex + 1 }
  owner : key.owner = s.handle.id
  room : s.handle.layout.check key.index = .ok ()
  adds : AddsDirs (base.join (.ofComponents (s.handle.layout.shard key.index)) ::
    (base.join (.ofComponents (s.handle.layout.shard key.index))).ancestors) ready.files s'.files
  shard : s'.files.isDir (base.join (.ofComponents (s.handle.layout.shard key.index)))
  place : target = base.join (.ofComponents (s.handle.layout.names key))

theorem reserve_made {store : FileStore} {flush : FileM Unit} {key : Key} {target : Path}
    {s s' : Scene} (h : reserve store flush s = .ok (key, target) s') :
    ∃ base ready, Reserved store flush key target s s' base ready := by
  obtain ⟨files, base, dir, hflush, ha, hs, hp, rfl⟩ := reserve_eq_ok h
  obtain ⟨-, hk, hroom, base', ready, _, s₂, hsettle, hlocate, rfl⟩ := allocate_eq_ok.1 ha
  obtain ⟨hsame, rfl, hadds, hdir⟩ := locate_made hlocate
  obtain ⟨howner, hindex, -, -⟩ := Key.make_ok hk
  have hready := settle_ok hsettle
  have hlayout : ready.handle.layout = s.handle.layout := by rw [hready]
  dsimp only at hs hp hroom hadds hdir
  rw [hsame, hready] at hs hp
  obtain rfl : base' = base := by
    cases hs
    rfl
  rw [← hindex] at hroom hadds hdir
  rw [hlayout] at hadds hdir
  have hpath := Layout.path_of_check hroom base'
  rw [hp] at hpath
  cases hpath
  refine ⟨base', ready, ⟨files, hflush, hsettle⟩, ?_, howner, hroom, hadds, hdir,
    Layout.child_path ..⟩
  rw [hsame, hready]

theorem objectPath_of_restore {key : Key} {base : Path} {s s' : Scene}
    (howner : key.owner = s.handle.id) (hrestore : restore s = .ok () s')
    (hs : s'.handle.storage = .placed base) (hcheck : s'.handle.layout.check key.index = .ok ()) :
    objectPath key s = .ok (base.join (.ofComponents (s'.handle.layout.names key))) s' := by
  have hneed : needBase s' = .ok base s' := needBase_eq_ok.2 ⟨Handle.baseDir?_eq_some.2 hs, rfl⟩
  have hlocate := locate_lookup (Layout.path_of_check hcheck base)
  have hrest : (do
      restore
      let dir ← locate (← needBase) key.index false
      return dir.child key.name.text : HandleM Path) s =
        .ok (base.join (.ofComponents (s'.handle.layout.names key))) s' := by
    rw [bind_ok hrestore, bind_ok hneed, bind_ok hlocate, Layout.child_path]
    rfl
  unfold objectPath
  rw [bind_ok (handle_apply s), if_neg (not_not.2 howner)]
  exact hrest

theorem objectPath_placed {key : Key} {base : Path} {s : Scene} (howner : key.owner = s.handle.id)
    (hs : s.handle.storage = .placed base)
    (hcheck : s.handle.layout.check key.index = .ok ()) : objectPath key s =
      .ok (base.join (.ofComponents (s.handle.layout.names key))) s := by
  refine objectPath_of_restore howner ?_ hs hcheck
  unfold restore
  rw [bind_ok (handle_apply s), Handle.isRestoring, hs]
  rfl

/-- The first object that is looked up has everything copied first. -/
theorem objectPath_restoring {key : Key} {base source : Path} {s s' : Scene}
    (howner : key.owner = s.handle.id) (hs : s.handle.storage = .restoring source)
    (hcheck : s.handle.layout.check key.index = .ok ()) (h : settle s = .ok base s') :
    objectPath key s = .ok (base.join (.ofComponents (s.handle.layout.names key))) s' := by
  have hplaced := settle_ok h
  have hlayout : s'.handle.layout = s.handle.layout := by rw [hplaced]
  rw [← hlayout] at hcheck ⊢
  refine objectPath_of_restore howner ?_ (by rw [hplaced]) hcheck
  unfold restore
  rw [bind_ok (handle_apply s), Handle.isRestoring, hs]
  exact bind_ok h

theorem restore_ok {source : Path} {s s' : Scene} {u : Unit}
    (hs : s.handle.storage = .restoring source) (h : restore s = .ok u s') :
    ∃ base, settle s = .ok base s' := by
  unfold restore at h
  rw [bind_ok (handle_apply s), if_pos (by rw [Handle.isRestoring, hs])] at h
  obtain ⟨base, s₁, hsettle, hp⟩ := bind_eq_ok.1 h
  cases hp
  exact ⟨base, hsettle⟩

theorem ensureRestored_ok {source : Path} {s s' : Scene} {u : Unit}
    (hs : s.handle.storage = .restoring source) (h : ensureRestored s = .ok u s') :
    ∃ base, settle s = .ok base s' := by
  obtain ⟨_, _, hlive, hrestore⟩ := bind_eq_ok.1 h
  obtain ⟨-, rfl⟩ := refuseDisposed_eq_ok.1 hlive
  exact restore_ok hs hrestore

end HandleM

end Depot
