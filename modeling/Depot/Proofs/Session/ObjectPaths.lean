import Depot.Proofs.Handle.CopyFailures
import Depot.Proofs.Json.Keys
import Depot.Proofs.Session.Ownership

/-! Where objects lie. What a path adds to a base directory are numerals and a name that is allowed,
so it leads down from the base directory and nowhere else. -/

namespace Depot

open Work

/-- The path goes from the base directory through these directories to the name. -/
structure Layout.Leads (l : Layout) (base : Path) (dirs : List String) (name : String)
    (path : Path) : Prop where
  text : path.text = base.text ++ base.gap ++ String.intercalate "/" (dirs ++ [name])
  segments : path.segments = base.segments ++ (dirs ++ [name])
  depth : dirs.length = l.depth.toNat
  digits : ∀ dir ∈ dirs, dir.length = l.width ∧ ∀ c ∈ dir.toList, Text.isDecimal c
  plain : ∀ part ∈ dirs ++ [name], Path.IsPlain part
  relative : ∀ part ∈ dirs ++ [name], (⟨part⟩ : Path).isAbsolute = false

namespace Layout

variable {l : Layout} {base dir : Path} {index : UInt64}

theorem digits_of_mem_shard {name : String} (h : name ∈ l.shard index) :
    name.length = l.width ∧ ∀ c ∈ name.toList, Text.isDecimal c := by
  obtain ⟨digit, -, rfl⟩ := List.mem_map.1 h
  rw [String.toList_ofList, String.length_ofList, Text.length_decimalDigits]
  exact ⟨rfl, fun c hc => Text.isDecimal_of_mem hc⟩

theorem path_eq_ok (h : l.path base index = .ok dir) :
    dir = base.join (.ofComponents (l.shard index)) := by
  cases hc : l.check index with
  | ok u =>
    rw [path_of_check hc] at h
    cases h
    rfl
  | error o =>
    rw [path, components, hc] at h
    cases h

theorem leads_names (l : Layout) (base : Path) (key : Key) : l.Leads base (l.shard key.index)
    key.name.text (base.join (.ofComponents (l.names key))) := by
  have hplain : ∀ part ∈ l.names key, Path.IsPlain part := fun _ hp => isPlain_of_mem_names hp
  have habs := Path.isAbsolute_ofComponents hplain
  exact {
    text := by
      rw [Path.join_eq habs]
      rfl
    segments := by rw [Path.segments_join habs, Path.segments_ofComponents hplain, names]
    depth := by rw [shard, List.length_map, length_groupDigits]
    digits := fun _ hd => digits_of_mem_shard hd
    plain := hplain
    relative := fun part hp => Path.isAbsolute_name (hplain part hp).noSlash }

end Layout

namespace HandleM

variable {key : Key} {path : Path} {s s' : Scene}

theorem lookUp_ok (h : lookUp key s = .ok path s') : s' = s ∧ ∃ base,
    s.handle.baseDir? = some base ∧ path = base.join (.ofComponents (s.handle.layout.names key)) := by
  rw [lookUp_apply] at h
  split at h
  · cases h
  next base hbase =>
    split at h
    · next dir hpath =>
      cases h
      refine ⟨rfl, base, hbase, ?_⟩
      rw [Layout.path_eq_ok hpath, Layout.child_path]
    · cases h

theorem objectPath_found {base : Path} (hbase : s.handle.baseDir? = some base)
    (howner : key.owner = s.handle.id) (hroom : key.index ≤ s.handle.layout.maxIndex) :
    ∃ path, objectPath key s = .ok path s :=
  ⟨_, objectPath_placed howner (Handle.baseDir?_eq_some.1 hbase) (Layout.check_eq_ok.2 hroom)⟩

/-- What is found is an object of the handle, and lies below the base directory that the handle has
and does not lose by being asked. -/
theorem objectPath_leads (h : objectPath key s = .ok path s') : key.owner = s.handle.id ∧
    ∃ base dirs, s'.handle.baseDir? = some base ∧
      (∀ before, s.handle.baseDir? = some before → base = before) ∧
      s.handle.layout.Leads base dirs key.name.text path := by
  have hk : key.owner = s.handle.id := by
    by_contra hk
    rw [objectPath_of_foreign hk] at h
    cases h
  have hconsumes := objectPath_left hk
  rw [h, left_ok] at hconsumes
  rw [objectPath_eq hk] at h
  obtain ⟨_, s₁, -, hfound⟩ := bind_eq_ok.1 h
  obtain ⟨rfl, base, hbase, rfl⟩ := lookUp_ok hfound
  refine ⟨hk, base, s.handle.layout.shard key.index, hbase, ?_, ?_⟩
  · intro before hbefore
    -- a handle that waits for a source has no base directory yet
    rcases hconsumes with hsame | ⟨source, _, hsource, -⟩
    · rw [hsame, hbefore] at hbase
      cases hbase
      rfl
    · rw [Handle.baseDir?, hsource] at hbefore
      cases hbefore
  · have hlayout : s'.handle.layout = s.handle.layout := by
      rcases hconsumes with hsame | ⟨_, _, -, hplaced⟩
      · rw [hsame]
      · rw [hplaced]
    rw [hlayout]
    exact Layout.leads_names _ _ _

end HandleM

/-- A key that a turn makes has the name that was asked for, or that of a copy. -/
theorem Turn.minted_name {t : Turn} {h : Handle} {key : Key} (hk : t.minted? h = some key) :
    t.request = .create key.name.text ∨ (∃ loop, t.request = .createInLoop key.name.text loop) ∨
      ∃ store flush, t.asked? h = some (store, flush) ∧ key.name.text = h.copyName store.key := by
  rcases made_for hk with ⟨names, -, hmakes, -⟩ | ⟨store, flush, ha, hname⟩
  · generalize t.request = request at hmakes
    cases hmakes with
    | alone => exact Or.inl rfl
    | looped => exact Or.inr (Or.inl ⟨_, rfl⟩)
  · exact Or.inr (Or.inr ⟨store, flush, ha, hname⟩)

namespace SessionM

variable {slot : String} {held : Held} {key : Key} {store : FileStore} {s s' : Session}

theorem fileStore_leads (h : fileStore slot held key s = .ok store s') : store.key = key ∧
    ∃ slot' owner now base dirs, s.owner? slot held key = some (slot', owner) ∧
      key.owner = owner.handle.id ∧ s'.held[slot']? = some now ∧
      now.handle.baseDir? = some base ∧
      (∀ before, owner.handle.baseDir? = some before → base = before) ∧
      owner.handle.layout.Leads base dirs key.name.text store.path := by
  cases ho : s.owner? slot held key with
  | none =>
    rw [fileStore_of_unknown ho] at h
    cases h
  | some found =>
    obtain ⟨slot', owner⟩ := found
    rw [fileStore_of_owner ho] at h
    obtain ⟨path, s₁, hpath, h⟩ := bind_eq_ok.1 h
    cases h
    obtain ⟨scene, hscene, rfl⟩ := onHandle_eq_ok.1 hpath
    obtain ⟨hk, base, dirs, hbase, hkept, hleads⟩ := HandleM.objectPath_leads hscene
    exact ⟨rfl, slot', owner, _, base, dirs, rfl, hk, Std.ExtTreeMap.getElem?_insert_self, hbase, hkept,
      hleads⟩

end SessionM

/-- Objects lie below base directories. A name is refused if and only if it breaks a rule, and no
key comes to have such a name, whether it is put together, read, or made by a handle: one that is
read has the very name that the text gives it, one that is made the name that was asked for or that
of a copy. An object of a handle with a base directory has a path, and whatever path it has leads
from the base directory of its owner through as many directories as the layout is deep, named by
digits alone, to the name, and no part of it is empty, stays, goes back or begins anew. -/
theorem object_paths_confined :
    (∀ name, (∃ e, ObjectName.ofString name = .error e) ↔ ¬ ObjectName.Allowed name) ∧
    (∀ key : Key, ObjectName.Allowed key.name.text) ∧
    (∀ name, ¬ ObjectName.Allowed name → ∃ fault : NameFault, fault.Breaks name ∧
      (∀ owner index loop, Key.make owner index loop name = .error ⟨name, fault⟩) ∧
      ∀ loop? s, HandleM.newObject name loop? s = .error (.badName ⟨name, fault⟩) s) ∧
    (∀ owner index loop name, ObjectName.Allowed name →
      ∃ key, Key.make owner index loop name = .ok key ∧ key.name.text = name) ∧
    (∀ text key, Json.readText Key.reader text = .ok key → ∀ name,
      Key.Named name (Json.ofList text.toList).1 ↔ name = key.name.text) ∧
    (∀ (t : Turn) (h : Handle) (key : Key), t.minted? h = some key →
      t.request = .create key.name.text ∨ (∃ loop, t.request = .createInLoop key.name.text loop) ∨
      ∃ store flush, t.asked? h = some (store, flush) ∧ key.name.text = h.copyName store.key) ∧
    (∀ key s base, s.handle.baseDir? = some base → key.owner = s.handle.id →
      key.index ≤ s.handle.layout.maxIndex → ∃ path, HandleM.objectPath key s = .ok path s) ∧
    (∀ key s path s', HandleM.objectPath key s = .ok path s' → key.owner = s.handle.id ∧
      ∃ base dirs, s'.handle.baseDir? = some base ∧
        (∀ before, s.handle.baseDir? = some before → base = before) ∧
        s.handle.layout.Leads base dirs key.name.text path) ∧
    ∀ slot held key s store s', SessionM.fileStore slot held key s = .ok store s' →
      store.key = key ∧ ∃ slot' owner now base dirs,
        s.owner? slot held key = some (slot', owner) ∧ key.owner = owner.handle.id ∧
        s'.held[slot']? = some now ∧ now.handle.baseDir? = some base ∧
        (∀ before, owner.handle.baseDir? = some before → base = before) ∧
        owner.handle.layout.Leads base dirs key.name.text store.path := by
  refine ⟨fun name => ObjectName.refused_iff, fun key => key.name.allowed, ?_,
    fun owner index loop name ha =>
      ⟨_, Key.make_of_sound (nameFault?_eq_none.2 ha) owner index loop, rfl⟩,
    fun text key => Key.named_of_readText, fun t h key => Turn.minted_name,
    fun key s base => HandleM.objectPath_found, fun key s path s' => HandleM.objectPath_leads,
    fun slot held key s store s' => SessionM.fileStore_leads⟩
  intro name hname
  obtain ⟨fault, hbreaks, hf⟩ := ObjectName.fault_of_not_allowed hname
  refine ⟨fault, hbreaks, fun owner index loop => Key.make_of_fault hf owner index loop, ?_⟩
  intro loop? s
  apply HandleM.newObject_refused
  rw [Handle.refusal?, hf]

theorem object_paths_confined_sample : ∃ path dirs,
    HandleM.objectPath Sample.copy ⟨Sample.handle, Sample.files, .byName, [], 0⟩ =
      .ok path ⟨Sample.handle, Sample.files, .byName, [], 0⟩ ∧
    Sample.handle.layout.Leads ⟨"/b"⟩ dirs "0_a" path := by
  obtain ⟨-, -, -, -, -, -, hhas, hleads, -⟩ := object_paths_confined
  obtain ⟨path, hpath⟩ := hhas Sample.copy ⟨Sample.handle, Sample.files, .byName, [], 0⟩ ⟨"/b"⟩ rfl
    rfl (by decide +kernel)
  obtain ⟨-, base, dirs, hbase, -, hdirs⟩ := hleads _ _ _ _ hpath
  cases hbase
  exact ⟨path, dirs, hpath, hdirs⟩

end Depot
