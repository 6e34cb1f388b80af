import Depot.Proofs.Handle.Memory
import Depot.Proofs.Handle.Renewals
import Depot.Proofs.Json.Saved
import Depot.Proofs.Session.Acts
import Depot.Session.Run

/-! Handles restored from what was kept of them. The objects of the old base directory are found at
the same places of the new one, and new keys come after the old ones. -/

namespace Depot

open FileSystem Work

/-! ## Taking a handle up again -/

theorem Settings.validate_of_same {a b : Settings} {layout : Layout}
    (ha : a.validate = .ok layout) (hfanout : b.fanout = a.fanout) (hdepth : b.depth = a.depth)
    (hlimit : b.copyLimit ≠ 0) : b.validate = .ok layout := by
  unfold validate at ha ⊢
  rw [if_neg hlimit]
  split at ha
  · cases ha
  · rw [← ha, Settings.layout, Settings.layout, hfanout, hdepth]

namespace Session

theorem run?_drop {s : Session} {slot : String} {held : Held} (h : s.held[slot]? = some held) :
    s.run? (.drop slot) = some (.flag true, { s with held := s.held.erase slot }) := by
  simp only [run?, h]
  rfl

end Session

namespace SessionM

/-- An identity that is neither retired nor in use can be taken up. -/
theorem takeUp_free (slot : String) (storage : Storage) {registry : String} {settings : Settings}
    {saved : SavedHandle} {layout : Layout} {s : Session} (hvalid : settings.validate = .ok layout)
    (hretired : saved.id ∉ (s.registry registry).retired)
    (hfree : ∀ ticket, (s.registry registry).entries[saved.id]? = some ticket →
      s.alive ticket = false) : ∃ h s',
      takeUp slot registry settings saved storage s = .ok h s' ∧
      s'.held[slot]? = some ⟨s.issued, registry, h⟩ ∧ s'.files = s.files ∧
      h.tempRoot = settings.tempRoot.getD s.systemTemp ∧ h.storage = storage ∧
      h.layout = layout := by
  have hcase := takeUpCase slot registry settings saved storage s
  have hregister := Registry.registerCase s.alive (s.registry registry) saved.id s.issued
  generalize takeUp slot registry settings saved storage s = result at hcase ⊢
  cases hcase with
  | invalid hv =>
    rw [hvalid] at hv
    cases hv
  | refused _ hr =>
    rw [hr] at hregister
    cases hregister with
    | retired hgone => exact absurd (Registry.isRetired_iff.1 hgone) hretired
    | taken _ htaken =>
      obtain ⟨ticket, hticket⟩ := Option.isSome_iff_exists.1 htaken
      obtain ⟨hentry, halive⟩ := Registry.resolve_eq_some.1 hticket
      rw [hfree ticket hentry] at halive
      cases halive
  | entered hv =>
    rw [hvalid] at hv
    cases hv
    exact ⟨_, _, rfl, Std.ExtTreeMap.getElem?_insert_self, rfl, rfl, rfl, rfl⟩

/-- Where the object of a key is, for the handle that it names. -/
theorem fileStore_own {slot : String} {held : Held} {key : Key} {path : Path} {s : Session}
    {scene : Scene} (howner : key.owner = held.handle.id)
    (h : HandleM.objectPath key ⟨held.handle, s.files, s.order, s.events, s.flushes⟩ =
      .ok path scene) :
    fileStore slot held key s = .ok ⟨key, path⟩ { s with
      files := scene.files
      held := s.held.insert slot { held with handle := scene.handle }
      events := scene.events
      flushes := scene.flushes } := by
  have hs : s.owner? slot held key = some (slot, held) := if_pos howner
  rw [fileStore_of_owner hs]
  exact bind_ok (onHandle_eq_ok.2 ⟨scene, h, rfl⟩)

end SessionM

/-! ## Keys across a restart -/

/-- Where a restored handle finds an object: the first time, when everything is copied, and after
that. -/
theorem SessionM.fileStore_restored {slot : String} {held : Held} {source : Path}
    {s s' : Session} (hsource : held.handle.storage = .restoring source)
    (h : onHandle slot held HandleM.ensureRestored s = .ok () s') : ∃ base held',
      s'.held[slot]? = some held' ∧ held'.handle = { held.handle with storage := .placed base } ∧
      (∃ scene,
        HandleM.settle ⟨held.handle, s.files, s.order, s.events, s.flushes⟩ = .ok base scene ∧
        s'.files = scene.files) ∧
      ∀ key : Key, key.owner = held.handle.id →
        held.handle.layout.check key.index = .ok () →
        let path := base.join (.ofComponents (held.handle.layout.names key))
        fileStore slot held key s = .ok ⟨key, path⟩ s' ∧
          fileStore slot held' key s' = .ok ⟨key, path⟩ s' := by
  obtain ⟨scene, hensure, rfl⟩ := onHandle_eq_ok.1 h
  obtain ⟨base, hsettle⟩ := HandleM.ensureRestored_ok hsource hensure
  have hplaced := HandleM.settle_ok hsettle
  have hheld : (s.held.insert slot { held with handle := scene.handle })[slot]? =
      some { held with handle := scene.handle } := Std.ExtTreeMap.getElem?_insert_self
  refine ⟨base, { held with handle := scene.handle }, hheld, hplaced, ⟨scene, hsettle, rfl⟩, ?_⟩
  intro key howner hcheck path
  refine ⟨fileStore_own howner (HandleM.objectPath_restoring howner hsource hcheck hsettle), ?_⟩
  let after : Scene := ⟨scene.handle, scene.files, s.order, scene.events, scene.flushes⟩
  have hagain : HandleM.objectPath key after = .ok path after := by
    have hid : scene.handle.id = held.handle.id := by rw [hplaced]
    have hlayout : scene.handle.layout = held.handle.layout := by rw [hplaced]
    have hpath := HandleM.objectPath_placed (s := after) (howner.trans hid.symm) (by rw [hplaced])
      (by rw [hlayout]; exact hcheck)
    rwa [hlayout] at hpath
  have howner' : key.owner = scene.handle.id := by rw [hplaced]; exact howner
  refine (fileStore_own howner' hagain).trans ?_
  simp only [after, Session.insert_same hheld]

/-- Keys survive a restart. A handle is dropped and restored from the text of what was kept of it
once it had made its last key, with its base directory as the source. When everything is copied,
and making the temporary root has left that directory alone, each of its keys leads to the same
place of the new base directory as it did of the old one, and to the same content. Every new key
comes after all of them. -/
theorem keys_survive_restart {h₀ : Handle} (hadm : h₀.Admitted) {earlier later : List Turn}
    (hlast : (h₀.after earlier).minted later = [])
    {s : Session} {slot : String} {old : Held} {source : Path} {b : Location}
    (hheld : s.held[slot]? = some old) (hold : old.handle = h₀.after (earlier ++ later))
    (hplaced : old.handle.storage = .placed source)
    (hstatus : s.files.status source = .ok (b, .dir)) (hfree : s.files.LinkFree b)
    (hnamed : s.files.Named) (slot' : String) {registry : String} {settings : Settings}
    (hfanout : settings.fanout = h₀.settings.fanout) (hdepth : settings.depth = h₀.settings.depth)
    (hlimit : settings.copyLimit ≠ 0) (hretired : (s.registry registry).isRetired h₀.id = false)
    (hunique : ∀ ticket, (s.registry registry).entries[h₀.id]? = some ticket →
      ∀ other (held : Held), s.held[other]? = some held → held.ticket = ticket → other = slot)
    (hroot : s.files.StaysOut (settings.tempRoot.getD s.systemTemp) b) :
    ∃ s₁ saved h s₂ held, s.run? (.drop slot) = some (.flag true, s₁) ∧
      Json.readText SavedHandle.reader (Json.compact (h₀.after earlier).saved.toJson) =
        .ok saved ∧
      SessionM.restore slot' registry settings saved source s₁ = .ok h s₂ ∧
      s₂.held[slot']? = some held ∧ held.handle = h ∧
      (∀ s₃, SessionM.onHandle slot' held HandleM.ensureRestored s₂ = .ok () s₃ →
        ∃ base held', s₃.held[slot']? = some held' ∧ held'.handle.baseDir? = some base ∧
          ∀ key ∈ h₀.minted (earlier ++ later), ∃ place : Path, place.isAbsolute = false ∧
            answer (SessionM.fileStore slot old key s) = .ok ⟨key, source.join place⟩ ∧
            SessionM.fileStore slot' held key s₂ = .ok ⟨key, base.join place⟩ s₃ ∧
            SessionM.fileStore slot' held' key s₃ = .ok ⟨key, base.join place⟩ s₃ ∧
            s₃.files.treeAt (base.join place) = s.files.treeAt (source.join place)) ∧
      ∀ turns, ∀ key ∈ h₀.minted (earlier ++ later), ∀ key' ∈ h.minted turns,
        key.index < key'.index := by
  have hsame := h₀.after_same (earlier ++ later)
  have hsaved := h₀.after_same earlier
  have hvalid := Settings.validate_of_same hadm.valid hfanout hdepth hlimit
  have hid : (h₀.after earlier).saved.id = h₀.id := hsaved.id
  have hnone : ∀ ticket, (s.registry registry).entries[h₀.id]? = some ticket →
      Session.alive { s with held := s.held.erase slot } ticket = false := by
    intro ticket ht
    rw [← Bool.not_eq_true, Session.alive_iff]
    rintro ⟨other, held, hother, hticket⟩
    rw [Std.ExtTreeMap.getElem?_erase] at hother
    split at hother
    · cases hother
    · next hne =>
      have heq := hunique ticket ht other held hother hticket
      exact hne (by rw [heq]; exact Std.ReflOrd.compare_self)
  have hretired' : (h₀.after earlier).saved.id ∉ (s.registry registry).retired := by
    intro hm
    rw [hid] at hm
    rw [Registry.isRetired, Std.ExtTreeSet.contains_iff_mem.2 hm] at hretired
    cases hretired
  obtain ⟨h, s₂, htake, hheld₂, hfiles, htemp, hstorage, hlayout⟩ :=
    SessionM.takeUp_free slot' (.restoring source)
      (s := { s with held := s.held.erase slot }) hvalid hretired' (by rw [hid]; exact hnone)
  obtain ⟨_, -, hh⟩ := SessionM.takeUp_ok htake
  have hhid : h.id = h₀.id := by rw [hh, ← hid]
  have hnext : h.nextIndex = (h₀.after earlier).nextIndex := by rw [hh]; rfl
  refine ⟨_, _, h, s₂, _, Session.run?_drop hheld, SavedHandle.readText_compact _, htake, hheld₂,
    rfl, ?_, ?_⟩
  · intro s₃ hensure
    obtain ⟨base, held', hheld₃, hplaced', ⟨scene, hsettle, hfiles₃⟩, hfound⟩ :=
      SessionM.fileStore_restored hstorage hensure
    refine ⟨base, held', hheld₃, by rw [hplaced']; rfl, ?_⟩
    intro key hkey
    obtain ⟨howner, -, -⟩ := Handle.minted_bounds hkey
    have hcheck := Handle.check_of_minted hkey
    have hplain : ∀ name ∈ h₀.layout.names key, Path.IsPlain name := fun name hn =>
      Layout.isPlain_of_mem_names hn
    have hnames := h₀.layout.names_ne_nil key
    obtain ⟨hfirst, hagain⟩ := hfound key (howner.trans hhid.symm) (by rw [hlayout]; exact hcheck)
    rw [hlayout] at hfirst hagain
    refine ⟨.ofComponents (h₀.layout.names key), Path.isAbsolute_ofComponents hplain, ?_, hfirst,
      hagain, ?_⟩
    · have hlayout' : old.handle.layout = h₀.layout := by rw [hold, hsame.layout]
      have howner' : key.owner = old.handle.id := by rw [hold, hsame.id, howner]
      have hpath := HandleM.objectPath_placed
        (s := ⟨old.handle, s.files, s.order, s.events, s.flushes⟩) howner' hplaced
        (by rw [hlayout']; exact hcheck)
      rw [SessionM.fileStore_own howner' hpath, hlayout']
      rfl
    · rw [hfiles₃]
      have htree := HandleM.treeAt_restored hstorage
        (by rw [hfiles]; exact hstatus) (by rw [hfiles]; exact hfree)
        (by rw [hfiles]; exact hnamed) (by rw [hfiles, htemp]; exact hroot) hsettle hplain hnames
      rwa [hfiles] at htree
  · intro turns key hkey key' hkey'
    rw [Handle.minted_append, hlast, List.append_nil] at hkey
    obtain ⟨-, -, hlt⟩ := Handle.minted_bounds hkey
    obtain ⟨-, hle, -⟩ := Handle.minted_bounds hkey'
    rw [hnext] at hle
    rw [UInt64.lt_iff_toNat_lt]
    omega

namespace Sample

/-- The session when a handle has made one copy. -/
def stored : Session :=
  { session with files := kept, held := session.held.insert "h" ⟨0, "", handle.after [ask 0]⟩ }

theorem kept_staysOut : kept.StaysOut ⟨"/"⟩ ["b"] := by
  intro made hmade
  rw [FileM.mkdirAll_of_isDir (by decide +kernel)] at hmade
  cases hmade
  refine ⟨fun loc hl => ?_, fun rest => rfl⟩
  have hself : (⟨"/"⟩ : Path).segments = [] := by decide +kernel
  rw [Leads, hself, walk_nil] at hl
  cases hl
  decide

/-- The handle dropped, restored and with everything copied. -/
def recovered : Option Session :=
  match stored.run? (.drop "h") with
  | none => none
  | some (_, s₁) =>
    match SessionM.restore "h" "" handle.settings (handle.after [ask 0]).saved ⟨"/b"⟩ s₁ with
    | .error _ _ => none
    | .ok _ s₂ =>
      match s₂.held["h"]? with
      | none => none
      | some held =>
        match SessionM.onHandle "h" held HandleM.ensureRestored s₂ with
        | .error _ _ => none
        | .ok _ s₃ => some s₃

theorem recovered_ensured {s₁ s₂ s₃ : Session} {h : Handle} {held : Held} {a : Answer}
    (hdrop : stored.run? (.drop "h") = some (a, s₁))
    (hrestore : SessionM.restore "h" "" handle.settings (handle.after [ask 0]).saved ⟨"/b"⟩ s₁ =
      .ok h s₂) (hheld : s₂.held["h"]? = some held) (hs : recovered = some s₃) :
    SessionM.onHandle "h" held HandleM.ensureRestored s₂ = .ok () s₃ := by
  unfold recovered at hs
  rw [hdrop] at hs
  dsimp only at hs
  rw [hrestore] at hs
  dsimp only at hs
  rw [hheld] at hs
  dsimp only at hs
  split at hs
  · cases hs
  · next he =>
    cases hs
    exact he

end Sample

theorem keys_survive_restart_sample : ∃ (s₂ : Session) (held : Held) (s₃ : Session)
      (base place : Path), Sample.recovered = some s₃ ∧
    SessionM.onHandle "h" held HandleM.ensureRestored s₂ = .ok () s₃ ∧
    answer (SessionM.fileStore "h" ⟨0, "", Sample.handle.after [Sample.ask 0]⟩ Sample.copy
      Sample.stored) = .ok ⟨Sample.copy, (⟨"/b"⟩ : Path).join place⟩ ∧
    SessionM.fileStore "h" held Sample.copy s₂ = .ok ⟨Sample.copy, base.join place⟩ s₃ ∧
    s₃.files.treeAt (base.join place) [] = some (.file [1]) := by
  have hheld : Sample.stored.held["h"]? = some ⟨0, "", Sample.handle.after [Sample.ask 0]⟩ :=
    Std.ExtTreeMap.getElem?_insert_self
  have hlast : (Sample.handle.after [Sample.ask 0]).minted [] = [] := rfl
  have hplaced : (Sample.handle.after [Sample.ask 0]).storage = .placed ⟨"/b"⟩ := by
    decide +kernel
  have hstatus : Sample.kept.status ⟨"/b"⟩ = .ok (["b"], .dir) := by decide +kernel
  have hunique : ∀ ticket, (Sample.stored.registry "").entries[Sample.handle.id]? = some ticket →
      ∀ other (held : Held), Sample.stored.held[other]? = some held → held.ticket = ticket →
        other = "h" := by
    intro ticket ht
    have hnone : (Sample.stored.registry "").entries[Sample.handle.id]? = none := by
      decide +kernel
    rw [hnone] at ht
    cases ht
  have hold : (⟨0, "", Sample.handle.after [Sample.ask 0]⟩ : Held).handle =
      Sample.handle.after ([Sample.ask 0] ++ []) := by rw [List.append_nil]
  obtain ⟨s₁, saved, h, s₂, held, hdrop, hread, hrestore, hheld₂, -, hfound, -⟩ :=
    keys_survive_restart Sample.admitted hlast hheld hold hplaced hstatus (Sample.tidy_kept.free _)
      Sample.tidy_kept.names "h" rfl rfl (by decide) (by decide +kernel) hunique Sample.kept_staysOut
  rw [SavedHandle.readText_compact] at hread
  obtain rfl := Except.ok.inj hread
  have hrun : Sample.recovered.isSome := by decide +kernel
  obtain ⟨s₃, hs₃⟩ := Option.isSome_iff_exists.1 hrun
  have hensure := Sample.recovered_ensured hdrop hrestore hheld₂ hs₃
  obtain ⟨base, held', -, -, hkeys⟩ := hfound s₃ hensure
  have hminted : Sample.copy ∈ Sample.handle.minted ([Sample.ask 0] ++ []) := by decide +kernel
  obtain ⟨place, -, hbefore, hfirst, -, htree⟩ := hkeys Sample.copy hminted
  have hat : answer (SessionM.fileStore "h" ⟨0, "", Sample.handle.after [Sample.ask 0]⟩
      Sample.copy Sample.stored) = .ok ⟨Sample.copy, ⟨"/b/0/0_a"⟩⟩ := by decide +kernel
  have hplace : (⟨"/b"⟩ : Path).join place = ⟨"/b/0/0_a"⟩ := by
    rw [hat] at hbefore
    exact (congrArg FileStore.path (Except.ok.inj hbefore)).symm
  refine ⟨s₂, held, s₃, base, place, hs₃, hensure, hbefore, hfirst, ?_⟩
  rw [htree, hplace]
  decide +kernel

namespace Sample

/-- A handle with a base directory that was there. -/
def settled : Session := session.after [.create "h" "" handle.settings "" handle.id,
  .ask "h" (.setBaseDir ⟨"/b"⟩), .ask "h" .reopen]

def directory : Key := ⟨handle.id, 0, .empty, ⟨"d", by decide⟩⟩

/-- The files once its object has been written, with a link to the object beside the base
directory. -/
def pointed : FileSystem := (files.add ["b", "0"] "d" .dir).add [] "l" (.link ⟨"/b/0/d"⟩)

def filed : Session := settled.after [.ask "h" (.create "d"), .beside pointed ∅ ∅ [] 0]

/-- The temporary root is the root directory, by way of a directory that is yet to be made in the
object. -/
def throughObject : Path := ⟨"/l/x/../../../.."⟩

def returned : Session := filed.after [.drop "h",
  .restore "g" "" { handle.settings with tempRoot := some throughObject } ⟨"", handle.id, 1⟩ ⟨"/b"⟩]

theorem pointed_free : pointed.LinkFree ["b"] := by
  have htidy : (files.add ["b", "0"] "d" .dir).Tidy := tidy_files.add _ (by decide) (by simp)
  intro rest t hn
  rcases mem_add hn with ⟨he, -⟩ | hn
  · simp at he
  · exact htidy.free ["b"] rest t hn

end Sample

/-- A temporary root that is not in the old base directory may still lead through an object, and
then the restored object has a directory more. -/
theorem object_gains_directory : ∃ maker old held s₃,
    Sample.settled.held["h"]? = some maker ∧ maker.handle.storage = .placed ⟨"/b"⟩ ∧
    answer (SessionM.onHandle "h" maker (HandleM.createObject "d") Sample.settled) =
      .ok Sample.directory ∧
    Sample.filed.held["h"]? = some old ∧ old.handle.saved = ⟨"", Sample.handle.id, 1⟩ ∧
    answer (SessionM.fileStore "h" old Sample.directory Sample.filed) =
      .ok ⟨Sample.directory, ⟨"/b/0/d"⟩⟩ ∧
    Sample.filed.files = Sample.pointed ∧ Sample.pointed.LinkFree ["b"] ∧
    Sample.pointed.status ⟨"/b"⟩ = .ok (["b"], .dir) ∧
    (Sample.filed.registry "").isRetired Sample.handle.id = false ∧
    Sample.returned.held["g"]? = some held ∧
    SessionM.fileStore "g" held Sample.directory Sample.returned =
      .ok ⟨Sample.directory, Sample.throughObject.join ⟨"fs--00000000/0/d"⟩⟩ s₃ ∧
    s₃.files.status Sample.throughObject = .ok ([], .dir) ∧ ¬["b"] <+: ([] : Location) ∧
    Sample.pointed.treeAt ⟨"/b/0/d"⟩ ["x"] = none ∧
    s₃.files.treeAt (Sample.throughObject.join ⟨"fs--00000000/0/d"⟩) ["x"] = some .dir := by
  have hmade : (Sample.settled.held["h"]?).map (fun maker => (maker.handle.storage,
      answer (SessionM.onHandle "h" maker (HandleM.createObject "d") Sample.settled))) =
        some (.placed ⟨"/b"⟩, .ok Sample.directory) := by decide +kernel
  have hkept : (Sample.filed.held["h"]?).map (fun old => (old.handle.saved,
      answer (SessionM.fileStore "h" old Sample.directory Sample.filed))) =
        some (⟨"", Sample.handle.id, 1⟩, .ok ⟨Sample.directory, ⟨"/b/0/d"⟩⟩) := by decide +kernel
  have hrun : (Sample.returned.held["g"]?).bind (fun held =>
      match SessionM.fileStore "g" held Sample.directory Sample.returned with
      | .ok store s₃ => some (store, s₃.files.status Sample.throughObject,
        s₃.files.treeAt (Sample.throughObject.join ⟨"fs--00000000/0/d"⟩) ["x"])
      | .error _ _ => none) =
        some (⟨Sample.directory, Sample.throughObject.join ⟨"fs--00000000/0/d"⟩⟩,
          .ok ([], .dir), some .dir) := by decide +kernel
  obtain ⟨maker, hmaker, hmade⟩ := Option.map_eq_some_iff.1 hmade
  obtain ⟨old, hold, hkept⟩ := Option.map_eq_some_iff.1 hkept
  obtain ⟨held, hheld, hfound⟩ := Option.bind_eq_some_iff.1 hrun
  rw [Prod.mk.injEq] at hmade hkept
  split at hfound
  · next store s₃ hs =>
    simp only [Option.some.injEq, Prod.mk.injEq] at hfound
    obtain ⟨rfl, hroot, htree⟩ := hfound
    exact ⟨maker, old, held, s₃, hmaker, hmade.1, hmade.2, hold, hkept.1, hkept.2, rfl,
      Sample.pointed_free, by decide +kernel, by decide +kernel, hheld, hs, hroot, by decide,
      by decide +kernel, htree⟩
  · cases hfound

end Depot
