import Depot.Proofs.Handle.Confinement
import Depot.Proofs.Session.Identities

/-! Handles that share a temporary root. Each has a directory of its own in it, which the others
leave alone, whether the handle is still held or was dropped. -/

namespace Depot

open FileSystem Work

namespace FileSystem

/-- A part of the files that has the root in it and none of some directories. -/
structure Approach (root : Path) (owned : Path → Prop) (fs part : FileSystem) : Prop where
  grows : Grows part fs
  leads : ∃ dir, part.Leads root dir
  clear : ∀ base place, owned base → fs.Stands base place → part.node? place = none

/-- The directories of some handles are there, with no links in them. -/
structure Houses (owned : Path → Prop) (fs : FileSystem) : Prop where
  names : fs.Named
  stands : ∀ base, owned base → ∃ place, fs.Stands base place

/-- Besides, none of them is on the way to the root. -/
structure Hosts (root : Path) (owned : Path → Prop) (fs : FileSystem) : Prop
    extends Houses owned fs where
  way : (∃ base, owned base) → ∃ part, fs.Approach root owned part

end FileSystem

namespace Session

/-- The handles that are not held any more, as they were last. -/
def lost (s s' : Session) : List Held :=
  (s.held.toList.filter fun (slot, held) =>
    (s'.held[slot]?).map (·.ticket) ≠ some held.ticket).map (·.2)

/-- The handle is held or was dropped, and has a base directory. It has none after its end. -/
def Owns (s : Session) (gone : List Held) (x : Held) (base : Path) : Prop :=
  (x ∈ gone ∨ ∃ slot : String, s.held[slot]? = some x) ∧ x.handle.storage = .placed base

def IsOwned (s : Session) (gone : List Held) (base : Path) : Prop := ∃ x, s.Owns gone x base

/-- What may happen where all handles have one root. None is given a base directory that others
made, and others, also by writing content out, take no base directory away, put no link into one,
and do not lead the way to the root through one. -/
def Allows (s : Session) (root : Path) (gone : List Held) : Act → Prop
  | .create _ _ settings _ _ => settings.tempRoot.getD s.systemTemp = root
  | .restore _ _ settings _ _ => settings.tempRoot.getD s.systemTemp = root
  | .ask slot request => (∀ dir, request ≠ .setBaseDir dir) ∧
      ∀ held, s.held[slot]? = some held →
        (s.turn slot held request).flushed held.handle = s.files ∨
          ((s.turn slot held request).flushed held.handle).Hosts root (s.IsOwned gone)
  | .beside files .. => files.Hosts root (s.IsOwned gone)
  | _ => True

/-- What a handle may be asked while the others have their directories, wherever the way to the root
goes. -/
def Asks (s : Session) (gone : List Held) (slot : String) (request : Request) : Prop :=
  (∀ dir, request ≠ .setBaseDir dir) ∧ ∀ held, s.held[slot]? = some held →
    (s.turn slot held request).flushed held.handle = s.files ∨
      ((s.turn slot held request).flushed held.handle).Houses (s.IsOwned gone)

/-- Sessions in which all handles have one root, with the handles that were dropped. -/
inductive Shared (root : Path) : Session → List Held → Prop where
  | start {files : FileSystem} (order : ListingOrder) (systemTemp : Path) : files.Named →
      Shared root (start files order systemTemp) []
  | act {s : Session} {gone : List Held} (a : Act) : Shared root s gone → s.Allows root gone a →
      Shared root (a.run s) (gone ++ s.lost (a.run s))

end Session

/-! ## What a handle leaves of the others' -/

namespace FileSystem

variable {fs fs' : FileSystem} {root base : Path} {owned owned' : Path → Prop}

theorem Approach.mono {part : FileSystem} (h : fs.Approach root owned part)
    (hless : ∀ base, owned' base → owned base) : fs.Approach root owned' part :=
  ⟨h.grows, h.leads, fun base place hb => h.clear base place (hless base hb)⟩

theorem Hosts.mono (h : fs.Hosts root owned) (hless : ∀ base, owned' base → owned base) :
    fs.Hosts root owned' where
  names := h.names
  stands base hb := h.stands base (hless base hb)
  way hsome := by
    obtain ⟨base, hb⟩ := hsome
    obtain ⟨part, hpart⟩ := h.way ⟨base, hless base hb⟩
    exact ⟨part, hpart.mono hless⟩

/-- A directory in the root is where it was if the root is. -/
theorem Stands.same_of_leads {place place' dir : Location} (h : fs.Stands base place)
    (h' : fs'.Stands base place') (hchild : root.IsChild base) (hl : fs.Leads root dir)
    (hl' : fs'.Leads root dir) : place = place' := by
  obtain ⟨name, hplain, rfl⟩ := hchild
  obtain ⟨-, dir₁, hl₁, rfl, -⟩ := (lstatus_child hplain).1 h.here
  obtain ⟨-, dir₂, hl₂, rfl, -⟩ := (lstatus_child hplain).1 h'.here
  rw [hl₁.unique hl, hl₂.unique hl']

end FileSystem

namespace Handle.Isolated

variable {root : Path} {h h' : Handle} {fs fs' part : FileSystem} {others : Path → Prop}

/-- The way to the root is still there, and still goes through none of the directories. -/
theorem approach_after (hiso : h.Isolated root h' fs fs') (hs : h.Lodged root fs)
    (hchild : ∀ base, others base → root.IsChild base)
    (hstands : ∀ base, others base → ∃ place, fs.Stands base place)
    (hpart : fs.Approach root (fun base => others base ∨ h.storage = .placed base) part) :
    fs'.Approach root (fun base => others base ∨ h'.storage = .placed base) part := by
  have hgrows : Grows part fs' :=
    hiso.apart part (fun base place he => hpart.clear base place (Or.inr he)) hpart.grows
  obtain ⟨dir, hl⟩ := hpart.leads
  -- a directory that was there before is where it was, for the root is
  have hold : ∀ {base place}, root.IsChild base → (∃ place, fs.Stands base place) →
      (others base ∨ h.storage = .placed base) → fs'.Stands base place →
        part.node? place = none := by
    intro base place hc hbefore hb hafter
    obtain ⟨place₀, hbefore⟩ := hbefore
    cases hbefore.same_of_leads hafter hc (hl.mono hpart.grows) (hl.mono hgrows)
    exact hpart.clear base _ hb hbefore
  refine ⟨hgrows, ⟨dir, hl⟩, ?_⟩
  rintro base place (ho | he) hafter
  · exact hold (hchild base ho) (hstands base ho) (Or.inl ho) hafter
  rcases hiso.fresh base place he hafter with he' | hfresh
  · obtain ⟨hc, hbefore⟩ := hs.base base he'
    exact hold hc hbefore (Or.inr he') hafter
  · exact hpart.grows.none hfresh.none

/-- The first directory is not on the way to the root, which was found before it was made. -/
theorem approach_first {base : Path} (hiso : h.Isolated root h' fs fs')
    (he : h'.storage = .placed base) (hnew : h.storage ≠ .placed base) :
    ∃ part, fs'.Approach root (fun base => h'.storage = .placed base) part := by
  obtain ⟨-, place, hstands⟩ := hiso.lodged.base base he
  obtain ⟨made, -, hmade, hfree, hleads⟩ := (hiso.fresh base place he hstands).resolve_left hnew
  refine ⟨made, hmade, hleads, fun base' place' he' hstands' => ?_⟩
  rw [he] at he'
  cases he'
  cases hstands.unique hstands'
  exact hfree

/-- After a handle has worked, its directory and those of the others are there. -/
theorem hosts (hiso : h.Isolated root h' fs fs') (hs : h.Lodged root fs) (others : Path → Prop)
    (hfs : fs.Hosts root fun base => others base ∨ h.storage = .placed base)
    (hchild : ∀ base, others base → root.IsChild base)
    (hother : ∀ base, others base → h.storage ≠ .placed base) :
    fs'.Hosts root fun base => others base ∨ h'.storage = .placed base := by
  have hstands : ∀ base, others base → ∃ place, fs.Stands base place := fun base ho =>
    hfs.stands base (Or.inl ho)
  have hway : (∃ base, others base ∨ h.storage = .placed base) →
      ∃ part, fs'.Approach root (fun base => others base ∨ h'.storage = .placed base) part := by
    intro hsome
    obtain ⟨part, hpart⟩ := hfs.way hsome
    exact ⟨part, hiso.approach_after hs hchild hstands hpart⟩
  refine ⟨⟨hiso.lodged.names, ?_⟩, ?_⟩
  · rintro base (ho | he)
    · obtain ⟨place, hbefore⟩ := hstands base ho
      obtain ⟨-, -, hkept | hnowhere⟩ :=
        hiso.others base place (hchild base ho) hbefore (hother base ho)
      · exact ⟨place, hkept⟩
      · obtain ⟨part, hpart⟩ := hway ⟨base, Or.inl ho⟩
        obtain ⟨dir, hl⟩ := hpart.leads
        exact absurd (hl.mono hpart.grows) (hnowhere dir)
    · exact (hiso.lodged.base base he).2
  · rintro ⟨base, hb⟩
    by_cases hsome : ∃ base, others base ∨ h.storage = .placed base
    · exact hway hsome
    · have hnone : ∀ base, ¬(others base ∨ h.storage = .placed base) := not_exists.1 hsome
      have he := hb.resolve_left fun ho => hnone base (Or.inl ho)
      obtain ⟨part, hpart⟩ := hiso.approach_first he fun he' => hnone base (Or.inr he')
      exact ⟨part, hpart.mono fun base hb => hb.resolve_left fun ho => hnone base (Or.inl ho)⟩

end Handle.Isolated

/-! ## One act after another -/

namespace Session

variable {root : Path} {s s' : Session} {gone : List Held} {slot : String} {held : Held}

theorem mem_lost {x : Held} : x ∈ s.lost s' ↔ ∃ slot : String, s.held[slot]? = some x ∧
    ∀ new, s'.held[slot]? = some new → new.ticket ≠ x.ticket := by
  simp only [lost, List.mem_map, List.mem_filter, Prod.exists,
    Std.ExtTreeMap.mem_toList_iff_getElem?_eq_some, decide_eq_true_eq, ne_eq,
    Option.map_eq_some_iff, not_exists, not_and, exists_eq_right]

/-- What is so in all sessions of handles with one root. -/
structure Peaceful (root : Path) (s : Session) (gone : List Held) : Prop where
  orderly : s.Orderly
  made : ∀ {slot : String} {held : Held}, s.held[slot]? = some held → held.handle.tempRoot = root
  child : ∀ {x : Held} {base : Path}, s.Owns gone x base → root.IsChild base
  single : ∀ {x y : Held} {base : Path}, s.Owns gone x base → s.Owns gone y base → x = y
  hosts : s.files.Hosts root (s.IsOwned gone)
  past : ∀ {x : Held}, x ∈ gone → x.ticket < s.issued ∧
    ∀ (slot : String) (held : Held), s.held[slot]? = some held → held.ticket ≠ x.ticket

theorem peaceful_start {files : FileSystem} (order : ListingOrder) (root systemTemp : Path)
    (hnamed : files.Named) :
    Peaceful root (start files order systemTemp) [] := by
  have hnone : ∀ x base, ¬(start files order systemTemp).Owns [] x base := by
    rintro x base ⟨hx | ⟨slot, hx⟩, -⟩
    · cases hx
    · simp [start] at hx
  refine ⟨orderly_start files order systemTemp, ?_, fun h => absurd h (hnone _ _),
    fun h => absurd h (hnone _ _), ⟨⟨hnamed, ?_⟩, ?_⟩,
    fun hx => absurd hx List.not_mem_nil⟩
  · intro slot held h
    simp [start] at h
  · rintro base ⟨x, hx⟩
    exact absurd hx (hnone x base)
  · rintro ⟨base, x, hx⟩
    exact absurd hx (hnone x base)

theorem slot_worked {slot' : String} {h : Handle} {new : Held}
    (hslots : s'.held = s.held.insert slot { held with handle := h })
    (hnew : s'.held[slot']? = some new) : slot' = slot ∧ new = { held with handle := h } ∨
      slot' ≠ slot ∧ s.held[slot']? = some new := by
  rw [hslots, slot_of_insert] at hnew
  split at hnew
  · next hslot =>
    cases hnew
    exact Or.inl ⟨hslot, rfl⟩
  · next hslot => exact Or.inr ⟨hslot, hnew⟩

namespace Peaceful

/-- A dropped handle does not come back. -/
theorem past_of_held (hs : Peaceful root s gone) (hissued : s.issued ≤ s'.issued)
    (hheld : ∀ (slot : String) (new : Held), s'.held[slot]? = some new →
      (∃ old, s.held[slot]? = some old ∧ new.ticket = old.ticket) ∨ s.issued ≤ new.ticket)
    {x : Held} (hx : x ∈ gone ++ s.lost s') : x.ticket < s'.issued ∧
      ∀ (slot : String) (held : Held), s'.held[slot]? = some held → held.ticket ≠ x.ticket := by
  rcases List.mem_append.1 hx with hx | hx
  · obtain ⟨hlt, hpast⟩ := hs.past hx
    refine ⟨by omega, fun slot new hnew => ?_⟩
    rcases hheld slot new hnew with ⟨old, hold, hticket⟩ | hfresh
    · rw [hticket]
      exact hpast slot old hold
    · omega
  · obtain ⟨slot₀, hold₀, hlost⟩ := mem_lost.1 hx
    have hlt := hs.orderly.early hold₀
    refine ⟨by omega, fun slot new hnew hsame => ?_⟩
    rcases hheld slot new hnew with ⟨old, hold, hticket⟩ | hfresh
    · have hslot := hs.orderly.apart hold hold₀ (by omega)
      subst hslot
      exact hlost new hnew hsame
    · omega

theorem owns_aside {x : Held} {base : Path}
    (hheld : ∀ (slot : String) (new : Held), s'.held[slot]? = some new →
      s.held[slot]? = some new ∨ s.issued ≤ new.ticket ∧ new.handle.tempRoot = root ∧
        ∀ base, new.handle.storage ≠ .placed base)
    (hx : s'.Owns (gone ++ s.lost s') x base) : s.Owns gone x base := by
  obtain ⟨hx | ⟨slot, hx⟩, he⟩ := hx
  · rcases List.mem_append.1 hx with hx | hx
    · exact ⟨Or.inl hx, he⟩
    · obtain ⟨slot, hold, -⟩ := mem_lost.1 hx
      exact ⟨Or.inr ⟨slot, hold⟩, he⟩
  · rcases hheld slot x hx with hold | ⟨-, -, hnone⟩
    · exact ⟨Or.inr ⟨slot, hold⟩, he⟩
    · exact absurd he (hnone base)

/-- No handle has worked, though some may have been taken up or dropped. -/
theorem aside (hs : Peaceful root s gone) (ho : s'.Orderly) (hissued : s.issued ≤ s'.issued)
    (hfiles : s'.files.Hosts root (s.IsOwned gone))
    (hheld : ∀ (slot : String) (new : Held), s'.held[slot]? = some new →
      s.held[slot]? = some new ∨ s.issued ≤ new.ticket ∧ new.handle.tempRoot = root ∧
        ∀ base, new.handle.storage ≠ .placed base) :
    Peaceful root s' (gone ++ s.lost s') where
  orderly := ho
  made hnew := by
    rcases hheld _ _ hnew with hold | ⟨-, hmade, -⟩
    · exact hs.made hold
    · exact hmade
  child hx := hs.child (owns_aside hheld hx)
  single hx hy := hs.single (owns_aside hheld hx) (owns_aside hheld hy)
  hosts := hfiles.mono fun _ hb => hb.imp fun _ hx => owns_aside hheld hx
  past hx := by
    refine hs.past_of_held hissued (fun slot new hnew => ?_) hx
    rcases hheld slot new hnew with hold | ⟨hfresh, -, -⟩
    · exact Or.inl ⟨new, hold, rfl⟩
    · exact Or.inr hfresh

theorem lodged (hs : Peaceful root s gone) (hheld : s.held[slot]? = some held)
    {files : FileSystem} (hfiles : files.Houses (s.IsOwned gone)) :
    held.handle.Lodged root files where
  made := hs.made hheld
  names := hfiles.names
  base base he := by
    have howns : s.Owns gone held base := ⟨Or.inr ⟨slot, hheld⟩, he⟩
    exact ⟨hs.child howns, hfiles.stands base ⟨held, howns⟩⟩

theorem other (hs : Peaceful root s gone) (hheld : s.held[slot]? = some held) {x : Held}
    {base : Path} (hx : s.Owns gone x base) (hne : x ≠ held) : held.handle.storage ≠ .placed base :=
  fun he => hne (hs.single hx ⟨Or.inr ⟨slot, hheld⟩, he⟩)

/-- After a handle has worked, the others own what they owned. -/
theorem owns_worked {h : Handle} {x : Held} {base : Path} (hs : Peaceful root s gone)
    (hheld : s.held[slot]? = some held)
    (hslots : s'.held = s.held.insert slot { held with handle := h })
    (hx : s'.Owns (gone ++ s.lost s') x base) : s.Owns gone x base ∧ x ≠ held ∨
      x = { held with handle := h } ∧ h.storage = .placed base := by
  obtain ⟨hx | ⟨slot', hx⟩, he⟩ := hx
  · rcases List.mem_append.1 hx with hx | hx
    · refine Or.inl ⟨⟨Or.inl hx, he⟩, ?_⟩
      rintro rfl
      exact (hs.past hx).2 slot x hheld rfl
    -- with the same tickets in the slots as before, none is lost
    · obtain ⟨slot', hold, hlost⟩ := mem_lost.1 hx
      by_cases hslot : slot' = slot
      · subst hslot
        rw [hheld] at hold
        cases hold
        refine absurd rfl (hlost { held with handle := h } ?_)
        rw [hslots, slot_of_insert, if_pos rfl]
      · exact absurd rfl (hlost x (by rw [hslots, slot_of_insert, if_neg hslot, hold]))
  · rcases slot_worked hslots hx with ⟨-, rfl⟩ | ⟨hslot, hold⟩
    · exact Or.inr ⟨rfl, he⟩
    · refine Or.inl ⟨⟨Or.inr ⟨slot', hold⟩, he⟩, ?_⟩
      rintro rfl
      exact hslot (hs.orderly.apart hold hheld rfl)

/-- A handle has worked. -/
theorem worked {h : Handle} {files : FileSystem} (hs : Peaceful root s gone) (ho : s'.Orderly)
    (hheld : s.held[slot]? = some held) (hfiles : files.Hosts root (s.IsOwned gone))
    (hiso : held.handle.Isolated root h files s'.files) (hissued : s'.issued = s.issued)
    (hslots : s'.held = s.held.insert slot { held with handle := h }) :
    Peaceful root s' (gone ++ s.lost s') where
  orderly := ho
  made hnew := by
    rcases slot_worked hslots hnew with ⟨-, rfl⟩ | ⟨-, hold⟩
    · exact hiso.lodged.made
    · exact hs.made hold
  child hx := by
    rcases hs.owns_worked hheld hslots hx with ⟨hx, -⟩ | ⟨-, he⟩
    · exact hs.child hx
    · exact (hiso.lodged.base _ he).1
  single hx hy := by
    have hothers : ∀ {x base}, s.Owns gone x base → x ≠ held → h.storage ≠ .placed base := by
      intro x base hx hne
      obtain ⟨place, hstands⟩ := hfiles.stands base ⟨x, hx⟩
      exact (hiso.others base place (hs.child hx) hstands (hs.other hheld hx hne)).1
    rcases hs.owns_worked hheld hslots hx with ⟨hx, hnx⟩ | ⟨rfl, hex⟩
    · rcases hs.owns_worked hheld hslots hy with ⟨hy, -⟩ | ⟨-, hey⟩
      · exact hs.single hx hy
      · exact absurd hey (hothers hx hnx)
    · rcases hs.owns_worked hheld hslots hy with ⟨hy, hny⟩ | ⟨rfl, -⟩
      · exact absurd hex (hothers hy hny)
      · rfl
  hosts := by
    have hbefore : files.Hosts root fun base =>
        (∃ x, s.Owns gone x base ∧ x ≠ held) ∨ held.handle.storage = .placed base := by
      refine hfiles.mono ?_
      rintro base (⟨x, hx, -⟩ | he)
      · exact ⟨x, hx⟩
      · exact ⟨held, Or.inr ⟨slot, hheld⟩, he⟩
    have hafter := hiso.hosts (hs.lodged hheld hfiles.toHouses) _ hbefore
      (fun base ⟨x, hx, _⟩ => hs.child hx) (fun base ⟨x, hx, hne⟩ => hs.other hheld hx hne)
    refine hafter.mono ?_
    rintro base ⟨x, hx⟩
    rcases hs.owns_worked hheld hslots hx with hother | ⟨-, he⟩
    · exact Or.inl ⟨x, hother⟩
    · exact Or.inr he
  past hx := by
    refine hs.past_of_held hissued.ge (fun slot' new hnew => Or.inl ?_) hx
    rcases slot_worked hslots hnew with ⟨rfl, rfl⟩ | ⟨-, hold⟩
    · exact ⟨held, hheld, rfl⟩
    · exact ⟨new, hold, rfl⟩

/-- What is taken up has no directory yet. -/
theorem takeUp (hs : Peaceful root s gone) {slot registry : String} {settings : Settings}
    {saved : SavedHandle} {storage : Storage} {result : EStateM.Result Failure Session Handle}
    (hcase : SessionM.TakeUpCase slot registry settings saved storage s result)
    (ho : (left result).Orderly) (hroot : settings.tempRoot.getD s.systemTemp = root)
    (hstorage : ∀ base, storage ≠ .placed base) :
    Peaceful root (left result) (gone ++ s.lost (left result)) := by
  cases hcase with
  | invalid => exact hs.aside ho (Nat.le_refl _) hs.hosts fun _ _ hnew => Or.inl hnew
  | refused => exact hs.aside ho (Nat.le_refl _) hs.hosts fun _ _ hnew => Or.inl hnew
  | entered =>
    refine hs.aside ho (Nat.le_succ _) hs.hosts fun slot' new hnew => ?_
    rw [left_ok, slot_of_insert] at hnew
    split at hnew
    · cases hnew
      exact Or.inr ⟨Nat.le_refl _, hroot, hstorage⟩
    · exact Or.inl hnew

/-- What a handle does when something is asked of it, or of one that looks its object up. -/
theorem isolated (hs : Peaceful root s gone) {slot : String} {held : Held} {request : Request}
    (hheld : s.held[slot]? = some held) (hown : (s.turn slot held request).IsOwn held.handle)
    (hclaims : ∀ dir, request ≠ .setBaseDir dir)
    (hfiles : ((s.turn slot held request).flushed held.handle).Houses (s.IsOwned gone)) :
    held.handle.Isolated root ((s.turn slot held request).next held.handle)
      ((s.turn slot held request).flushed held.handle) (left (request.run slot held s)).files := by
  rw [← turn_outcome hheld]
  exact Turn.isolated hown hclaims (hs.lodged hheld hfiles)

theorem ask (hs : Peaceful root s gone) {slot : String} {held : Held} {request : Request}
    (hheld : s.held[slot]? = some held) (hown : (s.turn slot held request).IsOwn held.handle)
    (hclaims : ∀ dir, request ≠ .setBaseDir dir)
    (hfiles : ((s.turn slot held request).flushed held.handle).Hosts root (s.IsOwned gone)) :
    Peaceful root (left (request.run slot held s))
      (gone ++ s.lost (left (request.run slot held s))) := by
  have ho := hs.orderly.reaches (reaches_turn true hheld hown)
  have hleft := (s.turn slot held request).left_own hown
  rw [turn_outcome hheld] at hleft
  have hiso := hs.isolated hheld hown hclaims hfiles.toHouses
  refine hs.worked ho hheld hfiles hiso ?_ (held_ask hheld hown)
  rw [hleft]
  rfl

end Peaceful

/-! ## Who works -/

theorem Serves.flushed {request request' : Request} {slot' : String} {held' : Held}
    (h : s.Serves slot held request slot' held' request') :
    (s.turn slot' held' request').flushed held'.handle =
      (s.turn slot held request).flushed held.handle := by
  cases h with
  | own => rfl
  | owner hreq =>
    subst hreq
    rfl

theorem Serves.claims {request request' : Request} {slot' : String} {held' : Held}
    (h : s.Serves slot held request slot' held' request')
    (hrequest : ∀ dir, request ≠ .setBaseDir dir) (dir : Path) : request' ≠ .setBaseDir dir := by
  cases h with
  | own => exact hrequest dir
  | owner => exact nofun

theorem Asks.houses (hs : Peaceful root s gone) {request : Request}
    (hasks : s.Asks gone slot request) (hheld : s.held[slot]? = some held) :
    ((s.turn slot held request).flushed held.handle).Houses (s.IsOwned gone) := by
  rcases hasks.2 held hheld with hsame | hhouses
  · rw [hsame]
    exact hs.hosts.toHouses
  · exact hhouses

theorem Allows.asks {request : Request} (h : s.Allows root gone (.ask slot request)) :
    s.Asks gone slot request :=
  ⟨h.1, fun held hheld => (h.2 held hheld).imp_right (·.toHouses)⟩

theorem Allows.hosts (hs : Peaceful root s gone) {request : Request}
    (hallows : s.Allows root gone (.ask slot request)) (hheld : s.held[slot]? = some held) :
    ((s.turn slot held request).flushed held.handle).Hosts root (s.IsOwned gone) := by
  rcases hallows.2 held hheld with hsame | hhosts
  · rw [hsame]
    exact hs.hosts
  · exact hhosts

theorem enroll_still (registry : String) (id : Identity) (slot : String) (s : Session) :
    let s' := (Act.enroll registry id slot).run s
    s'.files = s.files ∧ s'.held = s.held ∧ s'.issued = s.issued := by
  rw [Act.run]
  split
  · rw [SessionM.enroll_apply]
    split <;> exact ⟨rfl, rfl, rfl⟩
  · exact ⟨rfl, rfl, rfl⟩

/-- Each act leaves the peace as it was. -/
theorem Peaceful.act (hs : Peaceful root s gone) {a : Act} (ha : s.Allows root gone a) :
    Peaceful root (a.run s) (gone ++ s.lost (a.run s)) := by
  have ho : (a.run s).Orderly := hs.orderly.reaches (a.reaches (fun _ => rfl) s)
  cases a with
  | create => exact hs.takeUp (SessionM.takeUpCase ..) ho ha nofun
  | restore => exact hs.takeUp (SessionM.takeUpCase ..) ho ha nofun
  | drop slot =>
    refine hs.aside ho (Nat.le_refl _) hs.hosts fun slot' new hnew => Or.inl ?_
    rw [Act.run, slot_of_erase] at hnew
    split at hnew
    · cases hnew
    · exact hnew
  | enroll registry id slot =>
    obtain ⟨hfiles, hheld, hissued⟩ := enroll_still registry id slot s
    exact hs.aside ho hissued.ge (hfiles ▸ hs.hosts) fun _ _ hnew => Or.inl (hheld ▸ hnew)
  | retire registry id =>
    exact hs.aside ho (Nat.le_refl _) hs.hosts fun _ _ hnew => Or.inl hnew
  | beside => exact hs.aside ho (Nat.le_refl _) ha fun _ _ hnew => Or.inl hnew
  | ask slot request =>
    have hstill := hs.aside hs.orderly (Nat.le_refl _) hs.hosts fun _ _ hnew => Or.inl hnew
    rw [Act.run]
    split
    swap
    · exact hstill
    next held hheld =>
    rcases serves hheld request with hs' | ⟨slot', held', request', hserves, hheld', hs'⟩
    · rw [hs']
      exact hstill
    · rw [hs']
      refine hs.ask hheld' hserves.isOwn (hserves.claims ha.1) ?_
      rw [hserves.flushed]
      exact ha.hosts hs hheld

theorem Shared.peaceful (h : Shared root s gone) : Peaceful root s gone := by
  induction h with
  | start order systemTemp hnamed => exact peaceful_start order root systemTemp hnamed
  | act a _ ha ih => exact ih.act ha

/-- Others may add to the files what they like, but for links below the directories of handles. -/
theorem allows_adding (h : Shared root s gone) {files : FileSystem} (hg : Grows s.files files)
    (hnamed : files.Named) (hfree : ∀ base place, s.IsOwned gone base → s.files.Stands base place →
      files.LinkFree place) (keys : Std.ExtTreeMap String Key)
    (stores : Std.ExtTreeMap String FileStore) (events : List Event) (flushes : Nat) :
    s.Allows root gone (.beside files keys stores events flushes) := by
  have hs := h.peaceful
  have hkept : ∀ base place, s.IsOwned gone base → s.files.Stands base place →
      files.Stands base place := by
    rintro base place hb hstands
    obtain ⟨x, hx⟩ := id hb
    exact hstands.grows (hs.child hx) hg (hfree base place hb hstands)
  refine ⟨⟨hnamed, fun base hb => ?_⟩, fun hsome => ?_⟩
  · obtain ⟨place, hstands⟩ := hs.hosts.stands base hb
    exact ⟨place, hkept base place hb hstands⟩
  · obtain ⟨part, hpart⟩ := hs.hosts.way hsome
    refine ⟨part, hpart.grows.trans hg, hpart.leads, fun base place hb hstands => ?_⟩
    obtain ⟨place₀, hstands₀⟩ := hs.hosts.stands base hb
    cases (hkept base place₀ hb hstands₀).unique hstands
    exact hpart.clear base _ hb hstands₀

/-- Where no copy is asked for, nothing is written out. -/
theorem allows_ask (s : Session) (root : Path) (gone : List Held) (slot : String)
    (request : Request) (hclaims : ∀ dir, request ≠ .setBaseDir dir)
    (hm : ∀ store flush, request ≠ .materialize store flush)
    (ht : ∀ store flush, request ≠ .translate store flush) :
    s.Allows root gone (.ask slot request) := by
  refine ⟨hclaims, fun held _ => Or.inl ?_⟩
  unfold Turn.flushed Turn.asked?
  cases request with
  | materialize store flush => exact absurd rfl (hm store flush)
  | translate store flush => exact absurd rfl (ht store flush)
  | _ => rfl

end Session

/-- Whether files can change by an act. -/
def Act.isOnFiles : Act → Bool
  | ask .. | beside .. => true
  | _ => false

theorem Act.files_run {a : Act} (h : a.isOnFiles = false) (s : Session) : (a.run s).files = s.files := by
  have htake : ∀ {slot registry settings saved storage result},
      SessionM.TakeUpCase slot registry settings saved storage s result →
        (left result).files = s.files := by
    intro slot registry settings saved storage result hcase
    cases hcase <;> rfl
  cases a with
  | create => exact htake (SessionM.takeUpCase ..)
  | restore => exact htake (SessionM.takeUpCase ..)
  | drop => rfl
  | enroll registry id slot => exact (Session.enroll_still registry id slot s).1
  | retire => rfl
  | ask => cases h
  | beside => cases h

/-- Handles in one root are apart. Each that has a base directory, be it held or dropped, has it
directly in the root, and no two have the same. It was made where nothing was. Whatever a handle is
asked, it changes nothing outside its directory but for making the root, so what the others have
stays as it is, also when the handle comes to its end. It stays where it was too, as long as no
directory is on the way to the root. -/
theorem handles_isolated {root : Path} {s : Session} {gone : List Held} (h : s.Shared root gone) :
    (∀ x base, s.Owns gone x base → root.IsChild base ∧ ∃ place, s.files.Stands base place) ∧
    (∀ x y base base' place place', s.Owns gone x base → s.Owns gone y base' →
      s.files.Stands base place → s.files.Stands base' place' → place <+: place' → x = y) ∧
    (∀ a : Act, a.isOnFiles = false → (a.run s).files = s.files) ∧
    ∀ slot request, s.Asks gone slot request →
      let s' := (Act.ask slot request).run s
      s' = s ∨ ∃ held slot' held' request', s.held[slot]? = some held ∧
        s.Serves slot held request slot' held' request' ∧ s.held[slot']? = some held' ∧
        let t := s.turn slot' held' request'
        let files := t.flushed held'.handle
        s'.held = s.held.insert slot' { held' with handle := t.next held'.handle } ∧
        held'.handle.Isolated root (t.next held'.handle) files s'.files ∧
        ∀ x base, s.Owns gone x base → x ≠ held' → ∃ place, files.Stands base place ∧
          (∀ rest, s'.files.node? (place ++ rest) = files.node? (place ++ rest)) ∧
          (s.Allows root gone (.ask slot request) → s'.files.Stands base place) := by
  have hs := h.peaceful
  refine ⟨?_, ?_, fun a ha => Act.files_run ha s, ?_⟩
  · intro x base hx
    exact ⟨hs.child hx, hs.hosts.stands base ⟨x, hx⟩⟩
  · intro x y base base' place place' hx hy hstands hstands' hp
    obtain ⟨name, hplain, rfl⟩ := hs.child hx
    obtain ⟨name', hplain', rfl⟩ := hs.child hy
    have hp' : place <+: place' ++ [] := hp.trans (List.prefix_append place' [])
    cases name_of_prefix hplain' hplain hstands'.here hstands.here hp'
    exact hs.single hx hy
  · intro slot request hasks s'
    have hnext : s.Allows root gone (.ask slot request) →
        s'.Peaceful root (gone ++ s.lost s') := hs.act
    have hs' : s' = (Act.ask slot request).run s := rfl
    clear_value s'
    rw [Act.run] at hs'
    split at hs'
    swap
    · exact Or.inl hs'
    next held hheld =>
    rcases Session.serves hheld request with hsame | ⟨slot', held', request', hserves, hheld', hrun⟩
    · exact Or.inl (hs'.trans hsame)
    rw [hrun] at hs'
    have hown := hserves.isOwn
    have hfiles := hasks.houses hs hheld
    rw [← hserves.flushed] at hfiles
    have hiso := hs.isolated hheld' hown (hserves.claims hasks.1) hfiles
    have hslots := Session.held_ask hheld' hown
    rw [← hs'] at hiso hslots
    refine Or.inr ⟨held, slot', held', request', hheld, hserves, hheld', hslots, hiso, ?_⟩
    intro x base hx hne
    obtain ⟨place, hstands⟩ := hfiles.stands base ⟨x, hx⟩
    obtain ⟨-, hsame, hkept⟩ :=
      hiso.others base place (hs.child hx) hstands (hs.other hheld' hx hne)
    refine ⟨place, hstands, hsame, fun hallows => hkept.resolve_right fun hnowhere => ?_⟩
    -- the directory is still that of the other handle, so the root is still found
    have hx' : s'.Owns (gone ++ s.lost s') x base := by
      obtain ⟨hgone | ⟨slot₀, hold⟩, he⟩ := hx
      · exact ⟨Or.inl (List.mem_append_left _ hgone), he⟩
      · refine ⟨Or.inr ⟨slot₀, ?_⟩, he⟩
        rw [hslots, Session.slot_of_insert, if_neg, hold]
        rintro rfl
        rw [hheld'] at hold
        cases hold
        exact hne rfl
    obtain ⟨place', hstands'⟩ := (hnext hallows).hosts.stands base ⟨x, hx'⟩
    obtain ⟨-, dir, -, -, hl, -⟩ := hstands'.child (hs.child hx)
    exact hnowhere dir hl

namespace Sample

/-- Two handles of one label, with identities that begin alike, each with a directory. -/
def lodgers : Session := session.after [taking "h", .create "l" "" handle.settings "" ⟨6#128⟩,
  .ask "h" (.shardDir 0 true), .ask "l" (.shardDir 0 true)]

theorem shared_lodgers : ∃ gone, lodgers.Shared ⟨"/"⟩ gone := by
  have hstart : session.Shared ⟨"/"⟩ [] := .start .byName ⟨"/"⟩ tidy_files.names
  have hfirst := hstart.act (taking "h") rfl
  have hroot : handle.settings.tempRoot.getD ((taking "h").run session).systemTemp = ⟨"/"⟩ := by
    decide +kernel
  have hsecond := hfirst.act (.create "l" "" handle.settings "" ⟨6#128⟩) hroot
  have hthird := hsecond.act (.ask "h" (.shardDir 0 true))
    (Session.allows_ask _ _ _ _ _ (by simp) (by simp) (by simp))
  exact ⟨_, hthird.act (.ask "l" (.shardDir 0 true))
    (Session.allows_ask _ _ _ _ _ (by simp) (by simp) (by simp))⟩

end Sample

/-- One of the handles is dropped and the other comes to its end. -/
theorem handles_isolated_sample : ∃ x gone, let s := (Act.drop "l").run Sample.lodgers
    let s' := (Act.ask "h" .dispose).run s
    s.Shared ⟨"/"⟩ gone ∧ s.Owns gone x ⟨"/fs--00000000-1"⟩ ∧
      (s.held["h"]?).map (·.handle.storage) = some (.placed ⟨"/fs--00000000"⟩) ∧
      s'.files.node? ["fs--00000000"] = none ∧
      ∃ place, s'.files.Stands ⟨"/fs--00000000-1"⟩ place := by
  obtain ⟨gone, hshared⟩ := Sample.shared_lodgers
  have hplaced : (Sample.lodgers.held["l"]?).map (·.handle.storage) =
      some (.placed ⟨"/fs--00000000-1"⟩) := by decide +kernel
  obtain ⟨x, hx, hstorage⟩ := Option.map_eq_some_iff.1 hplaced
  have hlost : x ∈ Sample.lodgers.lost ((Act.drop "l").run Sample.lodgers) := by
    refine Session.mem_lost.2 ⟨"l", hx, fun new hnew => ?_⟩
    rw [Act.run, Session.slot_of_erase, if_pos rfl] at hnew
    cases hnew
  have howns : ((Act.drop "l").run Sample.lodgers).Owns _ x ⟨"/fs--00000000-1"⟩ :=
    ⟨Or.inl (List.mem_append_right gone hlost), hstorage⟩
  have hfirst : (((Act.drop "l").run Sample.lodgers).held["h"]?).map (·.handle.storage) =
      some (.placed ⟨"/fs--00000000"⟩) := by decide +kernel
  have hlast := hshared.act (.drop "l") trivial
  refine ⟨x, _, hlast, howns, hfirst, by decide +kernel, ?_⟩
  have hallows := Session.allows_ask ((Act.drop "l").run Sample.lodgers) ⟨"/"⟩ (gone ++
    Sample.lodgers.lost ((Act.drop "l").run Sample.lodgers)) "h" .dispose (by simp) (by simp)
    (by simp)
  obtain ⟨hhas, -, -, hasks⟩ := handles_isolated hlast
  rcases hasks "h" .dispose hallows.asks with
    hsame | ⟨held, _, _, _, hheld, hserves, -, -, -, hothers⟩
  · rw [hsame]
    exact (hhas x _ howns).2
  cases hserves with
  | owner hrequest => cases hrequest
  | own =>
    have hne : x ≠ held := by
      rintro rfl
      rw [hheld, Option.map_some, hstorage] at hfirst
      exact absurd hfirst (by decide)
    obtain ⟨place, -, -, hstands⟩ := hothers x _ howns hne
    exact ⟨place, hstands hallows⟩

namespace Sample

/-- The root is behind a link. -/
def behind : FileSystem := (FileSystem.empty.add [] "r" .dir).add [] "l" (.link ⟨"/r"⟩)

/-- The directories of two handles in it. -/
def homes : FileSystem :=
  ((FileSystem.empty.add [] "r" .dir).add ["r"] "fs--00000000" .dir).add ["r"] "fs--00000000-1" .dir

/-- The link has come to lead through the first. -/
def through : FileSystem := homes.add [] "l" (.link ⟨"/r/fs--00000000/.."⟩)

def rerouted : Session := (Session.start behind .byName ⟨"/l"⟩).after
  [taking "h", .create "l" "" handle.settings "" ⟨6#128⟩, .ask "h" (.shardDir 0 true),
    .ask "l" (.shardDir 0 true), .beside through ∅ ∅ [] 0]

theorem through_free (rest : Location) : through.LinkFree ("r" :: rest) := by
  have htidy : homes.Tidy :=
    ((tidy_empty.add [] (by decide) (by simp)).add ["r"] (by decide) (by simp)).add ["r"]
      (by decide) (by simp)
  intro more t hn
  rcases mem_add hn with ⟨he, -⟩ | hn
  · simp at he
  · exact htidy.free _ more t hn

end Sample

/-- Where a directory is on the way to the root, the others stay as they are when it goes, but they
are not found any more. -/
theorem way_lost : let s := Sample.rerouted
    let s' := (Act.ask "h" .dispose).run s
    (s.held["h"]?).map (·.handle.storage) = some (.placed ⟨"/l/fs--00000000"⟩) ∧
    (s.held["l"]?).map (·.handle.storage) = some (.placed ⟨"/l/fs--00000000-1"⟩) ∧
    s.files.Stands ⟨"/l/fs--00000000"⟩ ["r", "fs--00000000"] ∧
    s.files.Stands ⟨"/l/fs--00000000-1"⟩ ["r", "fs--00000000-1"] ∧
    s'.files.node? ["r", "fs--00000000-1"] = some .dir ∧
    s'.files.status ⟨"/l/fs--00000000-1"⟩ = .error .notFound := by
  refine ⟨by decide +kernel, by decide +kernel, ⟨by decide +kernel, ?_⟩, ⟨by decide +kernel, ?_⟩,
    by decide +kernel, by decide +kernel⟩
  · exact Sample.through_free _
  · exact Sample.through_free _

end Depot
