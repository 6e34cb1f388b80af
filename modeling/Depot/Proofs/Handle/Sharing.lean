import Depot.Proofs.Handle.Bases
import Depot.Proofs.Handle.Memory
import Depot.Proofs.Layout

/-! Which keys lead to the same place. That is up to the group of the index and the name: names are
given out once while a handle is open, and the name of a copy begins with its index. -/

namespace Depot

open Work

/-! ## Keys of one place -/

/-- The keys are of one group and have one name. -/
def Layout.Shares (l : Layout) (a b : Key) : Prop :=
  a.index.toNat / l.fanout.toNat = b.index.toNat / l.fanout.toNat ∧ a.name = b.name

theorem Layout.names_eq_iff {l : Layout} {a b : Key} (ha : a.index ≤ l.maxIndex)
    (hb : b.index ≤ l.maxIndex) : l.names a = l.names b ↔ l.Shares a b := by
  rw [names, names, Shares, ← l.shard_eq_iff ha hb]
  constructor
  · intro h
    obtain ⟨hshard, hname⟩ := List.append_inj' h rfl
    exact ⟨hshard, ObjectName.ext (List.cons.inj hname).1⟩
  · rintro ⟨hshard, hname⟩
    rw [hshard, hname]

namespace HandleM

/-- The keys lead to places on different ways, however their paths are written. -/
def Parts (s : Scene) (a b : Key) : Prop :=
  ∃ p q, objectPath a s = .ok p s ∧ objectPath b s = .ok q s ∧ p.segments ≠ q.segments

variable {s : Scene} {a b : Key} {base : Path}

theorem objectPath_segments (hs : s.handle.storage = .placed base) (howner : a.owner = s.handle.id)
    (hroom : a.index ≤ s.handle.layout.maxIndex) : ∃ p, objectPath a s = .ok p s ∧
      p = base.join (.ofComponents (s.handle.layout.names a)) ∧
      p.segments = base.segments ++ s.handle.layout.names a := by
  have hplain : ∀ name ∈ s.handle.layout.names a, Path.IsPlain name :=
    fun _ hn => Layout.isPlain_of_mem_names hn
  refine ⟨_, objectPath_placed howner hs (Layout.check_eq_ok.2 hroom), rfl, ?_⟩
  rw [Path.segments_join (Path.isAbsolute_ofComponents hplain), Path.segments_ofComponents hplain]

theorem objectPath_eq_iff (hs : s.handle.storage = .placed base) (ha : a.owner = s.handle.id)
    (hb : b.owner = s.handle.id) (hroom : a.index ≤ s.handle.layout.maxIndex)
    (hroom' : b.index ≤ s.handle.layout.maxIndex) : ∃ p q,
      objectPath a s = .ok p s ∧ objectPath b s = .ok q s ∧
      (p = q ↔ s.handle.layout.Shares a b) ∧
      (p.segments = q.segments ↔ s.handle.layout.Shares a b) := by
  obtain ⟨p, hp, hpath, hsegments⟩ := objectPath_segments hs ha hroom
  obtain ⟨q, hq, hpath', hsegments'⟩ := objectPath_segments hs hb hroom'
  have hway : p.segments = q.segments ↔ s.handle.layout.Shares a b := by
    rw [hsegments, hsegments', List.append_cancel_left_eq, Layout.names_eq_iff hroom hroom']
  refine ⟨p, q, hp, hq, ⟨fun h => hway.1 (congrArg Path.segments h), fun h => ?_⟩, hway⟩
  rw [hpath, hpath', (Layout.names_eq_iff hroom hroom').2 h]

theorem parts_of_names (hs : s.handle.storage = .placed base) (ha : a.owner = s.handle.id)
    (hb : b.owner = s.handle.id) (hroom : a.index ≤ s.handle.layout.maxIndex)
    (hroom' : b.index ≤ s.handle.layout.maxIndex) (hne : a.name.text ≠ b.name.text) :
    Parts s a b := by
  obtain ⟨p, q, hp, hq, -, hway⟩ := objectPath_eq_iff hs ha hb hroom hroom'
  exact ⟨p, q, hp, hq, fun h => hne (congrArg ObjectName.text (hway.1 h).2)⟩

end HandleM

/-! ## Keys made in some turns -/

/-- Whether the turn asks for an object outside of loops. -/
def Turn.creates (t : Turn) (_ : Handle) : Bool :=
  match t.request with
  | .create _ => true
  | _ => false

/-- Whether the turn asks for a copy. -/
def Turn.copies (t : Turn) (h : Handle) : Bool := (t.asked? h).isSome

/-- The keys made in those turns that `which` picks, in the order in which they were made. -/
def Handle.mintedIn (which : Turn → Handle → Bool) (h : Handle) : List Turn → List Key
  | [] => []
  | t :: turns =>
    (if which t h then (t.minted? h).toList else []) ++ (t.next h).mintedIn which turns

namespace Handle

theorem mintedIn_sublist (which : Turn → Handle → Bool) (h : Handle) (turns : List Turn) :
    (h.mintedIn which turns).Sublist (h.minted turns) := by
  induction turns generalizing h with
  | nil => exact .refl _
  | cons t turns ih =>
    refine List.Sublist.append ?_ (ih (t.next h))
    split
    · exact .refl _
    · exact List.nil_sublist _

theorem mem_mintedIn {which : Turn → Handle → Bool} {h : Handle} {turns : List Turn} {key : Key}
    (hk : key ∈ h.mintedIn which turns) :
    key.owner = h.id ∧ key.index ≤ h.layout.maxIndex := by
  have hminted := (h.mintedIn_sublist which turns).subset hk
  obtain ⟨howner, -, -⟩ := minted_bounds hminted
  exact ⟨howner, Layout.check_eq_ok.1 (check_of_minted hminted)⟩

theorem mintedIn_cons (which : Turn → Handle → Bool) (h : Handle) (t : Turn) (turns : List Turn) :
    h.mintedIn which (t :: turns) = (t.next h).mintedIn which turns ∨
      ∃ key, which t h ∧ t.minted? h = some key ∧
        h.mintedIn which (t :: turns) = key :: (t.next h).mintedIn which turns := by
  rw [mintedIn]
  cases hw : which t h with
  | false => exact Or.inl rfl
  | true =>
    cases hm : t.minted? h with
    | none => exact Or.inl rfl
    | some key => exact Or.inr ⟨key, rfl, rfl, rfl⟩

end Handle

/-! ## The names of new objects -/

namespace Turn

variable {t : Turn} {h : Handle} {names : UsedNames} {key : Key}

/-- As long as a handle is not opened again, no name goes from its record. -/
theorem next_record (hone : t.request ≠ .reopen) (hl : (t.next h).names = some names) :
    ∃ used, h.names = some used ∧ used.names ⊆ names.names := by
  have he := t.effect h
  have hkept : h.names = some names → ∃ used, h.names = some used ∧
      used.names ⊆ names.names := fun hsame => ⟨names, hsame, List.Subset.refl _⟩
  generalize t.next h = h', t.minted? h = minted?, t.breaksOff h = breaksOff at he hl
  cases he with
  | settled _ hm =>
    obtain ⟨storage, rfl⟩ := hm
    exact hkept hl
  | reopened hr => exact absurd hr hone
  | closed => cases hl
  | disposed => cases hl
  | created _ _ _ hmakes =>
    generalize t.request = request at hmakes
    cases hl
    cases hmakes with
    | alone hused _ hnames => exact ⟨_, hused, by rw [hnames]; exact List.subset_cons_self _ _⟩
    | looped hsame => exact hkept hsame
  | unreserved _ _ _ _ hm =>
    obtain ⟨storage, rfl⟩ := hm
    exact hkept hl
  | _ => exact hkept hl

/-- A new object gets a name that is not on record, and then is. -/
theorem next_created (hc : t.creates h) (hk : t.minted? h = some key) : ∃ used names,
    h.names = some used ∧ key.name.text ∉ used ∧
      (t.next h).names = some names ∧ names.names = key.name.text :: used.names := by
  rcases made_for hk with ⟨names, -, hmakes, hnext⟩ | ⟨store, flush, ha, -⟩
  · unfold creates at hc
    generalize t.request = request at hmakes hc
    cases hmakes with
    | alone hused hnew hnames => exact ⟨_, names, hused, hnew, hnext, hnames⟩
    | looped => cases hc
  · unfold creates at hc
    unfold asked? at ha
    split at hc
    · next hr =>
      rw [hr] at ha
      cases ha
    · cases hc

end Turn

/-- No name is given out twice while the handle is not opened again, nor one that was on record. -/
theorem Handle.created_names {h : Handle} {turns : List Turn}
    (hone : ∀ t ∈ turns, t.request ≠ .reopen) :
    ((h.mintedIn Turn.creates turns).map (·.name.text)).Nodup ∧
      ∀ key ∈ h.mintedIn Turn.creates turns, ∃ used, h.names = some used ∧
        key.name.text ∉ used.names := by
  induction turns generalizing h with
  | nil => exact ⟨List.nodup_nil, nofun⟩
  | cons t turns ih =>
    rw [List.forall_mem_cons] at hone
    obtain ⟨hnodup, hnew⟩ := ih (h := t.next h) hone.2
    rcases h.mintedIn_cons Turn.creates t turns with hskip | ⟨key, hc, hk, hcons⟩
    · rw [hskip]
      refine ⟨hnodup, fun later hlater => ?_⟩
      obtain ⟨names, hl, hnot⟩ := hnew later hlater
      obtain ⟨used, hused, hsub⟩ := Turn.next_record hone.1 hl
      exact ⟨used, hused, fun hmem => hnot (hsub hmem)⟩
    · obtain ⟨used, names, hused, hfresh, hnext, hnames⟩ := Turn.next_created hc hk
      -- names that come later are not on the record that this one is on
      have hlater : ∀ later ∈ (t.next h).mintedIn Turn.creates turns,
          later.name.text ≠ key.name.text ∧ later.name.text ∉ used.names := by
        intro later hlater
        obtain ⟨names', hl, hnot⟩ := hnew later hlater
        rw [hnext] at hl
        cases hl
        rwa [hnames, List.mem_cons, not_or] at hnot
      rw [hcons, List.map_cons, List.nodup_cons]
      refine ⟨⟨fun hmem => ?_, hnodup⟩, ?_⟩
      · obtain ⟨later, hmem, heq⟩ := List.mem_map.1 hmem
        exact (hlater later hmem).1 heq
      · rw [List.forall_mem_cons]
        exact ⟨⟨used, hused, hfresh⟩, fun later hmem => ⟨used, hused, (hlater later hmem).2⟩⟩

/-! ## The names of copies -/

/-- A number in front of an underscore can be told from the text. -/
theorem Text.number_in_front {m n : Nat} {a b : String}
    (h : toString m ++ "_" ++ a = toString n ++ "_" ++ b) : m = n := by
  have hfront : ∀ (k : Nat) (rest : String),
      (toString k ++ "_" ++ rest).toList.takeWhile (· ≠ '_') = (toString k).toList := by
    intro k rest
    have hdigits : ∀ c ∈ (toString k).toList, decide (c ≠ '_') = true := by
      intro c hc
      rw [decide_eq_true_eq]
      rintro rfl
      exact notMem_toString (by decide) k hc
    have hsplit : (toString k ++ "_" ++ rest).toList =
        (toString k).toList ++ '_' :: rest.toList := by simp
    rw [hsplit, List.takeWhile_append_of_pos hdigits]
    exact List.append_nil _
  have hnumber := congrArg (fun text => text.toList.takeWhile (· ≠ '_')) h
  rw [hfront, hfront, String.toList_inj] at hnumber
  have hread := congrArg Json.natural? hnumber
  rwa [Json.natural?_toString, Json.natural?_toString, Option.some_inj] at hread

namespace Turn

variable {t : Turn} {h : Handle} {key : Key}

theorem copy_named (hc : t.copies h) (hk : t.minted? h = some key) :
    ∃ rest, key.name.text = toString key.index.toNat ++ "_" ++ rest := by
  rcases made_for hk with ⟨names, ha, -⟩ | ⟨store, flush, -, hname⟩
  · rw [copies, ha] at hc
    cases hc
  · exact ⟨_, by rw [hname, (mints_of_minted hk).index, Handle.copyName]⟩

end Turn

theorem Handle.copies_named {h : Handle} {turns : List Turn} {key : Key}
    (hk : key ∈ h.mintedIn Turn.copies turns) :
    ∃ rest, key.name.text = toString key.index.toNat ++ "_" ++ rest := by
  induction turns generalizing h with
  | nil => cases hk
  | cons t turns ih =>
    rcases h.mintedIn_cons Turn.copies t turns with hskip | ⟨first, hc, hm, hcons⟩
    · rw [hskip] at hk
      exact ih hk
    · rw [hcons] at hk
      rcases List.mem_cons.1 hk with rfl | hk
      · exact Turn.copy_named hc hm
      · exact ih hk

/-- Where two keys of a handle share a place. Once there is a base directory, they lead to the same
path if and only if they are of one group and have one name; loops make no difference. So objects
made outside of loops, while the handle is not opened again, are kept apart, and so are the copies
made in its whole life, whatever the objects are called that they are copies of. -/
theorem keys_kept_apart :
    (∀ (s : Scene) (base : Path) (a b : Key), s.handle.baseDir? = some base →
      a.owner = s.handle.id → b.owner = s.handle.id →
      a.index ≤ s.handle.layout.maxIndex → b.index ≤ s.handle.layout.maxIndex → ∃ p q,
        HandleM.objectPath a s = .ok p s ∧ HandleM.objectPath b s = .ok q s ∧
        (p = q ↔ s.handle.layout.Shares a b) ∧
        (p.segments = q.segments ↔ s.handle.layout.Shares a b)) ∧
    ∀ (h : Handle) (turns later : List Turn) (s : Scene) (base : Path),
      s.handle = (h.after turns).after later → s.handle.baseDir? = some base →
        ((∀ t ∈ turns, t.request ≠ .reopen) →
          (h.mintedIn Turn.creates turns).Pairwise (HandleM.Parts s)) ∧
        (h.mintedIn Turn.copies turns).Pairwise (HandleM.Parts s) := by
  refine ⟨?_, ?_⟩
  · intro s base a b hbase ha hb hroom hroom'
    exact HandleM.objectPath_eq_iff (Handle.baseDir?_eq_some.1 hbase) ha hb hroom hroom'
  · intro h turns later s base hs hbase
    have hplaced := Handle.baseDir?_eq_some.1 hbase
    have hsame : h.Same s.handle := by
      rw [hs]
      exact (h.after_same turns).trans ((h.after turns).after_same later)
    have hparts : ∀ {which : Turn → Handle → Bool} {a b : Key}, a ∈ h.mintedIn which turns →
        b ∈ h.mintedIn which turns → a.name.text ≠ b.name.text → HandleM.Parts s a b := by
      intro which a b ha hb hne
      obtain ⟨howner, hroom⟩ := Handle.mem_mintedIn ha
      obtain ⟨howner', hroom'⟩ := Handle.mem_mintedIn hb
      rw [← hsame.id] at howner howner'
      rw [← hsame.layout] at hroom hroom'
      exact HandleM.parts_of_names hplaced howner howner' hroom hroom' hne
    refine ⟨fun hone => ?_, ?_⟩
    · have hnodup := (Handle.created_names (h := h) hone).1
      rw [List.Nodup, List.pairwise_map] at hnodup
      exact hnodup.imp_of_mem fun ha hb hne => hparts ha hb hne
    · have hincreasing := (h.minted_increasing turns).sublist (h.mintedIn_sublist Turn.copies turns)
      refine hincreasing.imp_of_mem fun {a b} ha hb hlt => hparts ha hb fun heq => ?_
      obtain ⟨rest, hname⟩ := Handle.copies_named ha
      obtain ⟨rest', hname'⟩ := Handle.copies_named hb
      rw [hname, hname'] at heq
      rw [UInt64.toNat_inj.1 (Text.number_in_front heq)] at hlt
      exact UInt64.lt_irrefl _ hlt

theorem keys_kept_apart_sample : ∃ p q,
    HandleM.objectPath Sample.copy ⟨Sample.handle, Sample.files, .byName, [], 0⟩ =
      .ok p ⟨Sample.handle, Sample.files, .byName, [], 0⟩ ∧
    HandleM.objectPath ⟨⟨5#128⟩, 1, .empty, ⟨"1_a", by decide⟩⟩
      ⟨Sample.handle, Sample.files, .byName, [], 0⟩ =
        .ok q ⟨Sample.handle, Sample.files, .byName, [], 0⟩ ∧
    p ≠ q := by
  obtain ⟨p, q, hp, hq, hsame, -⟩ := keys_kept_apart.1
    ⟨Sample.handle, Sample.files, .byName, [], 0⟩ ⟨"/b"⟩ Sample.copy
    ⟨⟨5#128⟩, 1, .empty, ⟨"1_a", by decide⟩⟩ rfl rfl rfl (by decide +kernel) (by decide +kernel)
  exact ⟨p, q, hp, hq, fun he => absurd (hsame.1 he).2 (by decide)⟩

end Depot
