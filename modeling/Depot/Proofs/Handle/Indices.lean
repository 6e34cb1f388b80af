import Depot.Proofs.Handle.Effects

/-! The indices of keys. Every key takes the index that is next, a copy that breaks off wastes one,
and nothing else moves the index. -/

namespace Depot

namespace Layout

theorem capacity_pos (l : Layout) : 0 < l.capacity := by
  have htwo := l.two_le
  exact Nat.pow_pos (by omega)

theorem maxIndex_toNat (l : Layout) : l.maxIndex.toNat = l.capacity - 1 := by
  have hfits : l.capacity < UInt64.size := l.fits
  rw [maxIndex, UInt64.toNat_ofNat', Nat.mod_eq_of_lt]
  change _ < UInt64.size
  omega

/-- An index with a place has one after it. -/
theorem toNat_succ {l : Layout} {index : UInt64} (h : index ≤ l.maxIndex) :
    (index + 1).toNat = index.toNat + 1 := by
  have hfits : l.capacity < UInt64.size := l.fits
  have hpos := l.capacity_pos
  have hle := UInt64.le_iff_toNat_le.1 h
  rw [maxIndex_toNat] at hle
  rw [UInt64.toNat_add, UInt64.toNat_one, Nat.mod_eq_of_lt]
  change _ < UInt64.size
  omega

end Layout

/-- What a handle is for good. -/
structure Handle.Same (h h' : Handle) : Prop where
  id : h'.id = h.id
  label : h'.label = h.label
  settings : h'.settings = h.settings
  layout : h'.layout = h.layout
  tempRoot : h'.tempRoot = h.tempRoot

namespace Handle

theorem Same.refl (h : Handle) : Same h h := ⟨rfl, rfl, rfl, rfl, rfl⟩

theorem Same.trans {a b c : Handle} (hab : Same a b) (hbc : Same b c) : Same a c :=
  ⟨hbc.id.trans hab.id, hbc.label.trans hab.label, hbc.settings.trans hab.settings,
    hbc.layout.trans hab.layout, hbc.tempRoot.trans hab.tempRoot⟩

theorem Moves.same {h h' : Handle} (hm : h.Moves h') : Same h h' := by
  obtain ⟨storage, rfl⟩ := hm
  exact ⟨rfl, rfl, rfl, rfl, rfl⟩

theorem Moves.nextIndex {h h' : Handle} (hm : h.Moves h') : h'.nextIndex = h.nextIndex := by
  obtain ⟨storage, rfl⟩ := hm
  rfl

end Handle

namespace Turn

theorem next_same (t : Turn) (h : Handle) : h.Same (t.next h) := by
  have he := t.effect h
  generalize t.next h = h', t.minted? h = minted?, t.breaksOff h = breaksOff at he ⊢
  cases he with
  | settled _ hm => exact hm.same
  | unreserved _ _ _ _ hm => exact ⟨hm.same.id, hm.same.label, hm.same.settings, hm.same.layout,
      hm.same.tempRoot⟩
  | _ => exact ⟨rfl, rfl, rfl, rfl, rfl⟩

theorem mints_of_minted {t : Turn} {h : Handle} {key : Key} (hk : t.minted? h = some key) :
    h.Mints key := by
  have he := t.effect h
  rw [hk] at he
  generalize t.next h = h', t.breaksOff h = breaksOff at he
  cases he with
  | created _ _ hm => exact hm
  | copied _ _ _ _ hm => exact hm

/-- A key is made for a new object or for a copy. -/
theorem made_for {t : Turn} {h : Handle} {key : Key} (hk : t.minted? h = some key) :
    (∃ names, t.asked? h = none ∧ t.request.Makes h key names ∧
      (t.next h).names = some names) ∨
    ∃ store flush, t.asked? h = some (store, flush) ∧ key.name.text = h.copyName store.key := by
  have he := t.effect h
  rw [hk] at he
  generalize t.next h = h', t.breaksOff h = breaksOff at he ⊢
  cases he with
  | created ha _ _ hmakes => exact Or.inl ⟨_, ha, hmakes, rfl⟩
  | copied ha _ _ _ _ hname => exact Or.inr ⟨_, _, ha, hname⟩

/-- Whether the turn uses up an index. -/
def spends (t : Turn) (h : Handle) : Bool := (t.minted? h).isSome || t.breaksOff h

theorem next_index (t : Turn) (h : Handle) :
    (t.next h).nextIndex.toNat = h.nextIndex.toNat + if t.spends h then 1 else 0 := by
  have he := t.effect h
  unfold spends
  generalize t.next h = h', t.minted? h = minted?, t.breaksOff h = breaksOff at he ⊢
  cases he with
  | settled _ hm => simp [hm.nextIndex]
  | unreserved _ _ _ _ hm => simp [hm.nextIndex]
  | created _ _ hm => simp [Layout.toNat_succ hm.room]
  | copied _ _ _ _ hm => simp [Layout.toNat_succ hm.room]
  | broken _ _ _ _ hr => simp [Layout.toNat_succ hr]
  | closed => rfl
  | _ => simp

end Turn

namespace Handle

/-- The keys made in some turns, in the order in which they were made. -/
def minted (h : Handle) : List Turn → List Key
  | [] => []
  | t :: turns => (t.minted? h).toList ++ (t.next h).minted turns

/-- How many copies broke off in some turns. -/
def wasted (h : Handle) : List Turn → Nat
  | [] => 0
  | t :: turns => (if t.breaksOff h then 1 else 0) + (t.next h).wasted turns

theorem after_cons (h : Handle) (t : Turn) (turns : List Turn) :
    h.after (t :: turns) = (t.next h).after turns := rfl

theorem minted_append (h : Handle) (l₁ l₂ : List Turn) :
    h.minted (l₁ ++ l₂) = h.minted l₁ ++ (h.after l₁).minted l₂ := by
  induction l₁ generalizing h with
  | nil => rfl
  | cons t l₁ ih =>
    rw [List.cons_append, minted, ih, minted, List.append_assoc]
    rfl

theorem after_same (h : Handle) (turns : List Turn) : h.Same (h.after turns) := by
  induction turns generalizing h with
  | nil => exact .refl h
  | cons t turns ih => exact (t.next_same h).trans (ih (t.next h))

theorem le_after (h : Handle) (turns : List Turn) :
    h.nextIndex.toNat ≤ (h.after turns).nextIndex.toNat := by
  induction turns generalizing h with
  | nil => exact Nat.le_refl _
  | cons t turns ih =>
    have hstep := t.next_index h
    have hrest := ih (t.next h)
    rw [after_cons]
    omega

/-- A key made in some turns has an index from their course. -/
theorem minted_bounds {h : Handle} {turns : List Turn} {key : Key} (hk : key ∈ h.minted turns) :
    key.owner = h.id ∧ h.nextIndex.toNat ≤ key.index.toNat ∧
      key.index.toNat < (h.after turns).nextIndex.toNat := by
  induction turns generalizing h with
  | nil => cases hk
  | cons t turns ih =>
    have hstep := t.next_index h
    rw [after_cons]
    rcases List.mem_append.1 hk with hk | hk
    · have hm := Option.mem_toList.1 hk
      have hmint := Turn.mints_of_minted hm
      have hrest := (t.next h).le_after turns
      simp only [Turn.spends, Option.mem_def.1 hm, Option.isSome_some, Bool.true_or,
        ↓reduceIte] at hstep
      have hindex : key.index.toNat = h.nextIndex.toNat := by rw [hmint.index]
      exact ⟨hmint.owner, by omega, by omega⟩
    · obtain ⟨ho, hl, hu⟩ := ih hk
      exact ⟨ho.trans (t.next_same h).id, by omega, hu⟩

/-- A key that was made has a place. -/
theorem check_of_minted {h : Handle} {turns : List Turn} {key : Key} (hk : key ∈ h.minted turns) :
    h.layout.check key.index = .ok () := by
  induction turns generalizing h with
  | nil => cases hk
  | cons t turns ih =>
    rcases List.mem_append.1 hk with hk | hk
    · have hmint := Turn.mints_of_minted (Option.mem_toList.1 hk)
      rw [hmint.index]
      exact Layout.check_eq_ok.2 hmint.room
    · have hrest := ih hk
      rwa [(t.next_same h).layout] at hrest

theorem minted_increasing (h : Handle) (turns : List Turn) :
    (h.minted turns).Pairwise (·.index < ·.index) := by
  induction turns generalizing h with
  | nil => exact .nil
  | cons t turns ih =>
    rw [minted]
    cases hm : t.minted? h with
    | none => exact ih (t.next h)
    | some key =>
      have hmint := Turn.mints_of_minted hm
      have hstep := t.next_index h
      simp only [Turn.spends, hm, Option.isSome_some, Bool.true_or, ↓reduceIte] at hstep
      refine List.pairwise_cons.2 ⟨fun later hl => ?_, ih (t.next h)⟩
      obtain ⟨-, hle, -⟩ := minted_bounds hl
      rw [UInt64.lt_iff_toNat_lt, hmint.index]
      omega

theorem minted_consecutive (h : Handle) (turns : List Turn) (hw : h.wasted turns = 0) :
    (h.minted turns).map (·.index.toNat) =
      List.range' h.nextIndex.toNat (h.minted turns).length := by
  induction turns generalizing h with
  | nil => rfl
  | cons t turns ih =>
    have hstep := t.next_index h
    rw [wasted] at hw
    have hbreak : t.breaksOff h = false := by
      cases hb : t.breaksOff h with
      | false => rfl
      | true => simp [hb] at hw
    have hrest := ih (t.next h) (by omega)
    rw [minted]
    cases hm : t.minted? h with
    | none =>
      simp only [Turn.spends, hm, hbreak, Option.isSome_none, Bool.or_self, Bool.false_eq_true,
        ↓reduceIte, Nat.add_zero] at hstep
      rw [hstep] at hrest
      exact hrest
    | some key =>
      have hmint := Turn.mints_of_minted hm
      simp only [Turn.spends, hm, Option.isSome_some, Bool.true_or, ↓reduceIte] at hstep
      rw [hstep] at hrest
      simp only [Option.toList_some, List.cons_append, List.nil_append, List.map_cons,
        List.length_cons, List.range'_succ, hrest, hmint.index]

end Handle

/-! ## Where the index starts -/

theorem SessionM.takeUp_ok {slot registry : String} {settings : Settings} {saved : SavedHandle}
    {storage : Storage} {h : Handle} {s s' : Session}
    (hs : takeUp slot registry settings saved storage s = .ok h s') : ∃ layout,
      settings.validate = .ok layout ∧ h =
        { id := saved.id
          label := saved.label
          settings, layout
          tempRoot := settings.tempRoot.getD s.systemTemp
          lifecycle := .fresh
          storage
          nextIndex := saved.nextIndex
          names := none
          copies := none } := by
  unfold takeUp at hs
  cases hv : settings.validate with
  | error fault =>
    rw [hv] at hs
    cases hs
  | ok layout =>
    rw [hv] at hs
    simp only [Work.bind_eq_ok] at hs
    obtain ⟨_, _, hg, _, s₁, -, _, s₂, -, _, s₃, -, hp⟩ := hs
    cases hg
    cases hp
    exact ⟨layout, rfl, rfl⟩

/-- Index accounting. A new handle starts at 0, a restored one where it was; each key has the index
that was next, and the index moves by one for each key and for each copy that breaks off, and for
nothing else. -/
theorem index_accounting :
    (∀ slot registry settings label id s h s',
      SessionM.create slot registry settings label id s = .ok h s' →
        h.id = id ∧ h.nextIndex = 0) ∧
    (∀ slot registry settings saved source s h s',
      SessionM.restore slot registry settings saved source s = .ok h s' →
        h.id = saved.id ∧ h.nextIndex = saved.nextIndex) ∧
    ∀ (h : Handle) (turns : List Turn),
      (∀ before t later, turns = before ++ t :: later →
        (∀ key, t.minted? (h.after before) = some key →
          key.owner = h.id ∧ key.index = (h.after before).nextIndex) ∧
        (t.next (h.after before)).nextIndex.toNat = (h.after before).nextIndex.toNat +
          if (t.minted? (h.after before)).isSome || t.breaksOff (h.after before) then 1 else 0) ∧
      (h.minted turns).Pairwise (·.index < ·.index) ∧
      (h.wasted turns = 0 → (h.minted turns).map (·.index.toNat) =
        List.range' h.nextIndex.toNat (h.minted turns).length) := by
  refine ⟨?_, ?_, ?_⟩
  · intro slot registry settings label id s h s' hs
    obtain ⟨layout, -, rfl⟩ := SessionM.takeUp_ok hs
    exact ⟨rfl, rfl⟩
  · intro slot registry settings saved source s h s' hs
    obtain ⟨layout, -, rfl⟩ := SessionM.takeUp_ok hs
    exact ⟨rfl, rfl⟩
  · intro h turns
    refine ⟨?_, h.minted_increasing turns, h.minted_consecutive turns⟩
    intro before t later _
    refine ⟨?_, t.next_index _⟩
    intro key hk
    have hmint := Turn.mints_of_minted hk
    exact ⟨hmint.owner.trans (h.after_same before).id, hmint.index⟩

theorem index_accounting_sample : ∃ key,
    (Sample.ask 1).minted? (Sample.handle.after [Sample.ask 0]) = some key ∧
    key.index = (Sample.handle.after [Sample.ask 0]).nextIndex ∧
    (Sample.handle.minted [Sample.ask 0, Sample.ask 1]).map (·.index.toNat) = [0, 1] := by
  obtain ⟨-, -, hrun⟩ := index_accounting
  obtain ⟨hturns, -, hall⟩ := hrun Sample.handle [Sample.ask 0, Sample.ask 1]
  have hmade : ((Sample.ask 1).minted? (Sample.handle.after [Sample.ask 0])).isSome := by
    decide +kernel
  obtain ⟨key, hkey⟩ := Option.isSome_iff_exists.1 hmade
  refine ⟨key, hkey, ((hturns [Sample.ask 0] (Sample.ask 1) [] rfl).1 key hkey).2, ?_⟩
  rw [hall (by decide +kernel)]
  decide +kernel

end Depot
