import Depot.Key.Order
import Depot.Proofs.Text.Order
import Mathlib.Data.Finset.Card
import Mathlib.Data.List.SplitBy

/-! The order of keys. What comes first decides, and keys that nothing tells apart are equal, so a
list of keys has one sorted form, and in that equal keys stand together. -/

namespace Depot

/-! ## What decides -/

/-- A path comes after its own beginnings, and no iteration before any. -/
inductive LoopContext.Before (a b : LoopContext) : Prop where
  | path : a.path < b.path → Before a b
  | first {j : UInt32} : a.path = b.path → a.iteration = none → b.iteration = some j → Before a b
  | iteration {i j : UInt32} : a.path = b.path → a.iteration = some i → b.iteration = some j →
      i < j → Before a b

/-- Names come in the order of their bytes. -/
inductive Key.Before (a b : Key) : Prop where
  | owner : a.owner.bits.toNat < b.owner.bits.toNat → Before a b
  | index : a.owner = b.owner → a.index < b.index → Before a b
  | loop : a.owner = b.owner → a.index = b.index → a.loop.Before b.loop → Before a b
  | name : a.owner = b.owner → a.index = b.index → a.loop = b.loop →
      Text.bytes a.name.text < Text.bytes b.name.text → Before a b

theorem compare_list_lt {α : Type} [Ord α] [Std.LawfulEqOrd α] [LT α]
    (h : ∀ x y : α, compare x y = .lt ↔ x < y) {xs ys : List α} :
    compare xs ys = .lt ↔ xs < ys := by
  induction xs generalizing ys with
  | nil =>
    cases ys with
    | nil => simp [List.not_lt_nil]
    | cons y ys => simp [List.compare_nil_cons]
  | cons x xs ih =>
    cases ys with
    | nil => simp [List.compare_cons_nil, List.not_lt_nil]
    | cons y ys =>
      rw [List.compare_cons_cons, Ordering.then_eq_lt, List.cons_lt_cons_iff, h, ih,
        Std.LawfulEqOrd.compare_eq_iff_eq]

namespace LoopContext

instance : Std.TransOrd LoopContext :=
  inferInstanceAs (Std.TransCmp (compareLex (compareOn path) (compareOn iteration)))

instance : Std.LawfulEqOrd LoopContext where
  eq_of_compare {a b} h := by
    obtain ⟨hpath, hiteration⟩ := Ordering.then_eq_eq.1 h
    cases a
    cases b
    rw [mk.injEq]
    exact ⟨Std.LawfulEqOrd.eq_of_compare hpath, Std.LawfulEqOrd.eq_of_compare hiteration⟩

theorem compare_iteration {i? j? : Option UInt32} : compare i? j? = .lt ↔
    (i? = none ∧ ∃ j, j? = some j) ∨ ∃ i j, i? = some i ∧ j? = some j ∧ i < j := by
  cases i? <;> cases j? <;> simp [compare]

theorem compare_eq_lt {a b : LoopContext} : compare a b = .lt ↔ a.Before b := by
  have hcompare : compare a b = .lt ↔ compare a.path b.path = .lt ∨
      compare a.path b.path = .eq ∧ compare a.iteration b.iteration = .lt := Ordering.then_eq_lt
  rw [hcompare, compare_list_lt fun _ _ => Std.compare_eq_lt, Std.LawfulEqOrd.compare_eq_iff_eq,
    compare_iteration]
  constructor
  · rintro (h | ⟨hpath, ⟨hi, j, hj⟩ | ⟨i, j, hi, hj, h⟩⟩)
    · exact .path h
    · exact .first hpath hi hj
    · exact .iteration hpath hi hj h
  · rintro (h | ⟨hpath, hi, hj⟩ | ⟨hpath, hi, hj, h⟩)
    · exact Or.inl h
    · exact Or.inr ⟨hpath, Or.inl ⟨hi, _, hj⟩⟩
    · exact Or.inr ⟨hpath, Or.inr ⟨_, _, hi, hj, h⟩⟩

end LoopContext

namespace Key

instance : Std.TransOrd Key :=
  inferInstanceAs (Std.TransCmp (compareLex (compareOn owner) (compareLex (compareOn index)
    (compareLex (compareOn loop) (compareOn fun k => k.name.text)))))

instance : Std.LawfulEqOrd Key where
  eq_of_compare {a b} h := by
    obtain ⟨howner, h⟩ := Ordering.then_eq_eq.1 h
    obtain ⟨hindex, h⟩ := Ordering.then_eq_eq.1 h
    obtain ⟨hloop, hname⟩ := Ordering.then_eq_eq.1 h
    cases a
    cases b
    rw [mk.injEq]
    exact ⟨Std.LawfulEqOrd.eq_of_compare howner, Std.LawfulEqOrd.eq_of_compare hindex,
      Std.LawfulEqOrd.eq_of_compare hloop, ObjectName.ext (Std.LawfulEqOrd.eq_of_compare hname)⟩

variable {a b c : Key}

theorem compare_eq_lt : compare a b = .lt ↔ a.Before b := by
  have hcompare : compare a b = .lt ↔ compare a.owner b.owner = .lt ∨
      compare a.owner b.owner = .eq ∧ (compare a.index b.index = .lt ∨
        compare a.index b.index = .eq ∧ (compare a.loop b.loop = .lt ∨
          compare a.loop b.loop = .eq ∧ compare a.name.text b.name.text = .lt)) := by
    simp only [← Ordering.then_eq_lt]
    rfl
  have howner : compare a.owner b.owner = .lt ↔ a.owner.bits.toNat < b.owner.bits.toNat := by
    rw [Identity.compare_eq, Nat.compare_eq_lt]
  have hname : compare a.name.text b.name.text = .lt ↔
      Text.bytes a.name.text < Text.bytes b.name.text := by
    rw [Text.compare_bytes, compare_list_lt fun _ _ => Std.compare_eq_lt]
  rw [hcompare, howner, Std.compare_eq_lt, LoopContext.compare_eq_lt, hname]
  simp only [Std.LawfulEqOrd.compare_eq_iff_eq]
  constructor
  · rintro (h | ⟨howner, h | ⟨hindex, h | ⟨hloop, h⟩⟩⟩)
    · exact .owner h
    · exact .index howner h
    · exact .loop howner hindex h
    · exact .name howner hindex hloop h
  · rintro (h | ⟨howner, h⟩ | ⟨howner, hindex, h⟩ | ⟨howner, hindex, hloop, h⟩)
    · exact Or.inl h
    · exact Or.inr ⟨howner, Or.inl h⟩
    · exact Or.inr ⟨howner, Or.inr ⟨hindex, Or.inl h⟩⟩
    · exact Or.inr ⟨howner, Or.inr ⟨hindex, Or.inr ⟨hloop, h⟩⟩⟩

theorem le_trans (hab : (compare a b).isLE) (hbc : (compare b c).isLE) : (compare a c).isLE :=
  Std.TransCmp.isLE_trans hab hbc

theorem le_total (a b : Key) : (compare a b).isLE || (compare b a).isLE := by
  rw [Std.OrientedOrd.eq_swap (a := b)]
  cases compare a b <;> rfl

theorem le_antisymm (hab : (compare a b).isLE) (hba : (compare b a).isLE) : a = b :=
  Std.LawfulEqOrd.eq_of_compare (Std.OrientedCmp.isLE_antisymm hab hba)

/-! ## Sorting -/

variable {keys l₁ l₂ : List Key}

theorem sort_perm (keys : List Key) : (sort keys).Perm keys := List.mergeSort_perm ..

theorem sort_sorted (keys : List Key) : (sort keys).Pairwise fun a b => (compare a b).isLE := by
  unfold sort
  apply List.pairwise_mergeSort
  · exact fun _ _ _ => le_trans
  · exact le_total

/-- A list has one sorted form. -/
theorem sort_eq_iff : sort l₁ = sort l₂ ↔ l₁.Perm l₂ := by
  constructor
  · intro h
    have hsame := (sort_perm l₁).symm.trans (h ▸ sort_perm l₂)
    exact hsame
  · intro h
    have hsame := (sort_perm l₁).trans (h.trans (sort_perm l₂).symm)
    exact hsame.eq_of_pairwise (fun _ _ _ _ => le_antisymm) (sort_sorted l₁) (sort_sorted l₂)

theorem sortedPlaces_perm (keys : List Key) :
    (sortedPlaces keys).Perm (List.range keys.length) := by
  have hperm := (List.mergeSort_perm keys.zipIdx fun a b => (compare a.1 b.1).isLE).map (·.2)
  rwa [List.zipIdx_map_snd, ← List.range_eq_range'] at hperm

theorem getElem?_of_mem_zipIdx {k : Key × Nat} (h : k ∈ keys.zipIdx) : keys[k.2]? = some k.1 :=
  List.mk_mem_zipIdx_iff_getElem?.1 h

theorem place_of_mem_zipIdx {x : (Key × Nat) × Nat} (h : x ∈ keys.zipIdx.zipIdx) :
    x.1.2 = x.2 ∧ keys[x.2]? = some x.1.1 := by
  have hget : keys.zipIdx[x.2]? = some x.1 := List.mk_mem_zipIdx_iff_getElem?.1 h
  rw [List.getElem?_zipIdx] at hget
  obtain ⟨key, hkey, hx⟩ := Option.map_eq_some_iff.1 hget
  rw [← hx, hkey]
  exact ⟨Nat.zero_add _, rfl⟩

/-- The places are those where the sorted keys stood. -/
theorem map_sortedPlaces (keys : List Key) :
    (sortedPlaces keys).map (keys[·]?) = (sort keys).map some := by
  have hsort : (keys.zipIdx.mergeSort fun a b => (compare a.1 b.1).isLE).map (·.1) = sort keys := by
    rw [sort, List.map_mergeSort (f := Prod.fst) (s := fun a b => (compare a b).isLE)
      (fun _ _ _ _ => rfl), List.zipIdx_map_fst]
  rw [← hsort, sortedPlaces, List.map_map, List.map_map]
  apply List.map_congr_left
  intro k hk
  exact getElem?_of_mem_zipIdx ((List.mergeSort_perm ..).mem_iff.1 hk)

/-- Of equal keys, the one that stood first stands first. -/
theorem sortedPlaces_stable (keys : List Key) :
    (sortedPlaces keys).Pairwise fun i j => keys[i]? = keys[j]? → i < j := by
  -- sorting settles ties by the place in the list that is sorted
  have hties : (sortedPlaces keys).Pairwise fun i j => keys[i]? = keys[j]? → i ≤ j := by
    unfold sortedPlaces
    rw [← List.mergeSort_zipIdx, List.pairwise_map, List.pairwise_map]
    have hsorted := List.pairwise_mergeSort
      (List.zipIdxLE_trans fun (a b c : Key × Nat) => le_trans (a := a.1) (b := b.1) (c := c.1))
      (List.zipIdxLE_total fun a b => le_total a.1 b.1) keys.zipIdx.zipIdx
    refine hsorted.imp_of_mem fun {x y} hx hy hxy heq => ?_
    obtain ⟨hplace, hkey⟩ := place_of_mem_zipIdx ((List.mergeSort_perm ..).mem_iff.1 hx)
    obtain ⟨hplace', hkey'⟩ := place_of_mem_zipIdx ((List.mergeSort_perm ..).mem_iff.1 hy)
    rw [hplace, hplace'] at heq ⊢
    rw [hkey, hkey'] at heq
    have hsame : (compare y.1.1 x.1.1).isLE := by
      rw [Option.some.inj heq, Std.ReflOrd.compare_self]
      rfl
    unfold List.zipIdxLE at hxy
    simp only [hsame, ↓reduceIte] at hxy
    split at hxy
    · exact of_decide_eq_true hxy
    · cases hxy
  have hnodup : (sortedPlaces keys).Nodup := (sortedPlaces_perm keys).nodup_iff.2 List.nodup_range
  refine (hties.and hnodup).imp fun {i j} h heq => ?_
  exact Nat.lt_of_le_of_ne (h.1 heq) h.2

/-! ## Different keys -/

theorem distinct_eq_card (keys : List Key) : distinct keys = keys.toFinset.card := by
  unfold distinct
  induction hn : keys.length using Nat.strongRecOn generalizing keys with
  | ind n ih =>
  cases keys with
  | nil => rfl
  | cons key keys =>
    have hshort := List.length_filter_le (fun k => !k == key) keys
    have hrest := ih _ (by simp only [← hn, List.length_cons]; omega)
      (keys.filter fun k => !k == key) rfl
    have hset : (key :: keys).toFinset =
        insert key (keys.filter fun k => !k == key).toFinset := by
      ext k
      by_cases hk : k = key <;> simp [hk]
    rw [List.eraseDups_cons, List.length_cons, hrest, hset, Finset.card_insert_of_notMem (by simp)]

/-- Runs of one key each, no two neighbours of the same, in which keys never go down, are as many as
there are keys. -/
theorem length_eq_card {runs : List (List Key)} (hne : [] ∉ runs)
    (heq : ∀ run ∈ runs, run.IsChain fun a b => a = b)
    (hapart : runs.IsChain fun run next => ∃ h h', run.getLast h ≠ next.head h')
    (hsorted : runs.flatten.Pairwise fun a b => (compare a b).isLE) :
    runs.length = runs.flatten.toFinset.card := by
  induction runs with
  | nil => rfl
  | cons run runs ih =>
    obtain ⟨first, run, rfl⟩ := List.exists_cons_of_ne_nil fun h => hne (h ▸ List.mem_cons_self ..)
    have hfirst : ∀ key ∈ first :: run, key = first := by
      have hall := (heq _ (List.mem_cons_self ..)).pairwise
      rintro key (_ | ⟨_, hkey⟩)
      · rfl
      · exact ((List.pairwise_cons.1 hall).1 key hkey).symm
    rw [List.flatten_cons] at hsorted ⊢
    obtain ⟨-, hrest, hacross⟩ := List.pairwise_append.1 hsorted
    have hcount := ih (fun h => hne (List.mem_cons_of_mem _ h))
      (fun run h => heq run (List.mem_cons_of_mem _ h)) (List.isChain_cons.1 hapart).2 hrest
    -- the first key of the next run is another one, and all that follow are from there on
    have hnew : first ∉ runs.flatten := by
      cases runs with
      | nil => exact List.not_mem_nil
      | cons next runs =>
        obtain ⟨h, h', hother⟩ := (List.isChain_cons.1 hapart).1 next rfl
        obtain ⟨second, next, rfl⟩ := List.exists_cons_of_ne_nil h'
        rw [hfirst _ (List.getLast_mem h), List.head_cons] at hother
        have hup := hacross first (List.mem_cons_self ..) second (by simp)
        intro hmem
        rw [List.flatten_cons, List.cons_append] at hmem hrest
        rcases List.mem_cons.1 hmem with hsame | hmem
        · exact hother hsame
        · exact hother (le_antisymm hup ((List.pairwise_cons.1 hrest).1 first hmem))
    have hset : (first :: run ++ runs.flatten).toFinset = insert first runs.flatten.toFinset := by
      ext key
      simp only [List.mem_toFinset, Finset.mem_insert, List.mem_append]
      constructor
      · rintro (h | h)
        · exact Or.inl (hfirst key h)
        · exact Or.inr h
      · rintro (rfl | h)
        · exact Or.inl (List.mem_cons_self ..)
        · exact Or.inr h
    rw [List.length_cons, hcount, hset, Finset.card_insert_of_notMem (by simpa using hnew)]

theorem distinct_eq_runs (keys : List Key) :
    distinct keys = ((sort keys).splitBy (· == ·)).length := by
  have hflat : ((sort keys).splitBy (· == ·)).flatten = sort keys := List.flatten_splitBy ..
  have hne : [] ∉ (sort keys).splitBy (· == ·) := List.nil_notMem_splitBy _ _
  have heq : ∀ run ∈ (sort keys).splitBy (· == ·), run.IsChain fun a b => a = b := fun run hrun =>
    (List.isChain_of_mem_splitBy hrun).imp fun _ _ h => eq_of_beq h
  have hapart : ((sort keys).splitBy (· == ·)).IsChain fun run next =>
      ∃ h h', run.getLast h ≠ next.head h' :=
    (List.isChain_getLast_head_splitBy ..).imp fun _ _ ⟨h, h', hne⟩ => ⟨h, h', ne_of_beq_false hne⟩
  have hsorted := sort_sorted keys
  rw [← hflat] at hsorted
  rw [length_eq_card hne heq hapart hsorted, hflat, distinct_eq_card,
    List.toFinset_eq_of_perm _ _ (sort_perm keys)]

/-- The order of keys. What comes first of owner, index, loop and name decides, and keys that
nothing tells apart are equal, so of two keys one comes first unless they are the same. A list of
keys has one sorted form, in which keys never go down and the one of equals that stood first stands
first, and in which there are as many runs of equal keys as there are keys. -/
theorem linearly_ordered :
    (∀ a b : Key, (compare a b = .lt ↔ a.Before b) ∧ (compare a b = .gt ↔ b.Before a) ∧
      (compare a b = .eq ↔ a.owner = b.owner ∧ a.index = b.index ∧ a.loop = b.loop ∧
        a.name = b.name)) ∧
    (∀ a b : Key, (compare a b).isLE ∨ (compare b a).isLE) ∧
    (∀ a b : Key, (compare a b).isLE ∧ (compare b a).isLE ↔ a = b) ∧
    (∀ a b c : Key, (compare a b).isLE → (compare b c).isLE → (compare a c).isLE) ∧
    (∀ keys : List Key, (sort keys).Perm keys ∧
      ((sort keys).Pairwise fun a b => (compare a b).isLE) ∧
      (sortedPlaces keys).Perm (List.range keys.length) ∧
      (sortedPlaces keys).map (keys[·]?) = (sort keys).map some ∧
      (sortedPlaces keys).Pairwise fun i j => keys[i]? = keys[j]? → i < j) ∧
    (∀ l₁ l₂ : List Key, sort l₁ = sort l₂ ↔ l₁.Perm l₂) ∧
    ∀ keys : List Key, distinct keys = keys.toFinset.card ∧
      distinct keys = ((sort keys).splitBy (· == ·)).length := by
  refine ⟨fun a b => ⟨compare_eq_lt, ?_, ?_⟩, ?_, ?_, fun _ _ _ => le_trans, ?_,
    fun _ _ => sort_eq_iff, fun keys => ⟨distinct_eq_card keys, distinct_eq_runs keys⟩⟩
  · rw [← compare_eq_lt, Std.OrientedCmp.gt_iff_lt]
  · rw [Std.LawfulEqOrd.compare_eq_iff_eq]
    cases a
    cases b
    rw [mk.injEq]
  · intro a b
    exact Bool.or_eq_true_iff.1 (le_total a b)
  · intro a b
    refine ⟨fun h => le_antisymm h.1 h.2, ?_⟩
    rintro rfl
    rw [Std.ReflOrd.compare_self]
    exact ⟨rfl, rfl⟩
  · exact fun keys => ⟨sort_perm keys, sort_sorted keys, sortedPlaces_perm keys,
      map_sortedPlaces keys, sortedPlaces_stable keys⟩

namespace Sample

/-- Keys that their names alone tell apart, the last of them by a character of four bytes. -/
def named (name : String) (h : nameFault? name = none) : Key :=
  ⟨⟨7⟩, 3, ⟨[1, 2], some 0⟩, ⟨name, h⟩⟩

end Sample

theorem linearly_ordered_sample :
    (compare (Sample.named "a" (by decide)) (Sample.named "a\uffff" (by decide))).isLE ∧
    (compare (Sample.named "a\uffff" (by decide)) (Sample.named "a😀" (by decide))).isLE ∧
    (compare (Sample.named "a" (by decide)) (Sample.named "a😀" (by decide))).isLE := by
  have hab : (compare (Sample.named "a" (by decide))
      (Sample.named "a\uffff" (by decide))).isLE := by decide +kernel
  have hbc : (compare (Sample.named "a\uffff" (by decide))
      (Sample.named "a😀" (by decide))).isLE := by decide +kernel
  exact ⟨hab, hbc, linearly_ordered.2.2.2.1 _ _ _ hab hbc⟩

end Key

end Depot
