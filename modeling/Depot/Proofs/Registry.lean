import Depot.Registry

/-! What a registry answers. Entries that lead nowhere count for nothing, so a registry that drops
them answers as before; an identity that was taken out is not entered again. -/

namespace Depot.Registry

variable {ρ : Type} {alive alive' : ρ → Bool} {r r' : Registry ρ} {id : Identity} {ref : ρ}

theorem resolve_eq_some :
    r.resolve alive id = some ref ↔ r.entries[id]? = some ref ∧ alive ref := by
  rw [resolve, Option.filter_eq_some_iff]

theorem isRetired_iff : r.isRetired id ↔ id ∈ r.retired := Std.ExtTreeSet.contains_iff_mem

theorem resolve_of_retired (alive : ρ → Bool) (h : r.isRetired id) : r.resolve alive id = none := by
  rw [resolve, r.parted id (isRetired_iff.1 h)]
  rfl

/-! ## The identities in order -/

/-- The identities are read off what they lead to. -/
theorem ids_congr (h : ∀ id, r.resolve alive id = r'.resolve alive' id) :
    r.ids alive = r'.ids alive' := by
  have hfilter : (r.entries.filter fun _ ref => alive ref) =
      r'.entries.filter fun _ ref => alive' ref := by
    apply Std.ExtTreeMap.ext_getElem?
    intro id
    rw [Std.ExtTreeMap.getElem?_filter', Std.ExtTreeMap.getElem?_filter']
    exact h id
  rw [ids, ids, hfilter]

theorem mem_ids : id ∈ r.ids alive ↔ (r.resolve alive id).isSome := by
  rw [ids, Std.ExtTreeMap.mem_keys, Std.ExtTreeMap.mem_iff_isSome_getElem?,
    Std.ExtTreeMap.getElem?_filter']
  rfl

theorem ids_increasing (alive : ρ → Bool) (r : Registry ρ) :
    (r.ids alive).Pairwise fun a b => compare a b = .lt := Std.ExtTreeMap.ordered_keys

/-- The entries that count are those whose identities are listed. -/
theorem size_eq_length (alive : ρ → Bool) (r : Registry ρ) :
    r.size alive = (r.ids alive).length := by
  rw [size, ids, ← Std.ExtTreeMap.map_fst_toList_eq_keys, List.length_map,
    Std.ExtTreeMap.toList_filter, List.countP_eq_length_filter]

/-- The answers about every identity are the same. -/
structure Agrees (alive alive' : ρ → Bool) (r r' : Registry ρ) : Prop where
  resolve : ∀ id, r'.resolve alive' id = r.resolve alive id
  isRetired : ∀ id, r'.isRetired id = r.isRetired id

namespace Agrees

theorem refl (alive : ρ → Bool) (r : Registry ρ) : Agrees alive alive r r :=
  ⟨fun _ => rfl, fun _ => rfl⟩

theorem contains (h : Agrees alive alive' r r') (id : Identity) :
    r'.contains alive' id = r.contains alive id := by
  rw [Registry.contains, h.resolve id, Registry.contains]

theorem ids (h : Agrees alive alive' r r') : r'.ids alive' = r.ids alive := ids_congr h.resolve

theorem size (h : Agrees alive alive' r r') : r'.size alive' = r.size alive := by
  rw [size_eq_length, size_eq_length, h.ids]

end Agrees

theorem getElem?_prune (id : Identity) :
    (r.prune alive).entries[id]? = (r.entries[id]?).filter alive :=
  Std.ExtTreeMap.getElem?_filter' ..

theorem prune_agrees : Agrees alive alive r (r.prune alive) where
  resolve id := by
    rw [resolve, getElem?_prune, Option.filter_filter]
    simp [resolve]
  isRetired _ := rfl

/-! ## Entering and taking out -/

/-- The ways in which entering a handle can go. -/
inductive RegisterCase (alive : ρ → Bool) (r : Registry ρ) (id : Identity) (ref : ρ) :
    Except RegistryFault Unit × Registry ρ → Prop where
  | retired : r.isRetired id → RegisterCase alive r id ref (.error .retired, r)
  | taken : r.isRetired id = false → (r.resolve alive id).isSome →
      RegisterCase alive r id ref (.error .taken, r.prune alive)
  | entered {r' : Registry ρ} : r.isRetired id = false → r.resolve alive id = none →
      r'.retired = r.retired → r'.entries = (r.prune alive).entries.insert id ref →
      RegisterCase alive r id ref (.ok (), r')

theorem registerCase (alive : ρ → Bool) (r : Registry ρ) (id : Identity) (ref : ρ) :
    RegisterCase alive r id ref (r.register alive id ref) := by
  unfold register
  split
  · next hr => exact .retired (isRetired_iff.2 hr)
  · next hr =>
    have hfree : r.isRetired id = false := by
      rw [← Bool.not_eq_true, isRetired_iff]
      exact hr
    have hsame : (r.prune alive).entries[id]? = r.resolve alive id := getElem?_prune id
    dsimp only
    split
    · next ht => exact .taken hfree (by rwa [hsame] at ht)
    · next ht =>
      rw [hsame, Option.not_isSome_iff_eq_none] at ht
      exact .entered hfree ht rfl rfl

theorem getElem?_insert_prune (id' : Identity) :
    ((r.prune alive).entries.insert id ref)[id']? =
      if id' = id then some ref else (r.entries[id']?).filter alive := by
  rw [Std.ExtTreeMap.getElem?_insert, getElem?_prune]
  simp only [Std.LawfulEqOrd.compare_eq_iff_eq, @eq_comm _ id]

theorem getElem?_deregister (id' : Identity) :
    (r.deregister id).2.entries[id']? = if id' = id then none else r.entries[id']? := by
  rw [deregister, Std.ExtTreeMap.getElem?_erase]
  simp only [Std.LawfulEqOrd.compare_eq_iff_eq, @eq_comm _ id]

theorem isRetired_deregister (id' : Identity) :
    (r.deregister id).2.isRetired id' = (r.isRetired id' || decide (id' = id)) := by
  rw [Bool.eq_iff_iff, Bool.or_eq_true, isRetired_iff, isRetired_iff, deregister,
    Std.ExtTreeSet.mem_insert, Std.LawfulEqOrd.compare_eq_iff_eq, decide_eq_true_iff, eq_comm,
    or_comm]

/-- Taking out what has been taken out before finds nothing and changes nothing. -/
theorem deregister_of_retired (h : r.isRetired id) : r.deregister id = (false, r) := by
  have hentries : r.entries.erase id = r.entries := by
    apply Std.ExtTreeMap.ext_getElem?
    intro id'
    rw [Std.ExtTreeMap.getElem?_erase]
    split
    · next he =>
      rw [← Std.LawfulEqOrd.eq_of_compare he]
      exact (r.parted id (isRetired_iff.1 h)).symm
    · rfl
  have hretired : r.retired.insert id = r.retired := by
    apply Std.ExtTreeSet.ext_mem
    intro id'
    rw [Std.ExtTreeSet.mem_insert]
    refine ⟨?_, Or.inr⟩
    rintro (he | hmem)
    · rw [← Std.LawfulEqOrd.eq_of_compare he]
      exact isRetired_iff.1 h
    · exact hmem
  simp only [deregister, r.parted id (isRetired_iff.1 h), hentries, hretired, Option.isSome_none]

section Register

variable {id' : Identity} {ref' : ρ}

theorem retired_register {result : Except RegistryFault Unit}
    (h : r.register alive id ref = (result, r')) : r'.retired = r.retired := by
  have hcase := registerCase alive r id ref
  rw [h] at hcase
  cases hcase with
  | retired => rfl
  | taken => rfl
  | entered _ _ hretired => exact hretired

/-- An entry that is there afterwards was there before, or is the new one. -/
theorem entry_of_register (h : (r.register alive id ref).2.entries[id']? = some ref') :
    r.entries[id']? = some ref' ∨
      (r.register alive id ref).1 = .ok () ∧ id' = id ∧ ref' = ref := by
  have hcase := registerCase alive r id ref
  generalize r.register alive id ref = result at h hcase ⊢
  cases hcase with
  | retired => exact Or.inl h
  | taken =>
    rw [getElem?_prune, Option.filter_eq_some_iff] at h
    exact Or.inl h.1
  | entered _ _ _ hentries =>
    rw [hentries, getElem?_insert_prune] at h
    split at h
    · next he => exact Or.inr ⟨rfl, he, (Option.some.inj h).symm⟩
    · exact Or.inl (Option.filter_eq_some_iff.1 h).1

/-- An entry that leads to a handle stays. -/
theorem register_keeps (h : r.entries[id']? = some ref') (halive : alive ref') :
    (r.register alive id ref).2.entries[id']? = some ref' := by
  have hresolve : r.resolve alive id' = some ref' := resolve_eq_some.2 ⟨h, halive⟩
  have hcase := registerCase alive r id ref
  generalize r.register alive id ref = result at hcase
  cases hcase with
  | retired => exact h
  | taken =>
    rw [getElem?_prune]
    exact hresolve
  | entered _ hfree _ hentries =>
    rw [hentries, getElem?_insert_prune]
    split
    · next he =>
      rw [he, hfree] at hresolve
      cases hresolve
    · exact hresolve

theorem register_new (h : (r.register alive id ref).1 = .ok ()) :
    (r.register alive id ref).2.entries[id]? = some ref := by
  have hcase := registerCase alive r id ref
  generalize r.register alive id ref = result at h hcase
  cases hcase with
  | retired => cases h
  | taken => cases h
  | entered _ _ _ hentries =>
    rw [hentries, getElem?_insert_prune, if_pos rfl]

/-- A registry that refuses a handle answers as before. -/
theorem refused_agrees {fault : RegistryFault}
    (h : r.register alive id ref = (.error fault, r')) : Agrees alive alive r r' := by
  have hcase := registerCase alive r id ref
  rw [h] at hcase
  cases hcase with
  | retired => exact .refl alive r
  | taken => exact prune_agrees

end Register

end Depot.Registry
