import Depot.Recency
import Mathlib.Data.Finset.Card

/-! What a map of bounded size still knows. Looking a key up and putting it in are the same to the
order, so a run is a list of both; a key is forgotten once `limit` others have come since. -/

namespace Depot.Recency

variable {α β : Type} [DecidableEq α]

omit [DecidableEq α] in
@[ext] theorem ext {r r' : Recency α β} (hl : r.limit = r'.limit) (he : r.entries = r'.entries) :
    r = r' := by
  cases r
  cases r'
  simp_all

@[simp] theorem put_limit (r : Recency α β) (a : α) (b : β) : (r.put a b).limit = r.limit := rfl

theorem put_entries (r : Recency α β) (a : α) (b : β) :
    (r.put a b).entries = ((a, b) :: without a r.entries).take r.limit := rfl

/-- Looking up leaves the map as if the value had been put in again. -/
theorem use_eq_some {r r' : Recency α β} {a : α} {b : β} :
    r.use a = some (b, r') ↔ r.find? a = some b ∧ r' = r.put a b := by
  unfold use
  split
  · next h =>
    have hf : r.find? a = none := h
    simp [hf]
  · next c h =>
    have hf : r.find? a = some c := h
    have hlt := length_without_lt h
    have hbound := r.bounded
    have hput : r.put a c = { r with
        entries := (a, c) :: without a r.entries
        bounded := by simp only [List.length_cons]; omega } := by
      apply ext
      · rfl
      · rw [put_entries, List.take_of_length_le]
        simp only [List.length_cons]
        omega
    rw [hf]
    simp only [← hput, Option.some.injEq, Prod.mk.injEq]
    constructor
    · rintro ⟨rfl, rfl⟩
      exact ⟨rfl, rfl⟩
    · rintro ⟨rfl, rfl⟩
      exact ⟨rfl, rfl⟩

theorem use_eq_none {r : Recency α β} {a : α} : r.use a = none ↔ r.find? a = none := by
  unfold use
  split
  · next h => exact iff_of_true rfl h
  · next b h =>
    have hf : r.find? a = some b := h
    simp [hf]

theorem find?_mem {r : Recency α β} {a : α} {b : β} (h : r.find? a = some b) :
    (a, b) ∈ r.entries := by
  obtain ⟨l₁, l₂, he, -⟩ := List.lookup_eq_some_iff.1 h
  rw [he]
  simp

theorem mem_without {a : α} {entries : List (α × β)} {p : α × β} :
    p ∈ without a entries ↔ p ∈ entries ∧ p.1 ≠ a := by
  simp [without]

theorem mem_put {r : Recency α β} {a : α} {b : β} {p : α × β} (h : p ∈ (r.put a b).entries) :
    p = (a, b) ∨ p ∈ r.entries := by
  rw [put_entries] at h
  rcases List.mem_cons.1 (List.mem_of_mem_take h) with h | h
  · exact Or.inl h
  · exact Or.inr (mem_without.1 h).1

/-! ## No key twice -/

def Distinct (r : Recency α β) : Prop := (r.entries.map (·.1)).Nodup

omit [DecidableEq α] in
theorem distinct_empty (limit : Nat) : (empty limit : Recency α β).Distinct := List.nodup_nil

theorem nodup_without {a : α} {entries : List (α × β)} (h : (entries.map (·.1)).Nodup) :
    ((without a entries).map (·.1)).Nodup :=
  h.sublist (List.filter_sublist.map _)

theorem notMem_without (a : α) (entries : List (α × β)) :
    a ∉ (without a entries).map (·.1) := by
  intro h
  obtain ⟨p, hp, he⟩ := List.mem_map.1 h
  exact (mem_without.1 hp).2 he

theorem Distinct.put {r : Recency α β} (h : r.Distinct) (a : α) (b : β) :
    (r.put a b).Distinct := by
  unfold Distinct
  rw [put_entries, List.map_take]
  refine List.Nodup.sublist (List.take_sublist _ _) ?_
  exact List.nodup_cons.2 ⟨notMem_without a r.entries, nodup_without h⟩

/-- Looking up changes the order and nothing else. -/
theorem Distinct.perm_of_use {r r' : Recency α β} (h : r.Distinct) {a : α} {b : β}
    (hu : r.use a = some (b, r')) : r'.entries.Perm r.entries ∧ r'.limit = r.limit := by
  obtain ⟨hf, rfl⟩ := use_eq_some.1 hu
  refine ⟨?_, rfl⟩
  have hlt := length_without_lt hf
  have hbound := r.bounded
  have hput : (r.put a b).entries = (a, b) :: without a r.entries := by
    rw [put_entries, List.take_of_length_le]
    simp only [List.length_cons]
    omega
  obtain ⟨l₁, l₂, he, hl₁⟩ := List.lookup_eq_some_iff.1 hf
  have hnodup : ((l₁ ++ (a, b) :: l₂).map (·.1)).Nodup := by rw [← he]; exact h
  have hself : ∀ l : List (α × β), a ∉ l.map (·.1) → without a l = l := by
    intro l hl
    refine List.filter_eq_self.2 fun p hp => ?_
    simp only [ne_eq, decide_not, Bool.not_eq_eq_eq_not, Bool.not_true, decide_eq_false_iff_not]
    rintro rfl
    exact hl (List.mem_map_of_mem hp)
  rw [List.map_append, List.map_cons, List.nodup_append] at hnodup
  obtain ⟨-, hcons, hdisj⟩ := hnodup
  have hout₁ : a ∉ l₁.map (·.1) := fun hm => hdisj a hm a (List.mem_cons_self ..) rfl
  have hout₂ : a ∉ l₂.map (·.1) := (List.nodup_cons.1 hcons).1
  rw [hput, he]
  have hwithout : without a (l₁ ++ (a, b) :: l₂) = l₁ ++ l₂ := by
    have hmid : without a ((a, b) :: l₂) = without a l₂ := by simp [without]
    rw [without, List.filter_append]
    change without a l₁ ++ without a ((a, b) :: l₂) = _
    rw [hmid, hself l₁ hout₁, hself l₂ hout₂]
  rw [hwithout]
  exact List.perm_middle.symm

/-! ## Runs -/

/-- The map after some puts, oldest first. -/
def putAll (r : Recency α β) (puts : List (α × β)) : Recency α β :=
  puts.foldl (fun r p => r.put p.1 p.2) r

theorem putAll_append (r : Recency α β) (l₁ l₂ : List (α × β)) :
    r.putAll (l₁ ++ l₂) = (r.putAll l₁).putAll l₂ := List.foldl_append ..

@[simp] theorem putAll_limit (r : Recency α β) (puts : List (α × β)) :
    (r.putAll puts).limit = r.limit := by
  induction puts generalizing r with
  | nil => rfl
  | cons p puts ih => exact ih (r.put p.1 p.2)

theorem Distinct.putAll {r : Recency α β} (h : r.Distinct) (puts : List (α × β)) :
    (r.putAll puts).Distinct := by
  induction puts generalizing r with
  | nil => exact h
  | cons p puts ih => exact ih (h.put p.1 p.2)

/-- `a` stands with `b`, and what has come before it since are the keys `since`; or so many have
come that it is gone. -/
inductive Stands (r : Recency α β) (a : α) (b : β) (since : Finset α) : Prop where
  | kept {front back : List (α × β)} : r.entries = front ++ (a, b) :: back →
      (front.map (·.1)).Nodup → (front.map (·.1)).toFinset = since → Stands r a b since
  | gone : a ∉ r.entries.map (·.1) → r.limit ≤ since.card → Stands r a b since

theorem stands_put (r : Recency α β) (a : α) (b : β) : Stands (r.put a b) a b ∅ := by
  obtain ⟨n, hn⟩ : ∃ n, r.limit = n + 1 := ⟨r.limit - 1, by have := r.limit_pos; omega⟩
  have he : (r.put a b).entries = [] ++ (a, b) :: (without a r.entries).take n := by
    rw [put_entries, hn, List.take_succ_cons, List.nil_append]
  exact .kept he List.nodup_nil rfl

theorem Stands.put {r : Recency α β} {a c : α} {b d : β} {since : Finset α}
    (h : Stands r a b since) (hsince : a ∉ since) (hne : c ≠ a) :
    Stands (r.put c d) a b (insert c since) := by
  cases h with
  | gone hout hfull =>
    refine .gone ?_ (hfull.trans (Finset.card_le_card (Finset.subset_insert _ _)))
    intro hm
    obtain ⟨p, hp, hpa⟩ := List.mem_map.1 hm
    rcases mem_put hp with rfl | hp
    · exact hne hpa
    · exact hout (List.mem_map.2 ⟨p, hp, hpa⟩)
  | @kept front back he hnodup hset =>
    have hwithout : without c r.entries = without c front ++ (a, b) :: without c back := by
      rw [he]
      simp [without, hne.symm]
    have hnodup' : (((c, d) :: without c front).map (·.1)).Nodup :=
      List.nodup_cons.2 ⟨notMem_without c front, nodup_without hnodup⟩
    have hset' : (((c, d) :: without c front).map (·.1)).toFinset = insert c since := by
      ext x
      simp only [List.map_cons, List.toFinset_cons, Finset.mem_insert, List.mem_toFinset, ← hset]
      refine or_congr_right' fun hx => ?_
      simp only [List.mem_map, mem_without]
      constructor
      · rintro ⟨p, ⟨hp, -⟩, rfl⟩
        exact ⟨p, hp, rfl⟩
      · rintro ⟨p, hp, rfl⟩
        exact ⟨p, ⟨hp, hx⟩, rfl⟩
    have hcard : (insert c since).card = ((c, d) :: without c front).length := by
      rw [← hset', List.toFinset_card_of_nodup hnodup', List.length_map]
    have hput : (r.put c d).entries =
        (((c, d) :: without c front) ++ (a, b) :: without c back).take r.limit := by
      rw [put_entries, hwithout, List.cons_append]
    by_cases hroom : ((c, d) :: without c front).length < r.limit
    · obtain ⟨n, hn⟩ : ∃ n, r.limit = ((c, d) :: without c front).length + (n + 1) :=
        ⟨r.limit - ((c, d) :: without c front).length - 1, by omega⟩
      have he' : (r.put c d).entries =
          ((c, d) :: without c front) ++ (a, b) :: (without c back).take n := by
        rw [hput, hn, List.take_length_add_append, List.take_succ_cons]
      exact .kept he' hnodup' hset'
    · refine .gone ?_ (by rw [put_limit]; omega)
      rw [hput, List.take_append_of_le_length (by omega)]
      intro hm
      rw [List.map_take] at hm
      have hmem := List.mem_toFinset.2 (List.mem_of_mem_take hm)
      rw [hset', Finset.mem_insert] at hmem
      exact hmem.elim (fun h => hne h.symm) hsince

theorem Stands.find? {r : Recency α β} {a : α} {b : β} {since : Finset α}
    (h : Stands r a b since) (hsince : a ∉ since) :
    r.find? a = if since.card < r.limit then some b else none := by
  cases h with
  | gone hout hfull =>
    rw [if_neg (by omega)]
    refine List.lookup_eq_none_iff.2 fun p hp => ?_
    rw [bne_iff_ne]
    rintro rfl
    exact hout (List.mem_map_of_mem hp)
  | @kept front back he hnodup hset =>
    have hcard : since.card = front.length := by
      rw [← hset, List.toFinset_card_of_nodup hnodup, List.length_map]
    have hbound := r.bounded
    rw [he, List.length_append, List.length_cons] at hbound
    rw [if_pos (by omega)]
    refine List.lookup_eq_some_iff.2 ⟨front, back, he, fun p hp => ?_⟩
    rw [bne_iff_ne]
    rintro rfl
    rw [← hset] at hsince
    exact hsince (List.mem_toFinset.2 (List.mem_map_of_mem hp))

/-- A key is remembered until as many others have been put in as there is room for. -/
theorem find?_putAll (r : Recency α β) (a : α) (b : β) (puts : List (α × β))
    (hputs : ∀ p ∈ puts, p.1 ≠ a) : ((r.put a b).putAll puts).find? a =
      if (puts.map (·.1)).toFinset.card < r.limit then some b else none := by
  -- the puts are taken off at the end, where the latest is
  have stands : Stands ((r.put a b).putAll puts) a b (puts.map (·.1)).toFinset := by
    induction puts using List.reverseRecOn with
    | nil => exact stands_put r a b
    | append_singleton puts p ih =>
      have hp : p.1 ≠ a := hputs p (by simp)
      have hrest : ∀ q ∈ puts, q.1 ≠ a := fun q hq => hputs q (by simp [hq])
      have hout : a ∉ (puts.map (·.1)).toFinset := by
        rw [List.mem_toFinset]
        rintro hm
        obtain ⟨q, hq, rfl⟩ := List.mem_map.1 hm
        exact hrest q hq rfl
      have hset : ((puts ++ [p]).map (·.1)).toFinset = insert p.1 (puts.map (·.1)).toFinset := by
        ext x
        simp
      rw [putAll_append, hset]
      exact (ih hrest).put hout hp
  have hout : a ∉ (puts.map (·.1)).toFinset := by
    rw [List.mem_toFinset]
    rintro hm
    obtain ⟨q, hq, rfl⟩ := List.mem_map.1 hm
    exact hputs q hq rfl
  rw [stands.find? hout, putAll_limit, put_limit]

end Depot.Recency
