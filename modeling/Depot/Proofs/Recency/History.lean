import Depot.Proofs.Recency
import Mathlib.Data.Set.Card

/-! What a map of bounded size answers, told from what was done with it. A key is used when it is
inserted and when a lookup finds it; it is found with its last value until as many others as there
is room for have been used since. -/

namespace Depot.Recency

variable {α β : Type}

/-! ## Calls and what came of them -/

inductive Call (α β : Type) where
  | get (a : α)
  | insert (a : α) (b : β)

inductive Event (α β : Type) where
  | got (a : α) (found : Option β)
  | inserted (a : α) (b : β)

def Call.inserted? : Call α β → Option α
  | .get _ => none
  | .insert a _ => some a

/-- The key that was used, if any. -/
def Event.used? : Event α β → Option α
  | .got a (some _) => some a
  | .got _ none => none
  | .inserted a _ => some a

/-- What the event put in front. -/
def Event.put? : Event α β → Option (α × β)
  | .got a found => found.map (a, ·)
  | .inserted a b => some (a, b)

theorem Event.used?_eq (e : Event α β) : e.used? = e.put?.map (·.1) := by
  cases e with
  | got a found => cases found <;> rfl
  | inserted a b => rfl

/-- The last insertion of `a` was with `b`. -/
def LastInserted (past : List (Event α β)) (a : α) (b : β) : Prop :=
  ∃ before since, past = before ++ .inserted a b :: since ∧ ∀ c, .inserted a c ∉ since

theorem LastInserted.unique {past : List (Event α β)} {a : α} {b c : β}
    (hb : LastInserted past a b) (hc : LastInserted past a c) : b = c := by
  obtain ⟨before, since, rfl, hsince⟩ := hb
  obtain ⟨before', since', he, hsince'⟩ := hc
  rcases List.append_eq_append_iff.1 he with ⟨mid, -, hmid⟩ | ⟨mid, -, hmid⟩
  · cases mid with
    | nil => exact (Event.inserted.inj (List.cons.inj hmid).1).2
    | cons e mid => exact absurd (by rw [(List.cons.inj hmid).2]; simp) (hsince c)
  · cases mid with
    | nil => exact (Event.inserted.inj (List.cons.inj hmid).1).2.symm
    | cons e mid => exact absurd (by rw [(List.cons.inj hmid).2]; simp) (hsince' b)

theorem LastInserted.concat {past : List (Event α β)} {a : α} {b : β} {e : Event α β}
    (h : LastInserted past a b) (he : ∀ c, e ≠ .inserted a c) : LastInserted (past ++ [e]) a b := by
  obtain ⟨before, since, rfl, hsince⟩ := h
  refine ⟨before, since ++ [e], by simp, fun c hc => ?_⟩
  rcases List.mem_append.1 hc with hc | hc
  · exact hsince c hc
  · exact he c (List.mem_singleton.1 hc).symm

variable [DecidableEq α]

/-- Since `a` was last used, fewer than `n` distinct other keys were. -/
def UsedWithin (n : Nat) (past : List (Event α β)) (a : α) : Prop :=
  ∃ before e since, past = before ++ e :: since ∧ e.used? = some a ∧
    a ∉ since.filterMap Event.used? ∧ (since.filterMap Event.used?).toFinset.card < n

/-- What a lookup answers. -/
def answer (r : Recency α β) (a : α) : Option β := (r.use a).map (·.1)

/-- A lookup that finds nothing leaves the map to the caller as it was. -/
def next (r : Recency α β) : Call α β → Recency α β
  | .get a => match r.use a with
    | some (_, r') => r'
    | none => r
  | .insert a b => r.put a b

def event (r : Recency α β) : Call α β → Event α β
  | .get a => .got a (r.answer a)
  | .insert a b => .inserted a b

def after (r : Recency α β) (calls : List (Call α β)) : Recency α β := calls.foldl next r

/-- What came of the calls, oldest first. -/
def history (r : Recency α β) : List (Call α β) → List (Event α β)
  | [] => []
  | c :: calls => r.event c :: (r.next c).history calls

/-! ## Runs -/

@[simp] theorem answer_eq_find? (r : Recency α β) (a : α) : r.answer a = r.find? a := by
  unfold answer
  cases hu : r.use a with
  | none => rw [use_eq_none.1 hu, Option.map_none]
  | some p => rw [(use_eq_some.1 hu).1, Option.map_some]

/-- A call does to the map what it puts in front. -/
theorem next_eq_putAll (r : Recency α β) (c : Call α β) :
    r.next c = r.putAll (r.event c).put?.toList := by
  cases c with
  | insert a b => rfl
  | get a =>
    rw [next, event, answer_eq_find?]
    cases hu : r.use a with
    | none =>
      rw [use_eq_none.1 hu]
      rfl
    | some p =>
      obtain ⟨hf, hr⟩ := use_eq_some.1 hu
      rw [hf]
      exact hr

theorem after_eq_putAll (r : Recency α β) (calls : List (Call α β)) :
    r.after calls = r.putAll ((r.history calls).filterMap Event.put?) := by
  induction calls generalizing r with
  | nil => rfl
  | cons c calls ih =>
    have hfront : ((r.event c :: (r.next c).history calls).filterMap Event.put?) =
        (r.event c).put?.toList ++ ((r.next c).history calls).filterMap Event.put? := by
      cases h : (r.event c).put? <;> simp [h]
    rw [history, hfront, putAll_append, ← next_eq_putAll]
    exact ih (r.next c)

theorem after_concat (r : Recency α β) (calls : List (Call α β)) (c : Call α β) :
    r.after (calls ++ [c]) = (r.after calls).next c := List.foldl_concat ..

theorem history_concat (r : Recency α β) (calls : List (Call α β)) (c : Call α β) :
    r.history (calls ++ [c]) = r.history calls ++ [(r.after calls).event c] := by
  induction calls generalizing r with
  | nil => rfl
  | cons d calls ih =>
    rw [List.cons_append, history, ih (r.next d)]
    rfl

@[simp] theorem after_limit (r : Recency α β) (calls : List (Call α β)) :
    (r.after calls).limit = r.limit := by
  rw [after_eq_putAll, putAll_limit]

theorem Distinct.after {r : Recency α β} (h : r.Distinct) (calls : List (Call α β)) :
    (r.after calls).Distinct := by
  rw [after_eq_putAll]
  exact h.putAll _

/-! ## Values -/

theorem Distinct.mem_iff {r : Recency α β} (h : r.Distinct) {a : α} {b : β} :
    (a, b) ∈ r.entries ↔ r.find? a = some b := by
  constructor
  · intro hmem
    obtain ⟨front, back, he⟩ := List.append_of_mem hmem
    have hnodup : ((front ++ (a, b) :: back).map (·.1)).Nodup := by rw [← he]; exact h
    rw [List.map_append, List.map_cons, List.nodup_append] at hnodup
    refine List.lookup_eq_some_iff.2 ⟨front, back, he, fun p hp => ?_⟩
    rw [bne_iff_ne]
    exact (hnodup.2.2 p.1 (List.mem_map_of_mem hp) a (List.mem_cons_self ..)).symm
  · exact find?_mem

theorem find?_put_self (r : Recency α β) (a : α) (b : β) : (r.put a b).find? a = some b := by
  have h := find?_putAll r a b [] (by simp)
  rwa [if_pos (by simpa using r.limit_pos)] at h

/-- Putting in a key changes no other key's value. -/
theorem Distinct.find?_of_put {r : Recency α β} (h : r.Distinct) {a c : α} {b d : β} (hne : a ≠ c)
    (hf : (r.put c d).find? a = some b) : r.find? a = some b := by
  rcases mem_put (find?_mem hf) with he | hmem
  · exact absurd (congrArg Prod.fst he) hne
  · exact h.mem_iff.1 hmem

/-- What is found is what was inserted last. -/
theorem lastInserted_of_find? (limit : Nat) (calls : List (Call α β)) {a : α} {b : β}
    (h : ((empty limit : Recency α β).after calls).find? a = some b) :
    LastInserted ((empty limit).history calls) a b := by
  -- the latest call is taken off: a lookup puts in front what was there already
  induction calls using List.reverseRecOn generalizing a b with
  | nil => cases h
  | append_singleton calls c ih =>
    have hdistinct := (distinct_empty (α := α) (β := β) limit).after calls
    rw [after_concat] at h
    rw [history_concat]
    cases c with
    | insert x y =>
      by_cases hx : a = x
      · subst hx
        rw [next, find?_put_self] at h
        cases h
        exact ⟨_, [], rfl, by simp⟩
      · refine (ih (hdistinct.find?_of_put hx h)).concat fun z hz => hx ?_
        exact (Event.inserted.inj hz).1.symm
    | get x =>
      refine LastInserted.concat ?_ (fun z hz => by cases hz)
      rw [next_eq_putAll, event, answer_eq_find?] at h
      cases hx : ((empty limit : Recency α β).after calls).find? x with
      | none =>
        rw [hx] at h
        exact ih h
      | some y =>
        rw [hx] at h
        have hput : (((empty limit).after calls).put x y).find? a = some b := h
        by_cases hax : a = x
        · subst hax
          rw [find?_put_self] at hput
          cases hput
          exact ih hx
        · exact ih (hdistinct.find?_of_put hax hput)

/-! ## Which keys are found -/

theorem find?_after_of_used (limit : Nat) {calls : List (Call α β)}
    {before since : List (Event α β)} {e : Event α β} {a : α} {b : β}
    (hpast : (empty limit).history calls = before ++ e :: since) (he : e.put? = some (a, b))
    (hsince : a ∉ since.filterMap Event.used?) :
    ((empty limit : Recency α β).after calls).find? a =
      if (since.filterMap Event.used?).toFinset.card < max limit 1 then some b else none := by
  have hkeys : since.filterMap Event.used? = (since.filterMap Event.put?).map (·.1) := by
    rw [List.map_filterMap]
    exact List.filterMap_congr fun e _ => e.used?_eq
  have hothers : ∀ p ∈ since.filterMap Event.put?, p.1 ≠ a := by
    rintro p hp rfl
    rw [hkeys] at hsince
    exact hsince (List.mem_map_of_mem hp)
  rw [after_eq_putAll, hpast, List.filterMap_append, List.filterMap_cons_some he, putAll_append,
    hkeys]
  exact (find?_putAll _ a b _ hothers).trans (by rw [putAll_limit]; rfl)

/-- A key that is found was put in front by its last use. -/
theorem exists_use_of_find? (limit : Nat) {calls : List (Call α β)} {a : α} {b : β}
    (h : ((empty limit : Recency α β).after calls).find? a = some b) :
    ∃ before e since, (empty limit).history calls = before ++ e :: since ∧
      (∃ c, e.put? = some (a, c)) ∧ a ∉ since.filterMap Event.used? := by
  obtain ⟨start, rest, hpast, -⟩ := lastInserted_of_find? limit calls h
  have hused : ∃ e ∈ (empty limit).history calls, e.used? = some a :=
    ⟨.inserted a b, by rw [hpast]; simp, rfl⟩
  generalize (empty limit : Recency α β).history calls = past at hused
  clear hpast
  -- of the events that use the key, the last one
  induction past using List.reverseRecOn with
  | nil => simp at hused
  | append_singleton past e ih =>
    by_cases he : e.used? = some a
    · rw [Event.used?_eq, Option.map_eq_some_iff] at he
      obtain ⟨⟨_, c⟩, hput, rfl⟩ := he
      exact ⟨past, e, [], rfl, ⟨c, hput⟩, by simp⟩
    · obtain ⟨d, hd, hda⟩ := hused
      rcases List.mem_append.1 hd with hd | hd
      · obtain ⟨before, f, since, rfl, hf, hsince⟩ := ih ⟨d, hd, hda⟩
        refine ⟨before, f, since ++ [e], by simp, hf, ?_⟩
        rw [List.filterMap_append, List.mem_append, not_or]
        exact ⟨hsince, by simpa using he⟩
      · rw [List.mem_singleton.1 hd] at hda
        exact absurd hda he

/-- A key is found with `b` if and only if that is its last value and it has not gone unused for as
many other keys as there is room for. -/
theorem find?_after_iff (limit : Nat) (calls : List (Call α β)) (a : α) (b : β) :
    ((empty limit : Recency α β).after calls).find? a = some b ↔
      LastInserted ((empty limit).history calls) a b ∧
        UsedWithin (max limit 1) ((empty limit).history calls) a := by
  constructor
  · intro h
    obtain ⟨before, e, since, hpast, ⟨c, he⟩, hsince⟩ := exists_use_of_find? limit h
    have hfind := find?_after_of_used limit hpast he hsince
    refine ⟨lastInserted_of_find? limit calls h, before, e, since, hpast, ?_, hsince, ?_⟩
    · rw [Event.used?_eq, he, Option.map_some]
    · by_contra hmany
      rw [if_neg hmany, h] at hfind
      cases hfind
  · rintro ⟨hlast, before, e, since, hpast, he, hsince, hfew⟩
    rw [Event.used?_eq, Option.map_eq_some_iff] at he
    obtain ⟨⟨_, c⟩, he, rfl⟩ := he
    have hfind := find?_after_of_used limit hpast he hsince
    rw [if_pos hfew] at hfind
    rwa [(lastInserted_of_find? limit calls hfind).unique hlast] at hfind

/-! ## How many keys are found -/

def keys (r : Recency α β) : Finset α := (r.entries.map (·.1)).toFinset

theorem Distinct.card_keys {r : Recency α β} (h : r.Distinct) : r.keys.card = r.size := by
  rw [keys, List.toFinset_card_of_nodup h, List.length_map, size]

theorem mem_keys {r : Recency α β} {a : α} : a ∈ r.keys ↔ (r.find? a).isSome := by
  rw [keys, List.mem_toFinset, List.mem_map, Option.isSome_iff_exists]
  constructor
  · rintro ⟨p, hp, rfl⟩
    cases hf : r.find? p.1 with
    | some b => exact ⟨b, rfl⟩
    | none => exact absurd (List.lookup_eq_none_iff.1 hf p hp) (by simp)
  · rintro ⟨b, hf⟩
    exact ⟨(a, b), find?_mem hf, rfl⟩

theorem keys_put_subset (r : Recency α β) (a : α) (b : β) :
    (r.put a b).keys ⊆ insert a r.keys := by
  intro c hc
  rw [keys, List.mem_toFinset, List.mem_map] at hc
  obtain ⟨p, hp, rfl⟩ := hc
  rcases mem_put hp with rfl | hp
  · exact Finset.mem_insert_self ..
  · exact Finset.mem_insert_of_mem (List.mem_toFinset.2 (List.mem_map_of_mem hp))

/-- Putting in takes room only for a key that is new, and only as long as there is any. -/
theorem Distinct.size_put {r : Recency α β} (h : r.Distinct) (a : α) (b : β) :
    (r.put a b).size = min r.limit (insert a r.keys).card := by
  have hnodup : (((a, b) :: without a r.entries).map (·.1)).Nodup :=
    List.nodup_cons.2 ⟨notMem_without a r.entries, nodup_without h⟩
  have hkeys : insert a r.keys = (((a, b) :: without a r.entries).map (·.1)).toFinset := by
    ext c
    rw [List.map_cons, List.toFinset_cons, Finset.mem_insert, Finset.mem_insert]
    refine or_congr_right' fun hc => ?_
    simp only [keys, List.mem_toFinset, List.mem_map, mem_without]
    constructor
    · rintro ⟨p, hp, rfl⟩
      exact ⟨p, ⟨hp, hc⟩, rfl⟩
    · rintro ⟨p, ⟨hp, -⟩, rfl⟩
      exact ⟨p, hp, rfl⟩
  rw [size, put_entries, List.length_take, hkeys, List.toFinset_card_of_nodup hnodup,
    List.length_map]

/-- The map is as full as it can be with the keys `seen` put in. -/
structure Filled (r : Recency α β) (seen : Finset α) : Prop where
  distinct : r.Distinct
  within : r.keys ⊆ seen
  size : r.size = min r.limit seen.card

theorem Filled.put {r : Recency α β} {seen : Finset α} (h : r.Filled seen) (a : α) (b : β) :
    (r.put a b).Filled (insert a seen) where
  distinct := h.distinct.put a b
  within := (keys_put_subset r a b).trans (Finset.insert_subset_insert a h.within)
  size := by
    have hcard := h.distinct.card_keys
    have hsize := h.size
    rw [h.distinct.size_put, put_limit]
    by_cases hroom : seen.card ≤ r.limit
    · -- nothing was pushed out yet
      have hall : r.keys = seen := Finset.eq_of_subset_of_card_le h.within (by omega)
      rw [hall]
    · have hkeys : r.keys.card ≤ (insert a r.keys).card :=
        Finset.card_le_card (Finset.subset_insert ..)
      have hseen : seen.card ≤ (insert a seen).card :=
        Finset.card_le_card (Finset.subset_insert ..)
      omega

theorem Filled.next {r : Recency α β} {seen : Finset α} (h : r.Filled seen) (c : Call α β) :
    (r.next c).Filled (c.inserted?.toFinset ∪ seen) := by
  cases c with
  | insert a b =>
    have hput := h.put a b
    rwa [Finset.insert_eq] at hput
  | get a =>
    have hnone : (Call.get a : Call α β).inserted?.toFinset ∪ seen = seen := Finset.empty_union seen
    rw [hnone, next_eq_putAll, event, answer_eq_find?]
    cases hf : r.find? a with
    | none => exact h
    | some b =>
      have hin : a ∈ seen := h.within (mem_keys.2 (by rw [hf]; rfl))
      have hput := h.put a b
      rwa [Finset.insert_eq_of_mem hin] at hput

theorem filled_after (limit : Nat) (calls : List (Call α β)) :
    ((empty limit : Recency α β).after calls).Filled (calls.filterMap Call.inserted?).toFinset := by
  induction calls using List.reverseRecOn with
  | nil => exact ⟨distinct_empty limit, Finset.empty_subset _, by simp [after, empty, size]⟩
  | append_singleton calls c ih =>
    have hseen : ((calls ++ [c]).filterMap Call.inserted?).toFinset =
        c.inserted?.toFinset ∪ (calls.filterMap Call.inserted?).toFinset := by
      rw [List.filterMap_append, List.toFinset_append, Finset.union_comm]
      cases c <;> rfl
    rw [after_concat, hseen]
    exact ih.next c

/-! ## The whole answer -/

/-- After any calls on an empty map: a lookup answers the last value of a key that has been used
since fewer others than there is room for, and answers nothing for any other key; the size counts
the keys that are found, and it is the number of keys ever inserted until that is the limit. A
lookup without an answer changes nothing. -/
theorem answers_from_history (limit : Nat) (calls : List (Call α β)) :
    let r := (empty limit : Recency α β).after calls
    let past := (empty limit : Recency α β).history calls
    (∀ a b, r.answer a = some b ↔ LastInserted past a b ∧ UsedWithin (max limit 1) past a) ∧
    {a | (r.answer a).isSome}.encard = r.size ∧
    r.size ≤ max limit 1 ∧
    r.size = min (max limit 1) (calls.filterMap Call.inserted?).toFinset.card ∧
    ∀ a, r.answer a = none → r.next (.get a) = r := by
  intro r past
  have hfilled : r.Filled (calls.filterMap Call.inserted?).toFinset := filled_after limit calls
  have hlimit : r.limit = max limit 1 := after_limit (empty limit) calls
  have hsize := hfilled.size
  rw [hlimit] at hsize
  refine ⟨fun a b => ?_, ?_, ?_, hsize, fun a ha => ?_⟩
  · rw [answer_eq_find?]
    exact find?_after_iff limit calls a b
  · have hset : {a | (r.answer a).isSome} = r.keys := by
      ext a
      rw [Set.mem_ofPred_eq, answer_eq_find?, Finset.mem_coe, mem_keys]
    rw [hset, Set.encard_coe_eq_coe_finsetCard, hfilled.distinct.card_keys]
  · exact hsize.trans_le (Nat.min_le_left ..)
  · rw [answer_eq_find?] at ha
    rw [next_eq_putAll, event, answer_eq_find?, ha]
    rfl

example : ((empty 2).after [.insert 1 10, .insert 2 20, .insert 1 11]).answer 2 = some 20 := by
  decide

end Depot.Recency
