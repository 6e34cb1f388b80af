import Depot.Proofs.Json.Fields
import Depot.Proofs.Json.Readings
import Mathlib.Data.List.Pairwise

/-! Records as texts. What an object gives for its fields can be told from its text, whatever other
members it has and in whatever order they stand. -/

namespace Depot.Json

/-- An object of these members, each the texts of a name and a value. -/
structure RecordText (ms : List (List Char × List Char)) (cs : List Char) : Prop where
  text : ObjectText ms cs
  quoted : ∀ m ∈ ms, Quoted m.1
  values : ∀ m ∈ ms, WellFormed m.2

/-- A member of this name has a value that is as `P` says. -/
def Given (name : String) (P : List Char → Prop) (ms : List (List Char × List Char)) : Prop :=
  ∃ m ∈ ms, StringText name m.1 ∧ P m.2

def Lacks (name : String) (ms : List (List Char × List Char)) : Prop :=
  ∀ m ∈ ms, ¬ StringText name m.1

/-- Two of the members have this name. -/
def Repeats (name : String) (ms : List (List Char × List Char)) : Prop :=
  ∃ m n, [m, n].Sublist ms ∧ StringText name m.1 ∧ StringText name n.1

/-- An object in which none of the fields of these names stands twice. Its other members have any
names and any values. -/
structure FieldsText (names : List String) (ms : List (List Char × List Char)) (cs : List Char) :
    Prop extends RecordText ms cs where
  named : ∀ m ∈ ms, ∃ name, StringText name m.1
  once : ∀ name ∈ names, ¬ Repeats name ms

variable {ms : List (List Char × List Char)} {cs : List Char} {name : String}

theorem Given.imp {P Q : List Char → Prop} (h : Given name P ms) (himp : ∀ t, P t → Q t) :
    Given name Q ms := by
  obtain ⟨m, hm, hname, hp⟩ := h
  exact ⟨m, hm, hname, himp _ hp⟩

theorem not_repeats_iff :
    ¬ Repeats name ms ↔ ms.Pairwise fun m n => StringText name m.1 → ¬ StringText name n.1 := by
  rw [List.pairwise_iff_forall_sublist]
  constructor
  · exact fun h m n hsub hm hn => h ⟨m, n, hsub, hm, hn⟩
  · rintro h ⟨m, n, hsub, hm, hn⟩
    exact h hsub hm hn

/-- If no other member has the name, then every member of the name is the one that was given. -/
theorem Given.of_once {P : List Char → Prop} (h : Given name P ms) (honce : ¬ Repeats name ms)
    {m : List Char × List Char} (hm : m ∈ ms) (hname : StringText name m.1) : P m.2 := by
  obtain ⟨n, hn, hname', hp⟩ := h
  have hsymm : Std.Symm fun m n : List Char × List Char =>
      StringText name m.1 → ¬ StringText name n.1 := ⟨fun _ _ hnot hn hm => hnot hm hn⟩
  have hsame : m = n := by
    by_contra hne
    exact (not_repeats_iff.1 honce).forall hm hn hne hname hname'
  rwa [hsame]

/-! ## Reading the members -/

/-- The member `j` is what is read of the texts of `m`. -/
structure Matches (m : List Char × List Char) (j : Except Flaw String × Json) : Prop where
  name : ∀ name, j.1 = .ok name ↔ StringText name m.1
  value : Reads m.2 j.2
  skip : j.2.skipBreak? = none

theorem RecordText.reads (h : RecordText ms cs) :
    ∃ g, (∀ m ∈ ms, Matches m (g m)) ∧ Reads cs (.object (ms.map g) none) := by
  have hmembers : ∀ m ∈ ms, ∃ j, ReadsMember m j ∧ Matches m j := by
    intro m hm
    obtain ⟨key, hlexes, htext, -⟩ := (h.quoted m hm).lexes
    obtain ⟨v, hskip, hreads⟩ := (h.values m hm).reads
    refine ⟨(key, v), ⟨hlexes, hreads⟩, fun name => ⟨htext name, fun hname => ?_⟩, hreads, hskip⟩
    cases hlexes.unique hname.lexes
    rfl
  have : Nonempty (Except Flaw String × Json) := ⟨(.ok "", .null)⟩
  choose! g hreads hmatches using hmembers
  exact ⟨g, hmatches, h.text.reads (forall₂_map hreads)⟩

variable {g : List Char × List Char → Except Flaw String × Json} (hg : ∀ m ∈ ms, Matches m (g m))

include hg

theorem mem_map_matches {v : Json} :
    (.ok name, v) ∈ ms.map g ↔ ∃ m ∈ ms, StringText name m.1 ∧ Reads m.2 v := by
  rw [List.mem_map]
  constructor
  · rintro ⟨m, hm, he⟩
    have hmatches := hg m hm
    rw [he] at hmatches
    exact ⟨m, hm, (hmatches.name name).1 rfl, hmatches.value⟩
  · rintro ⟨m, hm, hname, hv⟩
    have hmatches := hg m hm
    exact ⟨m, hm, Prod.ext ((hmatches.name name).2 hname) (hmatches.value.unique hv)⟩

theorem once_map_matches : Once name (ms.map g) ↔ ¬ Repeats name ms := by
  rw [not_repeats_iff, Once, List.pairwise_map]
  constructor
  · refine List.Pairwise.imp_of_mem fun hm hn hpair hname => ?_
    rw [← (hg _ hn).name]
    exact hpair (((hg _ hm).name name).2 hname)
  · refine List.Pairwise.imp_of_mem fun hm hn hpair hname => ?_
    rw [Ne, (hg _ hn).name]
    exact hpair (((hg _ hm).name name).1 hname)

omit hg

/-! ## Reading the fields -/

variable {α σ : Type} {fields : List (RecordField σ)} {s s' : σ} {read : Reader α}
  {get : σ → Option α}

/-- What is read off the text is `a`. -/
def ReadsAs (read : Reader α) (a : α) (cs : List Char) : Prop := ∃ v, Reads cs v ∧ read v = .ok a

/-- What the members give for the field, if anything. -/
def Supplies (name : String) (read : Reader α) (ms : List (List Char × List Char)) :
    Option α → Prop
  | some a => Given name (ReadsAs read a) ms
  | none => Lacks name ms

/-- A field with a default has one of two things to be read. -/
theorem exists_supplies {P : List Char → Prop} {a d : α} (himp : ∀ t, P t → ReadsAs read a t)
    (h : Given name P ms ∨ Lacks name ms ∧ a = d) :
    ∃ o, Supplies name read ms o ∧ o.getD d = a := by
  rcases h with hgiven | ⟨hlacks, rfl⟩
  · exact ⟨some a, hgiven.imp himp, rfl⟩
  · exact ⟨none, hlacks, rfl⟩

include hg in
theorem Takes.get_eq (h : Takes fields s (ms.map g) s') (hslot : Slot fields name read get)
    {o : Option α} (ho : Supplies name read ms o) (hnone : get s = none) : get s' = o := by
  have houtcome := h.outcome hslot
  rw [hnone] at houtcome
  cases o with
  | some a =>
    obtain ⟨m, hm, hname, v, hv, hread⟩ := ho
    exact (houtcome.holds a).2 ⟨v, (mem_map_matches hg).2 ⟨m, hm, hname, hv⟩, hread⟩
  | none =>
    rw [Option.eq_none_iff_forall_ne_some]
    intro a ha
    obtain ⟨v, hmem, -⟩ := (houtcome.holds a).1 ha
    obtain ⟨m, hm, hname, -⟩ := (mem_map_matches hg).1 hmem
    exact ho m hm hname

include hg in
theorem Takes.not_repeats (h : Takes fields s (ms.map g) s') (hslot : Slot fields name read get) :
    ¬ Repeats name ms := (once_map_matches hg).1 (h.outcome hslot).once

include hg in
theorem Takes.not_lacks (h : Takes fields s (ms.map g) s') (hslot : Slot fields name read get)
    (hnone : get s = none) (hsome : (get s').isSome) : ¬ Lacks name ms := by
  intro hlacks
  rw [h.get_eq hg hslot (o := none) hlacks hnone] at hsome
  cases hsome

include hg in
/-- An object with something readable for each of its fields, or nothing, can be taken. -/
theorem FieldsText.takes (h : FieldsText (fields.map (·.name)) ms cs)
    (hempty : ∀ field ∈ fields, field.seen s = false)
    (hsupplies : ∀ field ∈ fields, ∃ (α : Type) (read : Reader α) (get : σ → Option α)
      (o : Option α), Slot fields field.name read get ∧ Supplies field.name read ms o) :
    ∃ s', Takes fields s (ms.map g) s' := by
  refine exists_takes ?_ ?_ ?_ ?_
  · intro field hf
    obtain ⟨α, read, get, -, hslot, -⟩ := hsupplies field hf
    exact ⟨α, read, get, hslot⟩
  · intro j hj
    obtain ⟨m, hm, rfl⟩ := List.mem_map.1 hj
    obtain ⟨name, hname⟩ := h.named m hm
    have hmatches := hg m hm
    generalize g m = j at hmatches
    obtain ⟨key, v⟩ := j
    cases (hmatches.name name).2 hname
    cases hfind : fields.find? (·.name = name) with
    | none => exact .unknown hfind hmatches.skip
    | some field =>
      obtain ⟨hf, rfl⟩ := mem_of_find? hfind
      obtain ⟨α, read, get, o, hslot, ho⟩ := hsupplies field hf
      refine .known hfind ?_
      cases o with
      | none => exact absurd hname (ho m hm)
      | some a =>
        have hread := Given.of_once ho (h.once _ (List.mem_map_of_mem hf)) hm hname
        obtain ⟨w, hw, hread⟩ := hread
        cases hmatches.value.unique hw
        exact (hslot.keeps hfind).stores hread
  · exact fun field hf => (once_map_matches hg).2 (h.once _ (List.mem_map_of_mem hf))
  · exact fun _ _ field _ hfind => hempty field (mem_of_find? hfind).1

end Depot.Json
