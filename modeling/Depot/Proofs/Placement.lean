import Depot.Proofs.Layout
import Mathlib.Data.List.Lex
import Mathlib.Data.Set.Card
import Mathlib.Data.String.Basic
import Mathlib.Order.Interval.Finset.Nat

/-! Layouts as placements. The directories of an index are the digits of its group, so the groups
fill the tree in order, one innermost directory each, and no directory takes more than `fanout`
entries. -/

namespace Depot

/-- Of two lists of one length the lower stays lower, whatever comes behind. -/
theorem append_lt_append {α : Type} [LT α] {xs ys us vs : List α} (hlen : xs.length = ys.length)
    (h : xs < ys) : xs ++ us < ys ++ vs := by
  induction xs generalizing ys with
  | nil =>
    rw [List.length_eq_zero_iff.1 hlen.symm] at h
    exact absurd h (List.not_lt_nil _)
  | cons x xs ih =>
    cases ys with
    | nil => cases hlen
    | cons y ys =>
      rw [List.cons_append, List.cons_append, List.cons_lt_cons_iff]
      rcases List.cons_lt_cons_iff.1 h with hxy | ⟨hxy, hlt⟩
      · exact Or.inl hxy
      · exact Or.inr ⟨hxy, ih (Nat.succ.inj hlen) hlt⟩

/-- A function keeps the order of lists if it keeps the order of their members. -/
theorem map_lt_map {α β : Type} [LT α] [LT β] {f : α → β} {xs ys : List α}
    (hf : ∀ x ∈ xs, ∀ y ∈ ys, x < y → f x < f y) (h : xs < ys) : xs.map f < ys.map f := by
  induction xs generalizing ys with
  | nil =>
    cases ys with
    | nil => exact absurd h (List.not_lt_nil _)
    | cons y ys => exact List.nil_lt_cons _ _
  | cons x xs ih =>
    cases ys with
    | nil => exact absurd h (List.not_lt_nil _)
    | cons y ys =>
      rw [List.map_cons, List.map_cons, List.cons_lt_cons_iff]
      rcases List.cons_lt_cons_iff.1 h with hxy | ⟨rfl, hlt⟩
      · exact Or.inl (hf x (List.mem_cons_self ..) y (List.mem_cons_self ..) hxy)
      · exact Or.inr ⟨rfl, ih (fun x hx y hy =>
          hf x (List.mem_cons_of_mem _ hx) y (List.mem_cons_of_mem _ hy)) hlt⟩

namespace Layout

/-! ## Digits -/

/-- Digits of one length are in the order of the numbers. -/
theorem groupDigits_lt {fanout depth m n : Nat} (hmn : m < n) (hn : n < fanout ^ depth) :
    groupDigits fanout depth m < groupDigits fanout depth n := by
  induction depth generalizing m n with
  | zero =>
    rw [Nat.pow_zero] at hn
    omega
  | succ depth ih =>
    have hlen : (groupDigits fanout depth (m / fanout)).length =
        (groupDigits fanout depth (n / fanout)).length := by
      rw [length_groupDigits, length_groupDigits]
    have hbound : n / fanout < fanout ^ depth := by
      rw [Nat.pow_succ'] at hn
      exact Nat.div_lt_of_lt_mul hn
    rw [groupDigits, groupDigits]
    rcases Nat.lt_or_eq_of_le (Nat.div_le_div_right (c := fanout) hmn.le) with hlt | heq
    · exact append_lt_append hlen (ih hlt hbound)
    · -- the numbers differ in the last digit only
      have hlast : m % fanout < n % fanout := by
        have hm := Nat.div_add_mod m fanout
        have hn := Nat.div_add_mod n fanout
        rw [heq] at hm
        omega
      rw [heq]
      exact List.append_left_lt (List.cons_lt_cons_iff.2 (Or.inl hlast))

theorem ofDigits_lt {fanout : Nat} {digits : List Nat} (h : ∀ digit ∈ digits, digit < fanout) :
    ofDigits fanout digits < fanout ^ digits.length := by
  induction digits using List.reverseRecOn with
  | nil => exact Nat.one_pos
  | append_singleton digits digit ih =>
    have hdigit := h digit (by simp)
    have hdigits := ih fun d hd => h d (List.mem_append_left _ hd)
    calc ofDigits fanout (digits ++ [digit])
        < fanout * (ofDigits fanout digits + 1) := by
          rw [ofDigits_concat, Nat.mul_succ]
          omega
      _ ≤ fanout * fanout ^ digits.length := Nat.mul_le_mul_left _ hdigits
      _ = fanout ^ (digits ++ [digit]).length := by
          rw [List.length_append, List.length_singleton, Nat.pow_succ']

/-- Digits are those of the number that they write. -/
theorem groupDigits_ofDigits {fanout : Nat} {digits : List Nat}
    (h : ∀ digit ∈ digits, digit < fanout) :
    groupDigits fanout digits.length (ofDigits fanout digits) = digits := by
  induction digits using List.reverseRecOn with
  | nil => rfl
  | append_singleton digits digit ih =>
    have hdigit := h digit (by simp)
    have hpos : 0 < fanout := by omega
    have hdigits := ih fun d hd => h d (List.mem_append_left _ hd)
    rw [List.length_append, List.length_singleton, groupDigits, ofDigits_concat,
      Nat.mul_add_div hpos, Nat.div_eq_of_lt hdigit, Nat.mul_add_mod, Nat.mod_eq_of_lt hdigit,
      Nat.add_zero, hdigits]

end Layout

namespace Text

theorem decimalDigits_eq (width n : Nat) :
    decimalDigits width n = (Layout.groupDigits 10 width n).map decimalDigit := by
  induction width generalizing n with
  | zero => rfl
  | succ width ih =>
    rw [decimalDigits, Layout.groupDigits, ih, List.map_append, List.map_singleton]

theorem decimalDigit_lt {m n : Nat} (hmn : m < n) (hn : n < 10) :
    decimalDigit m < decimalDigit n := by
  have all : ∀ n < 10, ∀ m < n, decimalDigit m < decimalDigit n := by decide
  exact all n hn m hmn

/-- Numerals of one width are in the order of the numbers. -/
theorem decimalDigits_lt {width m n : Nat} (hmn : m < n) (hn : n < 10 ^ width) :
    decimalDigits width m < decimalDigits width n := by
  rw [decimalDigits_eq, decimalDigits_eq]
  refine map_lt_map (fun a _ b hb hab => decimalDigit_lt hab ?_) (Layout.groupDigits_lt hmn hn)
  exact Layout.lt_of_mem_groupDigits (by decide) hb

end Text

namespace Layout

variable (l : Layout)

/-! ## Names -/

/-- The name of a directory that stands for a digit. -/
def dirName (digit : Nat) : String := String.ofList (Text.decimalDigits l.width digit)

theorem decimalNumber_dirName {digit : Nat} (h : digit < l.fanout.toNat) :
    Text.decimalNumber (l.dirName digit).toList = digit := by
  rw [dirName, String.toList_ofList, Text.decimalNumber_decimalDigits,
    Nat.mod_eq_of_lt (l.lt_pow_width h)]

theorem numbers_dirNames {digits : List Nat} (h : ∀ digit ∈ digits, digit < l.fanout.toNat) :
    (digits.map l.dirName).map (fun name => Text.decimalNumber name.toList) = digits := by
  rw [List.map_map, List.map_congr_left, List.map_id]
  intro digit hdigit
  rw [Function.comp_apply, l.decimalNumber_dirName (h digit hdigit), id_eq]

theorem dirName_lt {m n : Nat} (hmn : m < n) (hn : n < l.fanout.toNat) :
    l.dirName m < l.dirName n := by
  rw [String.lt_iff_toList_lt, dirName, dirName, String.toList_ofList, String.toList_ofList]
  exact Text.decimalDigits_lt hmn (l.lt_pow_width hn)

/-- A directory in the path of an index: a numeral as wide as the largest digit, for a digit. -/
structure IsDirName (name : String) : Prop where
  width : name.length = (toString (l.fanout.toNat - 1)).length
  decimal : ∀ c ∈ name.toList, Text.isDecimal c
  value : Text.decimalNumber name.toList < l.fanout.toNat

theorem isDirName_dirName {digit : Nat} (h : digit < l.fanout.toNat) :
    l.IsDirName (l.dirName digit) where
  width := by
    rw [dirName, String.length_ofList, Text.length_decimalDigits]
    rfl
  decimal c hc := by
    rw [dirName, String.toList_ofList] at hc
    exact Text.isDecimal_of_mem hc
  value := by rwa [decimalNumber_dirName l h]

/-! ## The directories of an index -/

theorem shard_eq_map (index : UInt64) : l.shard index =
    (groupDigits l.fanout.toNat l.depth.toNat (index.toNat / l.fanout.toNat)).map l.dirName := rfl

theorem exists_of_mem_shard {index : UInt64} {name : String} (h : name ∈ l.shard index) :
    ∃ digit < l.fanout.toNat, l.dirName digit = name := by
  obtain ⟨digit, hdigit, rfl⟩ := List.mem_map.1 h
  exact ⟨digit, lt_of_mem_groupDigits l.fanout_pos hdigit, rfl⟩

theorem length_shard (index : UInt64) : (l.shard index).length = l.depth.toNat := by
  rw [shard, List.length_map, length_groupDigits]

theorem components_eq_ok {index : UInt64} {names : List String} :
    l.components index = .ok names ↔ index ≤ l.maxIndex ∧ names = l.shard index := by
  rw [components, check]
  split
  · next h =>
    constructor
    · intro hnames
      cases hnames
    · intro hnames
      exact absurd h (UInt64.not_lt.2 hnames.1)
  · next h =>
    constructor
    · intro hnames
      cases hnames
      exact ⟨UInt64.not_lt.1 h, rfl⟩
    · intro hnames
      rw [hnames.2]
      rfl

theorem components_eq_error {index : UInt64} (h : l.maxIndex < index) :
    l.components index = .error ⟨index, l.maxIndex⟩ := by
  rw [components, check, if_pos h]
  rfl

theorem shard_lt {i j : UInt64} (hj : j ≤ l.maxIndex)
    (h : i.toNat / l.fanout.toNat < j.toNat / l.fanout.toNat) : l.shard i < l.shard j := by
  rw [shard_eq_map, shard_eq_map]
  refine map_lt_map (fun m _ n hn hmn => l.dirName_lt hmn ?_) (groupDigits_lt h (l.group_lt hj))
  exact lt_of_mem_groupDigits l.fanout_pos hn

theorem shard_le {i j : UInt64} (hj : j ≤ l.maxIndex) (h : i ≤ j) : l.shard i ≤ l.shard j := by
  have hgroups : i.toNat / l.fanout.toNat ≤ j.toNat / l.fanout.toNat :=
    Nat.div_le_div_right (UInt64.le_iff_toNat_le.1 h)
  rcases Nat.lt_or_eq_of_le hgroups with hlt | heq
  · exact le_of_lt (l.shard_lt hj hlt)
  · rw [shard, heq, shard]

/-- The groups fill the innermost directories one by one. -/
theorem components_eq_iff {index : UInt64} {digits : List Nat}
    (hlen : digits.length = l.depth.toNat) (hdigits : ∀ digit ∈ digits, digit < l.fanout.toNat) :
    l.components index = .ok (digits.map l.dirName) ↔
      index ≤ l.maxIndex ∧ index.toNat / l.fanout.toNat = ofDigits l.fanout.toNat digits := by
  rw [components_eq_ok, and_congr_right_iff]
  intro hindex
  constructor
  · intro h
    have hread := congrArg (List.map fun name => Text.decimalNumber name.toList) h
    rw [l.numbers_dirNames hdigits, numbers_shard] at hread
    rw [hread, ofDigits_groupDigits, Nat.mod_eq_of_lt (l.group_lt hindex)]
  · intro h
    rw [shard_eq_map, h, ← hlen, groupDigits_ofDigits hdigits]

theorem exists_first {digits : List Nat} (hlen : digits.length = l.depth.toNat)
    (hdigits : ∀ digit ∈ digits, digit < l.fanout.toNat) :
    ∃ first, first + l.fanout.toNat ≤ l.maxIndex.toNat + 1 ∧ ∀ index,
      l.components index = .ok (digits.map l.dirName) ↔
        first ≤ index.toNat ∧ index.toNat < first + l.fanout.toNat := by
  have hgroup := ofDigits_lt hdigits
  rw [hlen] at hgroup
  have hroom : l.fanout.toNat * ofDigits l.fanout.toNat digits + l.fanout.toNat ≤
      l.maxIndex.toNat + 1 := by
    calc l.fanout.toNat * ofDigits l.fanout.toNat digits + l.fanout.toNat
        ≤ l.fanout.toNat * l.fanout.toNat ^ l.depth.toNat := by
          rw [← Nat.mul_succ]
          exact Nat.mul_le_mul_left _ hgroup
      _ = l.capacity := Nat.pow_succ'.symm
      _ = l.maxIndex.toNat + 1 := by
          have hpos := l.capacity_pos
          rw [maxIndex_toNat]
          omega
  refine ⟨l.fanout.toNat * ofDigits l.fanout.toNat digits, hroom, fun index => ?_⟩
  rw [components_eq_iff l hlen hdigits, Nat.div_eq_iff l.fanout_pos, UInt64.le_iff_toNat_le]
  rw [Nat.mul_comm l.fanout.toNat] at hroom ⊢
  have hpos := l.fanout_pos
  omega

/-! ## Counting -/

/-- The entries that a directory takes for some keys: a directory on the way to an object, or the
object itself. -/
def children (keys : Set Key) (dir : List String) : Set String :=
  {name | ∃ key ∈ keys, ∃ dirs, l.components key.index = .ok dirs ∧
    dir ++ [name] <+: dirs ++ [key.name.text]}

theorem encard_dirNames_le : (l.dirName '' Set.Iio l.fanout.toNat).encard ≤ l.fanout.toNat := by
  refine (Set.encard_image_le _ _).trans ?_
  rw [← Finset.coe_Iio, Set.encard_coe_eq_coe_finsetCard, Nat.card_Iio]

theorem encard_indices_le (dir : List String) :
    {index | l.components index = .ok dir}.encard ≤ l.fanout.toNat := by
  rcases Set.eq_empty_or_nonempty {index | l.components index = .ok dir} with hempty | ⟨i, hdir⟩
  · rw [hempty, Set.encard_empty]
    exact zero_le
  · obtain ⟨hi, rfl⟩ := l.components_eq_ok.1 hdir
    have hinj : Function.Injective UInt64.toNat := fun _ _ h => UInt64.toNat_inj.1 h
    rw [← hinj.encard_image]
    have hsub : UInt64.toNat '' {index | l.components index = .ok (l.shard i)} ⊆
        Finset.Ico (i.toNat / l.fanout.toNat * l.fanout.toNat)
          (i.toNat / l.fanout.toNat * l.fanout.toNat + l.fanout.toNat) := by
      rintro _ ⟨j, hj, rfl⟩
      obtain ⟨hj, hshard⟩ := l.components_eq_ok.1 hj
      have hgroup := ((l.shard_eq_iff hi hj).1 hshard).symm
      rw [Nat.div_eq_iff l.fanout_pos] at hgroup
      have hpos := l.fanout_pos
      rw [Finset.coe_Ico, Set.mem_Ico]
      omega
    refine (Set.encard_le_encard hsub).trans ?_
    rw [Set.encard_coe_eq_coe_finsetCard, Nat.card_Ico, Nat.add_sub_cancel_left]

variable {l} {keys : Set Key} {dir : List String}

/-- An entry of a directory further out is a directory again. -/
theorem children_outer (hlen : dir.length < l.depth.toNat) :
    l.children keys dir ⊆ l.dirName '' Set.Iio l.fanout.toNat := by
  rintro name ⟨key, -, dirs, hdirs, hpre⟩
  obtain ⟨-, rfl⟩ := l.components_eq_ok.1 hdirs
  have hshard : dir ++ [name] <+: l.shard key.index := by
    refine List.prefix_of_prefix_length_le hpre (List.prefix_append _ _) ?_
    rw [List.length_append, List.length_singleton, length_shard]
    omega
  exact l.exists_of_mem_shard (hshard.subset (by simp))

/-- An innermost directory holds the objects of its indices. -/
theorem children_inner (hlen : ¬dir.length < l.depth.toNat) :
    l.children keys dir ⊆ (fun key : Key => key.name.text) ''
      {key ∈ keys | l.components key.index = .ok dir} := by
  rintro name ⟨key, hkey, dirs, hdirs, hpre⟩
  obtain ⟨-, rfl⟩ := l.components_eq_ok.1 hdirs
  have hdeep : (dir ++ [name]).length = dir.length + 1 ∧
      (l.shard key.index ++ [key.name.text]).length = l.depth.toNat + 1 := by
    simp [length_shard]
  have hle := hpre.length_le
  obtain ⟨rfl, hname⟩ := List.append_inj' (hpre.eq_of_length (by omega)) rfl
  exact ⟨key, ⟨hkey, hdirs⟩, (List.cons.inj hname).1.symm⟩

/-- A directory takes at most `fanout` entries if no two objects share an index. -/
theorem encard_children_le (hkeys : Set.InjOn Key.index keys) (dir : List String) :
    (l.children keys dir).encard ≤ l.fanout.toNat := by
  by_cases hlen : dir.length < l.depth.toNat
  · exact (Set.encard_le_encard (children_outer hlen)).trans l.encard_dirNames_le
  · have hindices : Key.index '' {key ∈ keys | l.components key.index = .ok dir} ⊆
        {index | l.components index = .ok dir} := by
      rintro _ ⟨key, hkey, rfl⟩
      exact hkey.2
    calc (l.children keys dir).encard
        ≤ {key ∈ keys | l.components key.index = .ok dir}.encard :=
          (Set.encard_le_encard (children_inner hlen)).trans (Set.encard_image_le _ _)
      _ = (Key.index '' {key ∈ keys | l.components key.index = .ok dir}).encard :=
          ((hkeys.mono (Set.sep_subset ..)).encard_image).symm
      _ ≤ {index | l.components index = .ok dir}.encard := Set.encard_le_encard hindices
      _ ≤ l.fanout.toNat := l.encard_indices_le dir

variable (l)

/-! ## The placement -/

theorem ofConfig_eq_ok {fanout : UInt64} {depth : UInt32} :
    ofConfig fanout depth = .ok l ↔ l.fanout = fanout ∧ l.depth = depth := by
  constructor
  · intro h
    unfold ofConfig at h
    split at h
    · split at h
      · split at h
        · cases h
          exact ⟨rfl, rfl⟩
        · cases h
      · cases h
    · cases h
  · rintro ⟨rfl, rfl⟩
    have hpower : boundedPower (UInt64.size - 1) l.fanout.toNat 1 (l.depth.toNat + 1) =
        some (1 * Nat.pow l.fanout.toNat (l.depth.toNat + 1)) := by
      refine (boundedPower_eq_some (by decide) l.fanout_pos).2 ⟨rfl, ?_⟩
      have hfits := l.fits
      omega
    unfold ofConfig
    rw [dif_pos l.two_le, dif_pos l.depth_pos]
    split
    · rfl
    · next hnone => cases hpower.symm.trans hnone

/-- What a layout makes of its fanout and depth. -/
structure Places : Prop where
  accepted (fanout : UInt64) (depth : UInt32) :
    ofConfig fanout depth = .ok l ↔ l.fanout = fanout ∧ l.depth = depth
  maxIndex : l.maxIndex.toNat = l.fanout.toNat ^ (l.depth.toNat + 1) - 1
  refused : ∀ index, l.maxIndex < index → l.components index = .error ⟨index, l.maxIndex⟩
  digits : ∀ index ≤ l.maxIndex, ∃ names, l.components index = .ok names ∧
    names.length = l.depth.toNat ∧ (∀ name ∈ names, l.IsDirName name) ∧
    ofDigits l.fanout.toNat (names.map fun name => Text.decimalNumber name.toList) =
      index.toNat / l.fanout.toNat
  shared : ∀ i ≤ l.maxIndex, ∀ j ≤ l.maxIndex, l.components i = l.components j ↔
    i.toNat / l.fanout.toNat = j.toNat / l.fanout.toNat
  ordered : ∀ i j, i ≤ j → ∀ names names', l.components i = .ok names →
    l.components j = .ok names' → names ≤ names'
  /-- The digits of any innermost directory are those of `fanout` indices in a row. -/
  consecutive : ∀ values : List Nat, values.length = l.depth.toNat →
    (∀ value ∈ values, value < l.fanout.toNat) →
    ∃ first, first + l.fanout.toNat ≤ l.maxIndex.toNat + 1 ∧ ∀ index,
      l.components index = .ok (values.map l.dirName) ↔
        first ≤ index.toNat ∧ index.toNat < first + l.fanout.toNat
  /-- Objects with indices of their own fill no directory beyond the fanout. -/
  bounded : ∀ keys : Set Key, Set.InjOn Key.index keys → ∀ dir : List String,
    (l.children keys dir).encard ≤ l.fanout.toNat

/-- A layout places every index that it has, in order, and fills no directory beyond its fanout. -/
theorem places : l.Places where
  accepted _ _ := l.ofConfig_eq_ok
  maxIndex := l.maxIndex_toNat
  refused _ h := l.components_eq_error h
  digits index h := by
    refine ⟨l.shard index, l.components_eq_ok.2 ⟨h, rfl⟩, l.length_shard index, ?_, ?_⟩
    · intro name hname
      obtain ⟨digit, hdigit, rfl⟩ := l.exists_of_mem_shard hname
      exact l.isDirName_dirName hdigit
    · rw [numbers_shard, ofDigits_groupDigits, Nat.mod_eq_of_lt (l.group_lt h)]
  shared i hi j hj := by
    rw [l.components_eq_ok.2 ⟨hi, rfl⟩, l.components_eq_ok.2 ⟨hj, rfl⟩, Except.ok.injEq,
      l.shard_eq_iff hi hj]
  ordered i j hij names names' hi hj := by
    obtain ⟨-, rfl⟩ := l.components_eq_ok.1 hi
    obtain ⟨hroom, rfl⟩ := l.components_eq_ok.1 hj
    exact l.shard_le hroom hij
  consecutive _ hlen hvalues := l.exists_first hlen hvalues
  bounded _ hkeys dir := encard_children_le hkeys dir

theorem places_sample : (∃ names, standard.components 1234567 = .ok names ∧ names.length = 2) ∧
    standard.components 1234567 = standard.components 1234000 ∧
    standard.components 1234567 ≠ standard.components 1235000 := by
  have hplaces := standard.places
  obtain ⟨names, hnames, hlength, -⟩ := hplaces.digits 1234567 (by decide +kernel)
  have hshared := hplaces.shared 1234567 (by decide +kernel)
  refine ⟨⟨names, hnames, hlength⟩, (hshared 1234000 (by decide +kernel)).2 (by decide +kernel),
    fun he => ?_⟩
  exact absurd ((hshared 1235000 (by decide +kernel)).1 he) (by decide +kernel)

example : standard.components 1234567 = .ok ["001", "234"] := by decide +kernel

end Layout

end Depot
