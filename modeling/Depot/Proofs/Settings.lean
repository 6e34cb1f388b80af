import Depot.Proofs.Placement
import Depot.Proofs.Session.Acts
import Depot.Proofs.Words

/-! Which settings hold good. A layout is accepted if and only if a word can count its objects, and
no operation on words stops on the way, neither when it is made nor when it is used. A handle is
refused for its settings if and only if they do not hold good. -/

namespace Depot

open Work

namespace Layout

variable {fanout : UInt64} {depth : UInt32}

/-! ## Layouts that are accepted -/

theorem ofConfig_of_fits (hf : 2 ≤ fanout.toNat) (hd : 1 ≤ depth.toNat)
    (h : fanout.toNat ^ (depth.toNat + 1) < UInt64.size) :
    ofConfig fanout depth = .ok ⟨fanout, depth, hf, hd, h⟩ := (ofConfig_eq_ok _).2 ⟨rfl, rfl⟩

theorem ofConfig_of_narrow (hf : ¬ 2 ≤ fanout.toNat) :
    ofConfig fanout depth = .error (.fanout fanout) := dif_neg hf

theorem ofConfig_of_flat (hf : 2 ≤ fanout.toNat) (hd : ¬ 1 ≤ depth.toNat) :
    ofConfig fanout depth = .error .depth := by
  rw [ofConfig, dif_pos hf, dif_neg hd]

theorem ofConfig_of_large (hf : 2 ≤ fanout.toNat) (hd : 1 ≤ depth.toNat)
    (h : UInt64.size ≤ fanout.toNat ^ (depth.toNat + 1)) :
    ofConfig fanout depth = .error (.range fanout depth) := by
  rw [ofConfig, dif_pos hf, dif_pos hd]
  split
  · next p hp =>
    have hle := ((boundedPower_eq_some (by decide) (by omega)).1 hp).2
    rw [Nat.one_mul, Nat.pow_eq] at hle
    have hpos : 0 < UInt64.size := by decide
    omega
  · rfl

theorem ofConfig_isOk : (∃ l, ofConfig fanout depth = .ok l) ↔
    2 ≤ fanout.toNat ∧ 1 ≤ depth.toNat ∧ fanout.toNat ^ (depth.toNat + 1) ≤ 2 ^ 64 - 1 := by
  constructor
  · rintro ⟨l, hl⟩
    obtain ⟨rfl, rfl⟩ := l.ofConfig_eq_ok.1 hl
    exact ⟨l.two_le, l.depth_pos, Nat.le_sub_one_of_lt l.fits⟩
  · rintro ⟨hf, hd, h⟩
    exact ⟨_, ofConfig_of_fits hf hd (Nat.lt_of_le_sub_one (by decide) h)⟩

/-- The largest index is one less than the number of objects, which is a word. -/
theorem maxIndex_succ (l : Layout) :
    (l.maxIndex + 1).toNat = l.fanout.toNat ^ (l.depth.toNat + 1) ∧
      l.maxIndex.toNat + 1 = l.fanout.toNat ^ (l.depth.toNat + 1) := by
  have hpos := l.capacity_pos
  have hcapacity : l.maxIndex.toNat + 1 = l.capacity := by
    rw [maxIndex_toNat]
    omega
  exact ⟨(toNat_succ (UInt64.le_refl _)).trans hcapacity, hcapacity⟩

/-! ## In words -/

/-- A layout as it is kept. -/
structure Kept where
  fanout : UInt64
  depth : UInt32
  width : Nat
  maxIndex : UInt64

def kept (l : Layout) : Kept := ⟨l.fanout, l.depth, l.width, l.maxIndex⟩

namespace Kept

/-- A power that is no word is refused. Whatever else is no word stops. -/
def ofConfig (fanout : UInt64) (depth : UInt32) : Option (Except LayoutFault Kept) :=
  if fanout < 2 then some (.error (.fanout fanout))
  else if depth = 0 then some (.error .depth)
  else match (Word.next? depth).bind (Word.power? fanout) with
    | none => some (.error (.range fanout depth))
    | some capacity => do
      let largest ← Word.sub? fanout 1
      let maxIndex ← Word.sub? capacity 1
      some (.ok ⟨fanout, depth, (toString largest.toNat).length, maxIndex⟩)

def check (k : Kept) (index : UInt64) : Except Overflow Unit :=
  if k.maxIndex < index then .error ⟨index, k.maxIndex⟩ else .ok ()

/-- The innermost `depth` directories of a group, one division after another. -/
def groupNames (k : Kept) : Nat → UInt64 → Option (List String)
  | 0, _ => some []
  | depth + 1, group => do
    let digit ← Word.mod? group k.fanout
    let outer ← k.groupNames depth (← Word.div? group k.fanout)
    some (outer ++ [String.ofList (Text.decimalDigits k.width digit.toNat)])

def components (k : Kept) (index : UInt64) : Option (Except Overflow (List String)) :=
  match k.check index with
  | .error o => some (.error o)
  | .ok () => do
    let names ← k.groupNames k.depth.toNat (← Word.div? index k.fanout)
    some (.ok names)

end Kept

/-- The number of objects, if it is a word, is found. A depth that has no word after it is too large
in any case. -/
theorem capacity?_eq_some (hf : 2 ≤ fanout.toNat) {p : UInt64} :
    (Word.next? depth).bind (Word.power? fanout) = some p ↔
      p.toNat = fanout.toNat ^ (depth.toNat + 1) := by
  have hp : p.toNat < UInt64.size := p.toNat_lt
  unfold Word.next?
  split
  · next h =>
    have hnext : (depth + 1).toNat = depth.toNat + 1 := by
      rw [UInt32.toNat_add, UInt32.toNat_one, Nat.mod_eq_of_lt h]
    rw [Option.bind_some, Word.power?_eq_some (by omega), hnext]
  · next h =>
    have hlarge : UInt64.size ≤ fanout.toNat ^ (depth.toNat + 1) := by
      have hdepth : 64 ≤ depth.toNat + 1 := (by decide : 64 ≤ UInt32.size).trans (by omega)
      calc UInt64.size = 2 ^ 64 := rfl
        _ ≤ 2 ^ (depth.toNat + 1) := Nat.pow_le_pow_right (by decide) hdepth
        _ ≤ fanout.toNat ^ (depth.toNat + 1) := Nat.pow_le_pow_left hf _
    simp only [Option.bind_none, reduceCtorEq, false_iff]
    omega

theorem ofConfig_kept (fanout : UInt64) (depth : UInt32) :
    Kept.ofConfig fanout depth = some ((ofConfig fanout depth).map kept) := by
  have hnarrow : fanout < 2 ↔ ¬ 2 ≤ fanout.toNat := by
    rw [UInt64.lt_iff_toNat_lt, Nat.not_le]
    rfl
  unfold Kept.ofConfig
  by_cases hf : 2 ≤ fanout.toNat
  swap
  · rw [if_pos (hnarrow.2 hf), ofConfig_of_narrow hf]
    rfl
  rw [if_neg (hnarrow.not.2 (not_not.2 hf))]
  by_cases hd : 1 ≤ depth.toNat
  swap
  · have hzero : depth = 0 := UInt32.toNat_inj.1 (by rw [UInt32.toNat_zero]; omega)
    rw [if_pos hzero, ofConfig_of_flat hf hd]
    rfl
  rw [if_neg (by rintro rfl; exact absurd hd (by decide))]
  cases hc : (Word.next? depth).bind (Word.power? fanout) with
  | none =>
    have hlarge : UInt64.size ≤ fanout.toNat ^ (depth.toNat + 1) := by
      by_contra hfits
      have hsome : (Word.next? depth).bind (Word.power? fanout) =
          some (.ofNat (fanout.toNat ^ (depth.toNat + 1))) := by
        rw [capacity?_eq_some hf, UInt64.toNat_ofNat', Nat.mod_eq_of_lt (Nat.not_le.1 hfits)]
      rw [hc] at hsome
      cases hsome
    rw [ofConfig_of_large hf hd hlarge]
    rfl
  | some capacity =>
    have hcapacity := (capacity?_eq_some hf).1 hc
    have hfits : fanout.toNat ^ (depth.toNat + 1) < UInt64.size := hcapacity ▸ capacity.toNat_lt
    rw [ofConfig_of_fits hf hd hfits]
    generalize hl : (⟨fanout, depth, hf, hd, hfits⟩ : Layout) = l
    obtain rfl : l.fanout = fanout := by rw [← hl]
    obtain rfl : l.depth = depth := by rw [← hl]
    have hone : 1 ≤ l.fanout := UInt64.le_iff_toNat_le.2 l.fanout_pos
    have hlargest : Word.sub? l.fanout 1 = some (l.fanout - 1) := if_pos hone
    have hmax : Word.sub? capacity 1 = some l.maxIndex := by
      rw [Word.sub?_eq_some, hcapacity, ← l.maxIndex_succ.2]
      exact Nat.add_comm ..
    have hwidth : (l.fanout - 1).toNat = l.fanout.toNat - 1 := UInt64.toNat_sub_of_le _ _ hone
    simp only [Option.bind_eq_bind, hlargest, hmax, Option.bind_some, hwidth]
    rfl

/-- The directories of a group are found without a step that stops. -/
theorem groupNames_kept (l : Layout) (depth : Nat) (group : UInt64) :
    l.kept.groupNames depth group =
      some ((groupDigits l.fanout.toNat depth group.toNat).map l.dirName) := by
  induction depth generalizing group with
  | zero => rfl
  | succ depth ih =>
    have hmod : Word.mod? group l.kept.fanout = some (group % l.fanout) :=
      Word.mod?_of_pos l.fanout_pos
    have hdiv : Word.div? group l.kept.fanout = some (group / l.fanout) :=
      Word.div?_of_pos l.fanout_pos
    rw [Kept.groupNames, groupDigits, List.map_append, List.map_singleton]
    simp only [Option.bind_eq_bind, hmod, hdiv, Option.bind_some, ih, UInt64.toNat_div,
      UInt64.toNat_mod]
    rfl

theorem components_kept (l : Layout) (index : UInt64) :
    l.kept.components index = some (l.components index) := by
  have hcheck : l.kept.check index = l.check index := rfl
  have hdiv : Word.div? index l.kept.fanout = some (index / l.fanout) :=
    Word.div?_of_pos l.fanout_pos
  rw [Kept.components, hcheck, components]
  cases l.check index with
  | error o => rfl
  | ok u =>
    simp only [Option.bind_eq_bind, hdiv, Option.bind_some, groupNames_kept, UInt64.toNat_div]
    rfl

end Layout

/-! ## Settings -/

namespace Settings

variable {settings : Settings}

theorem validate_isOk : (∃ l, settings.validate = .ok l) ↔ 1 ≤ settings.copyLimit.toNat ∧
    ∃ l, Layout.ofConfig settings.fanout settings.depth = .ok l := by
  unfold validate
  split
  · next h => simp [h]
  · next h =>
    have hpos : 1 ≤ settings.copyLimit.toNat := by
      rw [← UInt64.toNat_inj] at h
      exact Nat.one_le_iff_ne_zero.2 h
    rw [layout]
    cases Layout.ofConfig settings.fanout settings.depth <;> simp [Except.mapError, hpos]

end Settings

namespace SessionM

variable {slot registry : String} {settings : Settings} {fault : SettingsFault}
  {saved : SavedHandle} {storage : Storage} {s : Session}

/-- Settings are looked at before anything else. -/
theorem takeUp_of_fault (h : settings.validate = .error fault) :
    takeUp slot registry settings saved storage s = .error (.badSettings fault) s := by
  unfold takeUp
  rw [h]
  rfl

theorem takeUp_badSettings :
    answer (takeUp slot registry settings saved storage s) = .error (.badSettings fault) ↔
      settings.validate = .error fault := by
  constructor
  · intro h
    cases hv : settings.validate with
    | error fault' =>
      rw [takeUp_of_fault hv, answer_error] at h
      cases h
      rfl
    | ok layout =>
      rw [takeUp_answer hv] at h
      split at h
      · cases h
      split at h <;> cases h
  · intro h
    rw [takeUp_of_fault h, answer_error]

/-- Whoever is refused for settings leaves all as it was. -/
theorem takeUp_eq_badSettings :
    takeUp slot registry settings saved storage s = .error (.badSettings fault) s ↔
      settings.validate = .error fault := by
  refine ⟨fun h => ?_, takeUp_of_fault⟩
  have hanswer := congrArg answer h
  rw [answer_error] at hanswer
  exact takeUp_badSettings.1 hanswer

end SessionM

/-- A layout is accepted if and only if its objects can be counted in a word, and then the largest
index is one less than their number. Settings hold good if and only if they have an accepted layout
and room for a copy, and a handle is refused for its settings, with everything left as it was, if
and only if they do not. Kept in words, a layout is made and used without an operation that
stops. -/
theorem settings_exact (settings : Settings) :
    (∀ fanout depth, (∃ l, Layout.ofConfig fanout depth = .ok l) ↔ 2 ≤ fanout.toNat ∧
      1 ≤ depth.toNat ∧ fanout.toNat ^ (depth.toNat + 1) ≤ 2 ^ 64 - 1) ∧
    (∀ fanout depth l, Layout.ofConfig fanout depth = .ok l ↔ l.fanout = fanout ∧ l.depth = depth) ∧
    (∀ l : Layout, (l.maxIndex + 1).toNat = l.fanout.toNat ^ (l.depth.toNat + 1) ∧
      l.maxIndex.toNat + 1 = l.fanout.toNat ^ (l.depth.toNat + 1)) ∧
    ((∃ l, settings.validate = .ok l) ↔ 1 ≤ settings.copyLimit.toNat ∧
      2 ≤ settings.fanout.toNat ∧ 1 ≤ settings.depth.toNat ∧
      settings.fanout.toNat ^ (settings.depth.toNat + 1) ≤ 2 ^ 64 - 1) ∧
    (∀ slot registry label id s fault,
      (answer (SessionM.create slot registry settings label id s) = .error (.badSettings fault) ↔
        settings.validate = .error fault) ∧
      (SessionM.create slot registry settings label id s = .error (.badSettings fault) s ↔
        settings.validate = .error fault)) ∧
    (∀ slot registry saved source s fault,
      (answer (SessionM.restore slot registry settings saved source s) =
        .error (.badSettings fault) ↔ settings.validate = .error fault) ∧
      (SessionM.restore slot registry settings saved source s = .error (.badSettings fault) s ↔
        settings.validate = .error fault)) ∧
    (∀ fanout depth, Layout.Kept.ofConfig fanout depth =
      some ((Layout.ofConfig fanout depth).map Layout.kept)) ∧
    ∀ (l : Layout) (index : UInt64), l.kept.check index = l.check index ∧
      l.kept.components index = some (l.components index) := by
  refine ⟨fun _ _ => Layout.ofConfig_isOk, fun _ _ l => l.ofConfig_eq_ok, Layout.maxIndex_succ, ?_,
    ?_, ?_, Layout.ofConfig_kept, fun l index => ⟨rfl, l.components_kept index⟩⟩
  · rw [Settings.validate_isOk, Layout.ofConfig_isOk]
  · exact fun _ _ _ _ _ _ => ⟨SessionM.takeUp_badSettings, SessionM.takeUp_eq_badSettings⟩
  · exact fun _ _ _ _ _ _ => ⟨SessionM.takeUp_badSettings, SessionM.takeUp_eq_badSettings⟩

example : Layout.ofConfig 65536 3 = .error (.range 65536 3) := by decide +kernel

end Depot
