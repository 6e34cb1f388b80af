import Depot.Label
import Mathlib.Data.List.TakeWhile
import Mathlib.Tactic.Tauto

/-! What is left of a label. The rules for single characters say what the label is rewritten to, and
the first node id behind the first five characters says where the text in between gives way. -/

namespace Depot.Label

/-! ## Characters -/

/-- May stand in a directory name: ASCII letters and digits, `_` and `-`. -/
def Safe (c : Char) : Prop :=
  ('A' ≤ c ∧ c ≤ 'Z') ∨ ('a' ≤ c ∧ c ≤ 'z') ∨ ('0' ≤ c ∧ c ≤ '9') ∨ c = '_' ∨ c = '-'

theorem isSafe_iff {c : Char} : isSafe c ↔ Safe c := by
  delta isSafe Safe Char.isAlphanum Char.isAlpha Char.isUpper Char.isLower Char.isDigit
  simp only [Char.le_def, Bool.or_eq_true, Bool.and_eq_true, decide_eq_true_eq]
  tauto

/-- The label is rewritten to this text, character by character. -/
inductive Rewritten : List Char → List Char → Prop where
  | nil : Rewritten [] []
  | dropped {c : Char} {label s : List Char} : c = '(' ∨ c = ')' ∨ c = '-' → Rewritten label s →
      Rewritten (c :: label) s
  | colon {label s : List Char} : Rewritten label s → Rewritten (':' :: label) ('-' :: s)
  | kept {c : Char} {label s : List Char} : Safe c → c ≠ '-' → Rewritten label s →
      Rewritten (c :: label) (c :: s)
  | replaced {c : Char} {label s : List Char} : ¬ Safe c → c ≠ '(' → c ≠ ')' → c ≠ ':' →
      Rewritten label s → Rewritten (c :: label) ('_' :: s)

theorem tidy_cons (c : Char) (label : List Char) : tidy (c :: label) =
    if c = '(' ∨ c = ')' ∨ c = '-' then tidy label
    else (if c = ':' then '-' else if isSafe c then c else '_') :: tidy label := by
  unfold tidy
  split
  · next h => rw [List.filter_cons_of_neg (by simp; tauto)]
  · next h => rw [List.filter_cons_of_pos (by simp; tauto), List.map_cons]

theorem rewritten_tidy (label : List Char) : Rewritten label (tidy label) := by
  induction label with
  | nil => exact .nil
  | cons c label ih =>
    rw [tidy_cons]
    split
    · next hdrop => exact .dropped hdrop ih
    next hdrop =>
    simp only [not_or] at hdrop
    split
    · next hcolon =>
      subst hcolon
      exact .colon ih
    next hcolon =>
    split
    · next hsafe => exact .kept (isSafe_iff.1 hsafe) hdrop.2.2 ih
    · next hsafe =>
      exact .replaced (fun h => hsafe (isSafe_iff.2 h)) hdrop.1 hdrop.2.1 hcolon ih

theorem Rewritten.eq_tidy {label s : List Char} (h : Rewritten label s) : s = tidy label := by
  induction h with
  | nil => rfl
  | dropped hc _ ih => rw [tidy_cons, if_pos hc, ih]
  | colon _ ih => rw [tidy_cons, if_neg (by decide), if_pos rfl, ih]
  | @kept c label s hsafe hdash _ ih =>
    have hparen : ¬ (c = '(' ∨ c = ')' ∨ c = '-') := by
      rintro (rfl | rfl | rfl)
      · exact absurd (isSafe_iff.2 hsafe) (by decide)
      · exact absurd (isSafe_iff.2 hsafe) (by decide)
      · exact hdash rfl
    have hcolon : c ≠ ':' := by
      rintro rfl
      exact absurd (isSafe_iff.2 hsafe) (by decide)
    rw [tidy_cons, if_neg hparen, if_neg hcolon, if_pos (isSafe_iff.2 hsafe), ih]
  | @replaced c label s hsafe hopen hclose hcolon _ ih =>
    have hdash : c ≠ '-' := by
      rintro rfl
      exact hsafe (by simp [Safe])
    rw [tidy_cons, if_neg (by tauto), if_neg hcolon, if_neg fun h => hsafe (isSafe_iff.1 h), ih]

theorem rewritten_iff {label s : List Char} : Rewritten label s ↔ s = tidy label := by
  constructor
  · exact Rewritten.eq_tidy
  · rintro rfl
    exact rewritten_tidy label

theorem safe_of_mem_tidy {label : List Char} {c : Char} (h : c ∈ tidy label) : Safe c := by
  obtain ⟨d, -, rfl⟩ := List.mem_map.1 h
  split
  · simp [Safe]
  split
  · next hsafe => exact isSafe_iff.1 hsafe
  · simp [Safe]

theorem length_tidy_le (label : List Char) : (tidy label).length ≤ label.length := by
  rw [tidy, List.length_map]
  exact List.length_filter_le _ _

/-! ## Node ids -/

/-- At least one decimal digit, and nothing else. -/
def IsNumber (ds : List Char) : Prop := ds ≠ [] ∧ ∀ c ∈ ds, '0' ≤ c ∧ c ≤ '9'

/-- Two numbers or more with a dash between each and the next. -/
inductive IsNodeId : List Char → Prop where
  | pair {m n : List Char} : IsNumber m → IsNumber n → IsNodeId (m ++ '-' :: n)
  | next {m id : List Char} : IsNumber m → IsNodeId id → IsNodeId (m ++ '-' :: id)

/-- A node id stands at place `p` of `s`, whatever comes after it. -/
def IdAt (s : List Char) (p : Nat) : Prop := ∃ id, IsNodeId id ∧ id <+: s.drop p

theorem IsNumber.head {ds : List Char} (h : IsNumber ds) :
    ∃ d rest, ds = d :: rest ∧ Text.isDecimal d := by
  obtain ⟨hne, hall⟩ := h
  cases ds with
  | nil => exact absurd rfl hne
  | cons d rest =>
    exact ⟨d, rest, rfl, by simpa [Text.isDecimal] using hall d (List.mem_cons_self ..)⟩

theorem IsNodeId.head {id : List Char} (h : IsNodeId id) :
    ∃ m d rest, IsNumber m ∧ Text.isDecimal d ∧ id = m ++ '-' :: d :: rest := by
  cases h with
  | pair hm hn =>
    obtain ⟨d, rest, rfl, hd⟩ := hn.head
    exact ⟨_, d, rest, hm, hd, rfl⟩
  | next hm hid =>
    cases hid with
    | pair hm' _ =>
      obtain ⟨d, rest, rfl, hd⟩ := hm'.head
      exact ⟨_, d, _, hm, hd, by rw [List.cons_append]⟩
    | next hm' _ =>
      obtain ⟨d, rest, rfl, hd⟩ := hm'.head
      exact ⟨_, d, _, hm, hd, by rw [List.cons_append]⟩

/-- To see that an id starts it is enough to look at its first number and one digit more. -/
theorem startsId_iff {s : List Char} : startsId s ↔ ∃ id, IsNodeId id ∧ id <+: s := by
  constructor
  · intro h
    unfold startsId at h
    split at h
    · next m ms d rest htake hdrop =>
      have hsplit := List.takeWhile_append_dropWhile (p := Text.isDecimal) (l := s)
      rw [htake, hdrop] at hsplit
      have hnumber : IsNumber (m :: ms) := by
        refine ⟨List.cons_ne_nil _ _, fun c hc => ?_⟩
        rw [← htake] at hc
        simpa [Text.isDecimal] using List.mem_takeWhile_imp hc
      have hdigit : IsNumber [d] := ⟨List.cons_ne_nil _ _, by simpa [Text.isDecimal] using h⟩
      refine ⟨_, .pair hnumber hdigit, rest, ?_⟩
      simpa using hsplit
    · cases h
  · rintro ⟨id, hid, more, rfl⟩
    obtain ⟨m, d, rest, ⟨hne, hall⟩, hd, rfl⟩ := hid.head
    have hm : ∀ c ∈ m, Text.isDecimal c := fun c hc => by simpa [Text.isDecimal] using hall c hc
    have htake : (m ++ '-' :: d :: (rest ++ more)).takeWhile Text.isDecimal = m := by
      rw [List.takeWhile_append_of_pos hm, List.takeWhile_cons_of_neg (by decide), List.append_nil]
    have hdrop : (m ++ '-' :: d :: (rest ++ more)).dropWhile Text.isDecimal =
        '-' :: d :: (rest ++ more) := by
      rw [List.dropWhile_append_of_pos hm, List.dropWhile_cons_of_neg (by decide)]
    rw [List.append_assoc, List.cons_append, List.cons_append]
    unfold startsId
    rw [htake, hdrop]
    cases m with
    | nil => exact absurd rfl hne
    | cons c m => exact hd

theorem idAt_zero {s : List Char} : IdAt s 0 ↔ startsId s := startsId_iff.symm

theorem idAt_drop {s : List Char} {n p : Nat} : IdAt (s.drop n) p ↔ IdAt s (n + p) := by
  rw [IdAt, IdAt, List.drop_drop]

theorem not_idAt_nil {p : Nat} : ¬ IdAt [] p := by
  rintro ⟨id, hid, hpre⟩
  obtain ⟨m, d, rest, -, -, rfl⟩ := hid.head
  simp at hpre

theorem fromId?_eq_some {s rest : List Char} : fromId? s = some rest ↔
    ∃ p, IdAt s p ∧ (∀ q < p, ¬ IdAt s q) ∧ rest = s.drop p := by
  induction s with
  | nil =>
    constructor
    · intro h
      cases h
    · rintro ⟨p, hp, -⟩
      exact absurd hp not_idAt_nil
  | cons c s ih =>
    rw [fromId?]
    split
    · next hstart =>
      have hzero := idAt_zero.2 hstart
      constructor
      · intro h
        cases h
        exact ⟨0, hzero, fun q hq => absurd hq (Nat.not_lt_zero q), rfl⟩
      · rintro ⟨p, -, hleast, rfl⟩
        cases p with
        | zero => rfl
        | succ p => exact absurd hzero (hleast 0 (Nat.succ_pos p))
    · next hstart =>
      have hzero : ¬ IdAt (c :: s) 0 := fun h => hstart (idAt_zero.1 h)
      rw [ih]
      constructor
      · rintro ⟨p, hp, hleast, rfl⟩
        refine ⟨p + 1, hp, fun q hq => ?_, rfl⟩
        cases q with
        | zero => exact hzero
        | succ q => exact hleast q (Nat.lt_of_succ_lt_succ hq)
      · rintro ⟨p, hp, hleast, rfl⟩
        cases p with
        | zero => exact absurd hp hzero
        | succ p => exact ⟨p, hp, fun q hq => hleast (q + 1) (Nat.succ_lt_succ hq), rfl⟩

theorem fromId?_eq_none {s : List Char} : fromId? s = none ↔ ∀ p, ¬ IdAt s p := by
  induction s with
  | nil => exact iff_of_true rfl fun p => not_idAt_nil
  | cons c s ih =>
    rw [fromId?]
    split
    · next hstart => exact iff_of_false nofun fun h => h 0 (idAt_zero.2 hstart)
    · next hstart =>
      rw [ih]
      constructor
      · intro h p
        cases p with
        | zero => exact fun hp => hstart (idAt_zero.1 hp)
        | succ p => exact h p
      · exact fun h p => h (p + 1)

/-! ## Shortening -/

/-- Of `s` this is left: behind the first five characters, the text before the first node id gives
way to one `_`. What comes after the id stays, a further id too. -/
inductive Shortened (s : List Char) : List Char → Prop where
  | collapsed {p : Nat} : 5 ≤ p → IdAt s p → (∀ q, 5 ≤ q → q < p → ¬ IdAt s q) →
      Shortened s (s.take 5 ++ '_' :: s.drop p)
  | whole : (∀ p, 5 ≤ p → ¬ IdAt s p) → Shortened s s

theorem shortened_shorten (s : List Char) : Shortened s (shorten s) := by
  unfold shorten
  cases h : fromId? (s.drop 5) with
  | some rest =>
    obtain ⟨p, hp, hleast, rfl⟩ := fromId?_eq_some.1 h
    rw [List.drop_drop]
    refine .collapsed (Nat.le_add_right 5 p) (idAt_drop.1 hp) fun q hq hqp hid => ?_
    obtain ⟨r, rfl⟩ := Nat.exists_eq_add_of_le hq
    exact hleast r (by omega) (idAt_drop.2 hid)
  | none =>
    refine .whole fun p hp hid => ?_
    obtain ⟨r, rfl⟩ := Nat.exists_eq_add_of_le hp
    exact fromId?_eq_none.1 h r (idAt_drop.2 hid)

theorem Shortened.unique {s t t' : List Char} (h : Shortened s t) (h' : Shortened s t') :
    t = t' := by
  cases h with
  | @collapsed p hp hid hleast =>
    cases h' with
    | @collapsed q hq hid' hleast' =>
      obtain hlt | rfl | hlt := Nat.lt_trichotomy p q
      · exact absurd hid (hleast' p hp hlt)
      · rfl
      · exact absurd hid' (hleast q hq hlt)
    | whole hnone => exact absurd hid (hnone p hp)
  | whole hnone =>
    cases h' with
    | @collapsed q hq hid' _ => exact absurd hid' (hnone q hq)
    | whole _ => rfl

theorem shortened_iff {s t : List Char} : Shortened s t ↔ t = shorten s := by
  constructor
  · exact fun h => h.unique (shortened_shorten s)
  · rintro rfl
    exact shortened_shorten s

theorem Shortened.mem {s t : List Char} (h : Shortened s t) {c : Char} (hc : c ∈ t) :
    c ∈ s ∨ c = '_' := by
  cases h with
  | collapsed =>
    simp only [List.mem_append, List.mem_cons] at hc
    rcases hc with hc | rfl | hc
    · exact Or.inl (List.mem_of_mem_take hc)
    · exact Or.inr rfl
    · exact Or.inl (List.mem_of_mem_drop hc)
  | whole => exact Or.inl hc

theorem Shortened.length_le {s t : List Char} (h : Shortened s t) : t.length ≤ s.length + 1 := by
  cases h with
  | collapsed hp =>
    simp only [List.length_append, List.length_take, List.length_cons, List.length_drop]
    omega
  | whole => exact Nat.le_succ _

/-! ## Sanitized labels -/

theorem toList_sanitize (label : String) (limit : Nat) :
    (sanitize label limit).toList = (shorten (tidy label.toList)).take limit :=
  String.toList_ofList

theorem safe_of_mem_sanitize {label : String} {limit : Nat} {c : Char}
    (h : c ∈ (sanitize label limit).toList) : Safe c := by
  rw [toList_sanitize] at h
  rcases (shortened_shorten _).mem (List.mem_of_mem_take h) with h | rfl
  · exact safe_of_mem_tidy h
  · simp [Safe]

theorem length_sanitize_le (label : String) (limit : Nat) :
    (sanitize label limit).length ≤ limit ∧ (sanitize label limit).length ≤ label.length + 1 := by
  have hshort := (shortened_shorten (tidy label.toList)).length_le
  have htidy := length_tidy_le label.toList
  rw [← String.length_toList, ← String.length_toList, toList_sanitize, List.length_take]
  omega

/-- What becomes of a label: the rules for characters give one text, of which the text before the
first node id is left out, and the first `limit` characters of that remain. They are safe, and there
is at most one more of them than the label has. -/
theorem sanitize_meaning (label : String) (limit : Nat) :
    ∃ s t, (∀ s', Rewritten label.toList s' ↔ s' = s) ∧ (∀ t', Shortened s t' ↔ t' = t) ∧
      (sanitize label limit).toList = t.take limit ∧
      (sanitize label limit).length ≤ limit ∧
      (sanitize label limit).length ≤ label.length + 1 ∧
      ∀ c ∈ (sanitize label limit).toList, Safe c := by
  obtain ⟨hlimit, hlabel⟩ := length_sanitize_le label limit
  exact ⟨tidy label.toList, shorten (tidy label.toList), fun _ => rewritten_iff,
    fun _ => shortened_iff, toList_sanitize label limit, hlimit, hlabel,
    fun _ => safe_of_mem_sanitize⟩

example : sanitize "Loop End 2:1 then 7:8" 64 = "Loop__2-1_then_7-8" := by decide +kernel

end Depot.Label
