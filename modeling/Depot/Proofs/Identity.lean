import Depot.Identity.Spelling
import Depot.Proofs.Text.Numerals

/-! The texts of identities. There are four, in any letter case, and each has all 32 digits of the
number; a text of any other form is no identity. The text that is shown sorts like the number. -/

namespace Depot

/-! ## Comparing lists -/

section Compare

variable {α β : Type} [Ord α] [Ord β]

theorem compare_append {xs ys us vs : List α} (h : xs.length = ys.length) :
    compare (xs ++ us) (ys ++ vs) = (compare xs ys).then (compare us vs) := by
  induction xs generalizing ys with
  | nil =>
    rw [List.length_eq_zero_iff.1 h.symm, List.compare_nil_nil]
    rfl
  | cons x xs ih =>
    cases ys with
    | nil => cases h
    | cons y ys =>
      rw [List.cons_append, List.cons_append, List.compare_cons_cons, List.compare_cons_cons,
        ih (Nat.succ.inj h), Ordering.then_assoc]

theorem compare_singleton (x y : α) : compare [x] [y] = compare x y := by
  rw [List.compare_cons_cons, List.compare_nil_nil]
  cases compare x y <;> rfl

/-- What stands in both lists at one place makes no difference. -/
theorem compare_append_cons [Std.ReflOrd α] {xs ys us vs : List α} (h : xs.length = ys.length)
    (x : α) : compare (xs ++ x :: us) (ys ++ x :: vs) = compare (xs ++ us) (ys ++ vs) := by
  rw [compare_append h, compare_append h, List.compare_cons_cons, Std.ReflOrd.compare_self]
  rfl

end Compare

/-- Numbers compare by what is in front of the last digit, and then by that digit. -/
theorem compare_div_mod (m n base : Nat) :
    (compare (m / base) (n / base)).then (compare (m % base) (n % base)) = compare m n := by
  have hm := Nat.div_add_mod m base
  have hn := Nat.div_add_mod n base
  rcases Nat.lt_trichotomy (m / base) (n / base) with hlt | heq | hgt
  · have hmn : m < n := Nat.lt_of_div_lt_div hlt
    rw [Nat.compare_eq_lt.2 hlt, Nat.compare_eq_lt.2 hmn]
    rfl
  · -- where the fronts are equal the last digits decide
    rw [heq] at hm
    have hlt : m % base < n % base ↔ m < n := by omega
    have hgt : n % base < m % base ↔ n < m := by omega
    rw [Nat.compare_eq_eq.2 heq, Nat.compare_eq_ite_lt, Nat.compare_eq_ite_lt]
    simp only [hlt, hgt]
    rfl
  · have hmn : n < m := Nat.lt_of_div_lt_div hgt
    rw [Nat.compare_eq_gt.2 hgt, Nat.compare_eq_gt.2 hmn]
    rfl

namespace Text

/-- The text in UTF-8. -/
def bytes (text : String) : List UInt8 := text.toUTF8.data.toList

theorem bytes_ofList {cs : List Char} (h : ∀ c ∈ cs, c.utf8Size = 1) :
    bytes (String.ofList cs) = cs.map fun c => c.val.toUInt8 := by
  change (cs.flatMap String.utf8EncodeChar).toByteArray.data.toList = _
  rw [List.toList_data_toByteArray]
  induction cs with
  | nil => rfl
  | cons c cs ih =>
    rw [List.flatMap_cons, String.utf8EncodeChar_eq_singleton (h c (List.mem_cons_self ..)),
      ih fun d hd => h d (List.mem_cons_of_mem _ hd), List.map_cons, List.singleton_append]

theorem toLower_of_mem_hexDigits {width n : Nat} {c : Char} (h : c ∈ hexDigits width n) :
    c.toLower = c := by
  have all : ∀ v < 16, (hexDigit v).toLower = hexDigit v := by decide
  induction width generalizing n with
  | zero => cases h
  | succ width ih =>
    rcases List.mem_append.1 h with h | h
    · exact ih h
    · rw [List.mem_singleton.1 h]
      exact all _ (Nat.mod_lt _ (by decide))

/-- Numerals of one width sort like their numbers. -/
theorem compare_hexDigits {width m n : Nat} (hm : m < 16 ^ width) (hn : n < 16 ^ width) :
    compare ((hexDigits width m).map fun c => c.val.toUInt8)
      ((hexDigits width n).map fun c => c.val.toUInt8) = compare m n := by
  have all : ∀ x < 16, ∀ y < 16,
      compare (hexDigit x).val.toUInt8 (hexDigit y).val.toUInt8 = compare x y := by decide
  induction width generalizing m n with
  | zero =>
    rw [Nat.pow_zero] at hm hn
    rw [Nat.lt_one_iff.1 hm, Nat.lt_one_iff.1 hn]
    rfl
  | succ width ih =>
    rw [Nat.pow_succ] at hm hn
    rw [hexDigits, hexDigits, List.map_append, List.map_append, compare_append (by simp),
      ih (by omega) (by omega), List.map_singleton, List.map_singleton, compare_singleton,
      all _ (Nat.mod_lt _ (by decide)) _ (Nat.mod_lt _ (by decide)), compare_div_mod]

end Text

namespace Identity

variable {id : Identity} {cs : List Char}

/-! ## Spellings -/

/-- All 32 digits of the number, in either case. -/
structure Digits (id : Identity) (ds : List Char) : Prop where
  length : ds.length = 32
  number : Text.HexNumeral ds id.bits.toNat

/-- The digits in groups of 8, 4, 4, 4 and 12, with dashes between them. -/
inductive Hyphenated (id : Identity) : List Char → Prop where
  | groups {a b c d e : List Char} : a.length = 8 → b.length = 4 → c.length = 4 → d.length = 4 →
      Digits id (a ++ b ++ c ++ d ++ e) →
      Hyphenated id (a ++ '-' :: b ++ '-' :: c ++ '-' :: d ++ '-' :: e)

/-- The texts of an identity: its digits alone, in groups, in groups between braces, or in groups
behind a name, which is read in any letter case too. -/
inductive Spelling (id : Identity) : List Char → Prop where
  | plain {ds : List Char} : Digits id ds → Spelling id ds
  | hyphenated {t : List Char} : Hyphenated id t → Spelling id t
  | braced {t : List Char} : Hyphenated id t → Spelling id ('\x7b' :: t ++ ['\x7d'])
  | named {front t : List Char} : front.map Char.toLower = "urn:uuid:".toList → Hyphenated id t →
      Spelling id (front ++ t)

/-! ## Reading -/

theorem ofPlain?_eq_some : ofPlain? cs = some id ↔ Digits id cs := by
  unfold ofPlain?
  constructor
  · intro h
    split at h
    · next hlen =>
      obtain ⟨n, hn, rfl⟩ := Option.map_eq_some_iff.1 h
      have hnumber := Text.hexNumber?_eq_some.1 hn
      refine ⟨hlen, ?_⟩
      have hlt : n < 2 ^ 128 := by
        have hbound := hnumber.lt
        rwa [hlen] at hbound
      rwa [BitVec.toNat_ofNat, Nat.mod_eq_of_lt hlt]
    · cases h
  · rintro ⟨hlen, hnumber⟩
    rw [if_pos hlen, Text.hexNumber?_eq_some.2 hnumber, Option.map_some, BitVec.ofNat_toNat,
      BitVec.setWidth_eq]

theorem ofHyphenated?_groups {a b c d : List Char} (ha : a.length = 8) (hb : b.length = 4)
    (hc : c.length = 4) (hd : d.length = 4) (e : List Char) :
    ofHyphenated? (a ++ '-' :: b ++ '-' :: c ++ '-' :: d ++ '-' :: e) =
      ofPlain? (a ++ b ++ c ++ d ++ e) := by
  match a, b, c, d, ha, hb, hc, hd with
  | [_, _, _, _, _, _, _, _], [_, _, _, _], [_, _, _, _], [_, _, _, _], _, _, _, _ => rfl

theorem split_at (cs : List Char) {x : Char} {n : Nat} (h : cs[n]? = some x) :
    cs = cs.take n ++ x :: cs.drop (n + 1) := by
  obtain ⟨hn, hx⟩ := List.getElem?_eq_some_iff.1 h
  rw [← hx, List.getElem_cons_drop, List.take_append_drop]

/-- Where the four dashes are found the text falls into five groups. -/
theorem groups_of_dashes (h8 : cs[8]? = some '-') (h13 : cs[13]? = some '-')
    (h18 : cs[18]? = some '-') (h23 : cs[23]? = some '-') :
    cs = cs.take 8 ++ '-' :: (cs.drop 9).take 4 ++ '-' :: (cs.drop 14).take 4 ++
      '-' :: (cs.drop 19).take 4 ++ '-' :: cs.drop 24 := by
  have second : cs.drop 9 = (cs.drop 9).take 4 ++ '-' :: cs.drop 14 := by
    have h := split_at (cs.drop 9) (n := 4) (by rwa [List.getElem?_drop])
    rwa [List.drop_drop] at h
  have third : cs.drop 14 = (cs.drop 14).take 4 ++ '-' :: cs.drop 19 := by
    have h := split_at (cs.drop 14) (n := 4) (by rwa [List.getElem?_drop])
    rwa [List.drop_drop] at h
  have fourth : cs.drop 19 = (cs.drop 19).take 4 ++ '-' :: cs.drop 24 := by
    have h := split_at (cs.drop 19) (n := 4) (by rwa [List.getElem?_drop])
    rwa [List.drop_drop] at h
  calc cs = cs.take 8 ++ '-' :: cs.drop 9 := split_at cs h8
    _ = cs.take 8 ++ '-' :: ((cs.drop 9).take 4 ++ '-' :: ((cs.drop 14).take 4 ++
        '-' :: ((cs.drop 19).take 4 ++ '-' :: cs.drop 24))) := by rw [← fourth, ← third, ← second]
    _ = _ := by simp only [List.append_assoc, List.cons_append]

theorem ofHyphenated?_eq_some : ofHyphenated? cs = some id ↔ Hyphenated id cs := by
  constructor
  · intro h
    unfold ofHyphenated? at h
    split at h
    · next hdashes =>
      obtain ⟨h8, h13, h18, h23⟩ := hdashes
      have hlong := (List.getElem?_eq_some_iff.1 h23).1
      have hdigits := ofPlain?_eq_some.1 h
      rw [groups_of_dashes h8 h13 h18 h23]
      refine .groups ?_ ?_ ?_ ?_ hdigits
      · rw [List.length_take]
        omega
      · rw [List.length_take, List.length_drop]
        omega
      · rw [List.length_take, List.length_drop]
        omega
      · rw [List.length_take, List.length_drop]
        omega
    · cases h
  · rintro ⟨ha, hb, hc, hd, hdigits⟩
    rw [ofHyphenated?_groups ha hb hc hd, ofPlain?_eq_some.2 hdigits]

theorem orDiagnose_eq_ok {found : Option Identity} {shape : Shape} :
    orDiagnose found shape cs = .ok id ↔ found = some id := by
  cases found <;> simp [orDiagnose]

/-! ## Lengths -/

theorem Digits.byteCount (h : Digits id cs) : Text.byteCount cs = 32 := by
  rw [Text.byteCount_of_ascii h.number.utf8Size, h.length]

theorem Hyphenated.utf8Size (h : Hyphenated id cs) : ∀ c ∈ cs, c.utf8Size = 1 := by
  obtain ⟨-, -, -, -, hdigits⟩ := h
  have hnumber := hdigits.number.utf8Size
  have hdash : '-'.utf8Size = 1 := by decide
  intro c hc
  simp only [List.mem_append, List.mem_cons] at hc hnumber
  grind

theorem Hyphenated.byteCount (h : Hyphenated id cs) : Text.byteCount cs = 36 := by
  rw [Text.byteCount_of_ascii h.utf8Size]
  obtain ⟨-, -, -, -, hdigits⟩ := h
  have hlen := hdigits.length
  simp only [List.length_append, List.length_cons] at hlen ⊢
  omega

theorem Hyphenated.byteCount_braced (h : Hyphenated id cs) :
    Text.byteCount ('\x7b' :: cs ++ ['\x7d']) = 38 := by
  have hopen : '\x7b'.utf8Size = 1 := by decide
  have hclose : '\x7d'.utf8Size = 1 := by decide
  rw [Text.byteCount_append, Text.byteCount, Text.byteCount, Text.byteCount, hopen, hclose,
    h.byteCount]

theorem utf8Size_of_toLower {c d : Char} (h : c.toLower = d) (hd : d.utf8Size = 1) :
    c.utf8Size = 1 := by
  unfold Char.toLower at h
  split at h
  · next hupper =>
    unfold Char.utf8Size
    exact if_pos (UInt32.le_trans hupper.2 (by decide))
  · rwa [h]

section Named

variable {front t : List Char} (hfront : front.map Char.toLower = "urn:uuid:".toList)

include hfront

theorem length_of_named : front.length = 9 := by
  simpa using congrArg List.length hfront

theorem isUrn_append : isUrn (front ++ t) := by
  have hlen := length_of_named hfront
  rw [isUrn, List.take_append_of_le_length (by omega), List.take_of_length_le (by omega), hfront]
  rfl

theorem Hyphenated.byteCount_named (h : Hyphenated id t) : Text.byteCount (front ++ t) = 45 := by
  have hascii : ∀ c ∈ front, c.utf8Size = 1 := by
    have all : "urn:uuid:".toList.all (·.utf8Size = 1) := by decide
    rw [← hfront] at all
    intro c hc
    have hlower := List.all_eq_true.1 all _ (List.mem_map_of_mem hc)
    exact utf8Size_of_toLower rfl (of_decide_eq_true hlower)
  rw [Text.byteCount_append, Text.byteCount_of_ascii hascii, length_of_named hfront, h.byteCount]

end Named

/-! ## Each length has its form -/

theorem spelling_of_ofList (h : ofList cs = .ok id) : Spelling id cs := by
  unfold ofList at h
  split at h
  · exact .plain (ofPlain?_eq_some.1 (orDiagnose_eq_ok.1 h))
  · exact .hyphenated (ofHyphenated?_eq_some.1 (orDiagnose_eq_ok.1 h))
  · split at h
    · next hbraces =>
      obtain ⟨hhead, hlast⟩ := hbraces
      have hinner := ofHyphenated?_eq_some.1 (orDiagnose_eq_ok.1 h)
      cases cs with
      | nil => cases hhead
      | cons c cs =>
        cases hhead
        cases cs using List.reverseRecOn with
        | nil => cases hlast
        | append_singleton cs d =>
          rw [← List.cons_append, List.getLast?_concat] at hlast
          cases hlast
          rw [List.drop_one, List.tail_cons, List.dropLast_concat] at hinner
          exact .braced hinner
    · cases h
  · split at h
    · next hurn =>
      have hgroups := ofHyphenated?_eq_some.1 (orDiagnose_eq_ok.1 h)
      rw [← List.take_append_drop 9 cs]
      exact .named (of_decide_eq_true hurn) hgroups
    · cases h
  · cases h

theorem Spelling.ofList_eq_ok (h : Spelling id cs) : ofList cs = .ok id := by
  unfold ofList
  cases h with
  | plain hdigits =>
    rw [hdigits.byteCount]
    exact orDiagnose_eq_ok.2 (ofPlain?_eq_some.2 hdigits)
  | hyphenated hgroups =>
    rw [hgroups.byteCount]
    exact orDiagnose_eq_ok.2 (ofHyphenated?_eq_some.2 hgroups)
  | @braced t hgroups =>
    have hinner : (('\x7b' :: t ++ ['\x7d']).drop 1).dropLast = t := by simp
    rw [hgroups.byteCount_braced]
    dsimp only
    rw [if_pos ⟨rfl, List.getLast?_concat⟩, hinner]
    exact orDiagnose_eq_ok.2 (ofHyphenated?_eq_some.2 hgroups)
  | @named front t hfront hgroups =>
    have hrest : (front ++ t).drop 9 = t := by rw [← length_of_named hfront, List.drop_left]
    rw [hgroups.byteCount_named hfront]
    dsimp only
    rw [if_pos (isUrn_append hfront), hrest]
    exact orDiagnose_eq_ok.2 (ofHyphenated?_eq_some.2 hgroups)

/-- A text is read as an identity if and only if it is one of its spellings. -/
theorem ofString_eq_ok {text : String} : ofString text = .ok id ↔ Spelling id text.toList :=
  ⟨spelling_of_ofList, Spelling.ofList_eq_ok⟩

/-! ## The text that is shown -/

theorem length_digits (id : Identity) : id.digits.length = 32 := Text.length_hexDigits ..

theorem digits_digits (id : Identity) : Digits id id.digits where
  length := id.length_digits
  number := Text.hexNumeral_hexDigits id.bits.isLt

theorem groups_hyphenate {ds : List Char} (h : ds.length = 32) : ∃ a b c d e, a.length = 8 ∧
    b.length = 4 ∧ c.length = 4 ∧ d.length = 4 ∧ ds = a ++ b ++ c ++ d ++ e ∧
    hyphenate ds = a ++ '-' :: b ++ '-' :: c ++ '-' :: d ++ '-' :: e := by
  refine ⟨ds.take 8, (ds.drop 8).take 4, (ds.drop 12).take 4, (ds.drop 16).take 4, ds.drop 20,
    ?_, ?_, ?_, ?_, ?_, rfl⟩
  · simp [h]
  · simp [h]
  · simp [h]
  · simp [h]
  · simp only [List.append_assoc]
    rw [← List.drop_drop (i := 4) (j := 16), List.take_append_drop,
      ← List.drop_drop (i := 4) (j := 12), List.take_append_drop,
      ← List.drop_drop (i := 4) (j := 8), List.take_append_drop, List.take_append_drop]

theorem toList_text (id : Identity) : id.text.toList = hyphenate id.digits := String.toList_ofList

theorem hyphenated_text (id : Identity) : Hyphenated id id.text.toList := by
  obtain ⟨a, b, c, d, e, ha, hb, hc, hd, hds, hhyphen⟩ := groups_hyphenate id.length_digits
  rw [toList_text, hhyphen]
  refine .groups ha hb hc hd ?_
  rw [← hds]
  exact id.digits_digits

theorem ofString_text (id : Identity) : ofString id.text = .ok id :=
  ofString_eq_ok.2 (.hyphenated id.hyphenated_text)

theorem mem_hyphenate {ds : List Char} {c : Char} (h : c ∈ hyphenate ds) : c = '-' ∨ c ∈ ds := by
  simp only [hyphenate, List.mem_append, List.mem_cons] at h
  rcases h with (((h | rfl | h) | rfl | h) | rfl | h) | rfl | h
  · exact Or.inr (List.mem_of_mem_take h)
  · exact Or.inl rfl
  · exact Or.inr (List.mem_of_mem_drop (List.mem_of_mem_take h))
  · exact Or.inl rfl
  · exact Or.inr (List.mem_of_mem_drop (List.mem_of_mem_take h))
  · exact Or.inl rfl
  · exact Or.inr (List.mem_of_mem_drop (List.mem_of_mem_take h))
  · exact Or.inl rfl
  · exact Or.inr (List.mem_of_mem_drop h)

/-- No letter of the text is a capital. -/
theorem toLower_of_mem_text {c : Char} (h : c ∈ id.text.toList) : c.toLower = c := by
  rw [toList_text] at h
  rcases mem_hyphenate h with rfl | h
  · decide
  · exact Text.toLower_of_mem_hexDigits h

/-! ## Order -/

theorem compare_eq (a b : Identity) : compare a b = compare a.bits.toNat b.bits.toNat := by
  change compareOfLessAndEq a.bits b.bits = compareOfLessAndEq a.bits.toNat b.bits.toNat
  simp only [compareOfLessAndEq, BitVec.lt_def, BitVec.toNat_inj]

/-- The dashes stand at the same places in all texts, so only the digits count. -/
theorem compare_hyphenate {β : Type} [Ord β] [Std.ReflOrd β] (f : Char → β) {ds es : List Char}
    (hds : ds.length = 32) (hes : es.length = 32) :
    compare ((hyphenate ds).map f) ((hyphenate es).map f) = compare (ds.map f) (es.map f) := by
  have dash : ∀ {xs ys us vs : List β}, xs.length = ys.length →
      compare (xs ++ f '-' :: us) (ys ++ f '-' :: vs) = (compare xs ys).then (compare us vs) := by
    intro xs ys us vs h
    rw [compare_append_cons h, compare_append h]
  obtain ⟨a, b, c, d, e, ha, hb, hc, hd, rfl, hhyphen⟩ := groups_hyphenate hds
  obtain ⟨a', b', c', d', e', ha', hb', hc', hd', rfl, hhyphen'⟩ := groups_hyphenate hes
  rw [hhyphen, hhyphen']
  simp only [List.map_append, List.map_cons]
  rw [dash (by simp [*]), dash (by simp [*]), dash (by simp [*]), dash (by simp [*]),
    compare_append (by simp [*]), compare_append (by simp [*]), compare_append (by simp [*]),
    compare_append (by simp [*])]

theorem compare_text (a b : Identity) :
    compare a b = compare (Text.bytes a.text) (Text.bytes b.text) := by
  have hbytes : ∀ id : Identity,
      Text.bytes id.text = (hyphenate id.digits).map fun c => c.val.toUInt8 := by
    intro id
    refine Text.bytes_ofList fun c hc => ?_
    rw [← toList_text] at hc
    exact id.hyphenated_text.utf8Size c hc
  rw [hbytes, hbytes, compare_hyphenate _ a.length_digits b.length_digits, digits, digits,
    Text.compare_hexDigits a.bits.isLt b.bits.isLt, compare_eq]

/-- A text is an identity in four forms, in any letter case, and it is the one whose number its 32
digits spell; any other text is refused. Shown in small letters and in groups, an identity is read
back, and what is shown sorts, byte by byte, as the identities do. -/
theorem spellings :
    (∀ (text : String) (id : Identity), ofString text = .ok id ↔ Spelling id text.toList) ∧
    (∀ text : String, (∃ fault, ofString text = .error fault) ↔
      ∀ id, ¬ Spelling id text.toList) ∧
    (∀ id : Identity, Hyphenated id id.text.toList ∧ (∀ c ∈ id.text.toList, c.toLower = c) ∧
      ofString id.text = .ok id) ∧
    ∀ a b : Identity, compare a b = compare (Text.bytes a.text) (Text.bytes b.text) := by
  refine ⟨fun _ _ => ofString_eq_ok, fun text => ?_, fun id => ?_, compare_text⟩
  · constructor
    · rintro ⟨fault, hfault⟩ id hid
      rw [ofString_eq_ok.2 hid] at hfault
      cases hfault
    · intro hnone
      cases hread : ofString text with
      | ok id => exact absurd (ofString_eq_ok.1 hread) (hnone id)
      | error fault => exact ⟨fault, rfl⟩
  · exact ⟨id.hyphenated_text, fun _ => toLower_of_mem_text, id.ofString_text⟩

end Identity

end Depot
