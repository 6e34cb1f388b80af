import Depot.Json.Token
import Depot.Proofs.Json.Grammar

/-! The tokens of strings, numbers and words. Each text of one is a token by itself, whatever
follows, except that a number must not go on. -/

namespace Depot.Json

theorem tokens_cons {c : Char} (h : isBlank c = false) (cs : List Char) :
    tokens (c :: cs) = (token c cs).1 :: tokens (token c cs).2 := by
  rw [tokens, if_neg (by simp [h])]

/-- A text that does not go on with a number. -/
def Apart (rest : List Char) : Prop :=
  ∀ c cs, rest = c :: cs → Text.isDecimal c = false ∧ c ≠ '.' ∧ c ≠ 'e' ∧ c ≠ 'E'

theorem apart_nil : Apart [] := by
  intro c cs h
  cases h

theorem apart_cons {c : Char} (rest : List Char)
    (h : Text.isDecimal c = false ∧ c ≠ '.' ∧ c ≠ 'e' ∧ c ≠ 'E') : Apart (c :: rest) := by
  intro c' cs he
  cases he
  exact h

/-- The text is this token. -/
def Lexes (cs : List Char) (t : Token) : Prop :=
  ∀ rest, Apart rest → tokens (cs ++ rest) = t :: tokens rest

theorem Lexes.unique {cs : List Char} {t t' : Token} (h : Lexes cs t) (h' : Lexes cs t') :
    t = t' := by
  have htokens := h [] apart_nil
  rw [h' [] apart_nil] at htokens
  exact (List.cons.inj htokens).1.symm

/-! ## Characters of strings -/

theorem hexUnit_digits {ds : List Char} {n : Nat} (hlen : ds.length = 4)
    (hds : Text.HexNumeral ds n) (rest : List Char) : hexUnit (ds ++ rest) = .ok (n, rest) := by
  have hbytes : Text.byteCount ((ds ++ rest).take 4) = 4 := by
    rw [List.take_append_of_le_length (by omega), List.take_of_length_le (by omega),
      Text.byteCount_of_ascii hds.utf8Size, hlen]
  have hnum := Text.hexNumber?_eq_some.2 hds
  unfold hexUnit
  rw [hbytes]
  match ds, hlen with
  | [a, b, c, d], _ => simp [hnum]

theorem isLow_eq_true {n : Nat} : isLow n = true ↔ LowHalf n := by
  simp only [isLow, LowHalf, Bool.and_eq_true, decide_eq_true_eq]
  omega

theorem isHigh_eq_true {n : Nat} : isHigh n = true ↔ HighHalf n := by
  simp only [isHigh, HighHalf, Bool.and_eq_true, decide_eq_true_eq]
  omega

section

variable {c : Char} {cs rest : List Char} {b : Break}

theorem stringToken_char (h : escape cs = (.char c, rest)) (done : List Char)
    (flaw : Option Break) :
    stringToken done flaw ('\\' :: cs) = stringToken (c :: done) flaw rest := by
  rw [stringToken.eq_def]
  dsimp only
  rw [if_neg (by decide), if_pos rfl]
  split <;> simp_all

theorem stringToken_half (h : escape cs = (.half b, rest)) (done : List Char)
    (flaw : Option Break) :
    stringToken done flaw ('\\' :: cs) = stringToken done (flaw.or (some b)) rest := by
  rw [stringToken.eq_def]
  dsimp only
  rw [if_neg (by decide), if_pos rfl]
  split <;> simp_all

end

/-- What the escape of a unit yields, by the kind of the unit. -/
theorem escape_unit {n : Nat} {t : List Char} (h : UnitText n t) (rest : List Char) :
    ∃ cs, t ++ rest = '\\' :: cs ∧ escape cs =
      if isLow n then (.half .malformed, rest)
      else if isHigh n then secondHalf n rest
      else (.char (Char.ofNat n), rest) := by
  obtain ⟨hlen, hds⟩ := h
  refine ⟨_, rfl, ?_⟩
  change unicodeEscape (_ ++ rest) = _
  rw [unicodeEscape, hexUnit_digits hlen hds]

theorem secondHalf_low {high low : Nat} {u : List Char} (hu : UnitText low u) (hlow : LowHalf low)
    (rest : List Char) : secondHalf high (u ++ rest) =
      (.char (Char.ofNat (0x10000 + (high - 0xd800) * 0x400 + (low - 0xdc00))), rest) := by
  obtain ⟨hlen, hds⟩ := hu
  rw [List.cons_append, List.cons_append, secondHalf, hexUnit_digits hlen hds]
  dsimp only
  rw [if_pos (isLow_eq_true.2 hlow)]

theorem escape_letter {c x : Char} (h : (c, x) ∈ letterEscapes) (rest : List Char) :
    escape (x :: rest) = (.char c, rest) := by
  simp only [letterEscapes, List.mem_cons, Prod.mk.injEq, List.not_mem_nil, or_false] at h
  rcases h with h | h | h | h | h | h | h | h <;> obtain ⟨rfl, rfl⟩ := h <;> rfl

theorem stringToken_bare {c : Char} (h : Bare c) (done : List Char) (flaw : Option Break)
    (rest : List Char) :
    stringToken done flaw (c :: rest) = stringToken (c :: done) flaw rest := by
  rw [stringToken.eq_def]
  dsimp only
  rw [if_neg h.noQuote, if_neg h.noBackslash, if_neg (Char.not_lt.2 h.noControl)]

/-- Whatever stands for a character in a string, it is that character that is read. -/
theorem CharText.stringToken {c : Char} {t : List Char} (h : CharText c t) (done : List Char)
    (flaw : Option Break) (rest : List Char) :
    stringToken done flaw (t ++ rest) = stringToken (c :: done) flaw rest := by
  cases h with
  | bare hc => exact stringToken_bare hc done flaw rest
  | letter hx => exact stringToken_char (escape_letter hx rest) done flaw
  | unit ht =>
    obtain ⟨cs, htext, hescape⟩ := escape_unit ht rest
    have hvalid : c.toNat < 0xd800 ∨ 0xdfff < c.toNat ∧ c.toNat < 0x110000 := c.valid
    rw [if_neg (by rw [isLow_eq_true, LowHalf]; omega),
      if_neg (by rw [isHigh_eq_true, HighHalf]; omega), Char.ofNat_toNat] at hescape
    rw [htext, stringToken_char hescape]
  | @pair high low t u ht hu hhigh hlow hc =>
    obtain ⟨cs, htext, hescape⟩ := escape_unit ht (u ++ rest)
    have hboth : ¬ LowHalf high := by
      simp only [LowHalf, HighHalf] at *
      omega
    rw [if_neg (by rwa [isLow_eq_true]), if_pos (isHigh_eq_true.2 hhigh), secondHalf_low hu hlow,
      ← hc, Char.ofNat_toNat] at hescape
    rw [List.append_assoc, htext, stringToken_char hescape]

theorem Spelled.stringToken {cs t : List Char} (h : Spelled cs t) (done : List Char)
    (flaw : Option Break) (rest : List Char) :
    stringToken done flaw (t ++ rest) = stringToken (cs.reverse ++ done) flaw rest := by
  induction h generalizing done with
  | nil => rfl
  | cons hc _ ih => rw [List.append_assoc, hc.stringToken, ih, List.reverse_cons,
      List.append_assoc, List.singleton_append]

/-! ## Strings -/

/-- The text of a string is one token, which the characters behind the opening quote decide. -/
theorem lexes_quote {cs : List Char} {key : Except Flaw String}
    (h : ∀ rest, stringToken [] none (cs ++ '\x22' :: rest) = (key, rest)) :
    Lexes ('\x22' :: cs ++ ['\x22']) (.text key) := by
  intro rest _
  have htoken : token '\x22' (cs ++ '\x22' :: rest) = (.text key, rest) := by
    simp [token, h]
  rw [List.cons_append, List.cons_append, List.append_assoc, List.singleton_append,
    tokens_cons rfl, htoken]

theorem StringText.lexes {s : String} {cs : List Char} (h : StringText s cs) :
    Lexes cs (.text (.ok s)) := by
  obtain ⟨hspelled⟩ := h
  refine lexes_quote fun rest => ?_
  rw [hspelled.stringToken, stringToken, if_pos rfl]
  simp

theorem StringText.unique {s s' : String} {cs : List Char} (h : StringText s cs)
    (h' : StringText s' cs) : s = s' := by
  cases h.lexes.unique h'.lexes
  rfl

/-- What comes of a string that goes on with `cs`: characters that are spelled, or a flaw that is
no obstacle to passing over it. -/
inductive Yields (done : List Char) (flaw : Option Break) (cs : List Char) :
    Except Flaw String → Prop where
  | text {ds : List Char} : flaw = none → Spelled ds cs →
      Yields done flaw cs (.ok (String.ofList (done.reverse ++ ds)))
  | flawed (b : Break) : Yields done flaw cs (.error ⟨b, none⟩)

section

variable {done cs ts t : List Char} {flaw : Option Break} {key : Except Flaw String}

theorem Yields.cons {c : Char} (h : Yields (c :: done) flaw ts key) (hc : CharText c t) :
    Yields done flaw (t ++ ts) key := by
  cases h with
  | text hflaw hspelled =>
    rw [List.reverse_cons, List.append_assoc, List.singleton_append]
    exact .text hflaw (.cons hc hspelled)
  | flawed b => exact .flawed b

theorem Yields.of_half {b : Break} (h : Yields done (flaw.or (some b)) ts key) :
    Yields done flaw cs key := by
  cases h with
  | text hflaw => cases flaw <;> cases hflaw
  | flawed b => exact .flawed b

end

theorem toNat_ofNat {n : Nat} (h : n.isValidChar) : (Char.ofNat n).toNat = n := by
  unfold Char.ofNat
  rw [dif_pos h]
  rfl

theorem charText_ofNat {n : Nat} {t : List Char} (ht : UnitText n t) (hlow : ¬ LowHalf n)
    (hhigh : ¬ HighHalf n) : CharText (Char.ofNat n) t := by
  have hn : n < 16 ^ 4 := by
    obtain ⟨hlen, hds⟩ := ht
    simpa only [hlen] using hds.lt
  have hvalid : n.isValidChar := by
    simp only [LowHalf, HighHalf] at hlow hhigh
    unfold Nat.isValidChar
    omega
  refine .unit ?_
  rwa [toNat_ofNat hvalid]

theorem charText_pair {high low : Nat} {t u : List Char} (ht : UnitText high t)
    (hu : UnitText low u) (hhigh : HighHalf high) (hlow : LowHalf low) :
    CharText (Char.ofNat (0x10000 + (high - 0xd800) * 0x400 + (low - 0xdc00))) (t ++ u) := by
  refine .pair ht hu hhigh hlow ?_
  have hvalid : (0x10000 + (high - 0xd800) * 0x400 + (low - 0xdc00)).isValidChar := by
    simp only [LowHalf, HighHalf] at hlow hhigh
    unfold Nat.isValidChar
    omega
  rw [toNat_ofNat hvalid]

/-- A first half stays alone unless the next piece is a second half. -/
theorem secondHalf_alone {cs : List Char} (h : Pieces cs)
    (halone : ∀ low u us, cs = u ++ us → Pieces us → UnitText low u → ¬ LowHalf low) (high : Nat)
    (rest : List Char) :
    secondHalf high (cs ++ '\x22' :: rest) = (.half .malformed, cs ++ '\x22' :: rest) := by
  cases h with
  | nil => rfl
  | cons ht hts =>
    cases ht with
    | bare hc =>
      rw [List.singleton_append, List.cons_append]
      unfold secondHalf
      split <;> simp_all [hc.noBackslash]
    | letter hx =>
      simp only [letterEscapes, List.mem_cons, Prod.mk.injEq, List.not_mem_nil, or_false] at hx
      rcases hx with h | h | h | h | h | h | h | h <;> obtain ⟨rfl, rfl⟩ := h <;> rfl
    | @unit n _ hu =>
      have hn := halone n _ _ rfl hts hu
      obtain ⟨hlen, hds⟩ := hu
      rw [List.append_assoc, List.cons_append, List.cons_append, secondHalf,
        hexUnit_digits hlen hds]
      dsimp only
      rw [if_neg (by rwa [isLow_eq_true])]

section

variable {n : Nat} {t : List Char}

theorem UnitText.stringToken_low (ht : UnitText n t) (hlow : LowHalf n) (done : List Char)
    (flaw : Option Break) (rest : List Char) : stringToken done flaw (t ++ rest) =
      stringToken done (flaw.or (some .malformed)) rest := by
  obtain ⟨cs, htext, hescape⟩ := escape_unit ht rest
  rw [if_pos (isLow_eq_true.2 hlow)] at hescape
  rw [htext, stringToken_half hescape]

theorem UnitText.stringToken_high (ht : UnitText n t) (hhigh : HighHalf n) {rest : List Char}
    (hrest : secondHalf n rest = (.half .malformed, rest)) (done : List Char)
    (flaw : Option Break) : stringToken done flaw (t ++ rest) =
      stringToken done (flaw.or (some .malformed)) rest := by
  obtain ⟨cs, htext, hescape⟩ := escape_unit ht rest
  have hlow : ¬ LowHalf n := by
    simp only [LowHalf, HighHalf] at *
    omega
  rw [if_neg (by rwa [isLow_eq_true]), if_pos (isHigh_eq_true.2 hhigh), hrest] at hescape
  rw [htext, stringToken_half hescape]

end

theorem Piece.length_pos {t : List Char} (h : Piece t) : 0 < t.length := by
  cases h with
  | bare => exact Nat.one_pos
  | letter => exact Nat.two_pos
  | unit ht =>
    obtain ⟨-, -⟩ := ht
    exact Nat.succ_pos _

/-- Every string comes to its end. The induction is on the length, for a surrogate pair takes two
pieces at once. -/
theorem Pieces.ends {cs : List Char} (h : Pieces cs) (done : List Char) (flaw : Option Break) :
    ∃ key, (∀ rest, stringToken done flaw (cs ++ '\x22' :: rest) = (key, rest)) ∧
      Yields done flaw cs key := by
  induction hn : cs.length using Nat.strongRecOn generalizing cs done flaw with
  | ind n ih =>
    cases h with
    | nil =>
      cases flaw with
      | none =>
        refine ⟨_, fun rest => ?_, .text rfl .nil⟩
        rw [List.nil_append, List.append_nil, Json.stringToken, if_pos rfl]
      | some b =>
        refine ⟨_, fun rest => ?_, .flawed b⟩
        rw [List.nil_append, Json.stringToken, if_pos rfl]
    | @cons t ts ht hts =>
      have hlen : ts.length < n := by
        have hpos := ht.length_pos
        rw [List.length_append] at hn
        omega
      have onChar : ∀ {c : Char} {t ts : List Char}, CharText c t → Pieces ts → ts.length < n →
          ∃ key, (∀ rest, Json.stringToken done flaw (t ++ ts ++ '\x22' :: rest) = (key, rest)) ∧
            Yields done flaw (t ++ ts) key := by
        intro c t ts hc hts hlen
        obtain ⟨key, hkey, hyields⟩ := ih _ hlen hts (c :: done) flaw rfl
        refine ⟨key, fun rest => ?_, hyields.cons hc⟩
        rw [List.append_assoc, hc.stringToken, hkey]
      have onHalf : (∀ rest, Json.stringToken done flaw (t ++ (ts ++ '\x22' :: rest)) =
            Json.stringToken done (flaw.or (some .malformed)) (ts ++ '\x22' :: rest)) →
          ∃ key, (∀ rest, Json.stringToken done flaw (t ++ ts ++ '\x22' :: rest) = (key, rest)) ∧
            Yields done flaw (t ++ ts) key := by
        intro hstep
        obtain ⟨key, hkey, hyields⟩ := ih _ hlen hts done (flaw.or (some .malformed)) rfl
        refine ⟨key, fun rest => ?_, hyields.of_half⟩
        rw [List.append_assoc, hstep, hkey]
      cases ht with
      | bare hc => exact onChar (.bare hc) hts hlen
      | letter hx => exact onChar (.letter hx) hts hlen
      | @unit m t ht =>
        by_cases hlow : LowHalf m
        · exact onHalf fun rest => ht.stringToken_low hlow done flaw _
        by_cases hhigh : HighHalf m
        · by_cases hpair : ∃ low u us, ts = u ++ us ∧ Pieces us ∧ UnitText low u ∧ LowHalf low
          · obtain ⟨low, u, us, rfl, hus, hu, hsecond⟩ := hpair
            rw [← List.append_assoc]
            refine onChar (charText_pair ht hu hhigh hsecond) hus ?_
            rw [List.length_append] at hlen
            omega
          · have halone : ∀ low u us, ts = u ++ us → Pieces us → UnitText low u →
                ¬ LowHalf low := fun low u us hts hus hu hsecond =>
              hpair ⟨low, u, us, hts, hus, hu, hsecond⟩
            exact onHalf fun rest =>
              ht.stringToken_high hhigh (secondHalf_alone hts halone m rest) done flaw
        · exact onChar (charText_ofNat ht hlow hhigh) hts hlen

/-- Any string is a token. If it is no text of characters it is flawed, but its end is known. -/
theorem Quoted.lexes {cs : List Char} (h : Quoted cs) : ∃ key, Lexes cs (.text key) ∧
    (∀ s, key = .ok s → StringText s cs) ∧ ∀ flaw, key = .error flaw → flaw.skip = none := by
  obtain ⟨hpieces⟩ := h
  obtain ⟨key, hkey, hyields⟩ := hpieces.ends [] none
  refine ⟨key, lexes_quote hkey, ?_⟩
  cases hyields with
  | @text ds _ hspelled =>
    refine ⟨fun s hs => ?_, nofun⟩
    cases hs
    refine .quoted ?_
    rwa [List.reverse_nil, List.nil_append, String.toList_ofList]
  | flawed b =>
    refine ⟨nofun, fun flaw hflaw => ?_⟩
    cases hflaw
    rfl

/-! ## Numbers -/

theorem digitRun_digits {ds rest : List Char} (h : Digits ds)
    (hrest : ∀ c cs, rest = c :: cs → Text.isDecimal c = false) :
    digitRun (ds ++ rest) = .ok (ds, rest) := by
  have htake : rest.takeWhile Text.isDecimal = [] := by
    cases rest with
    | nil => rfl
    | cons c cs => rw [List.takeWhile_cons, hrest c cs rfl]; rfl
  have hdrop : rest.dropWhile Text.isDecimal = rest := by
    cases rest with
    | nil => rfl
    | cons c cs => rw [List.dropWhile_cons, hrest c cs rfl]; rfl
  unfold digitRun
  rw [List.takeWhile_append_of_pos h.decimal, List.dropWhile_append_of_pos h.decimal, htake, hdrop,
    List.append_nil]
  simp [h.nonempty]

theorem Digits.cons {ds : List Char} (h : Digits ds) :
    ∃ c cs, ds = c :: cs ∧ Text.isDecimal c := by
  cases ds with
  | nil => exact absurd rfl h.nonempty
  | cons c cs => exact ⟨c, cs, rfl, h.decimal c (List.mem_cons_self ..)⟩

theorem ne_of_isDecimal {c d : Char} (h : Text.isDecimal c) (hd : Text.isDecimal d = false) :
    c ≠ d := by
  rintro rfl
  simp [h] at hd

theorem wholePart_digits {ds rest : List Char} (h : WholeText ds)
    (hrest : ∀ c cs, rest = c :: cs → Text.isDecimal c = false) :
    wholePart (ds ++ rest) = .ok (ds, rest) := by
  unfold wholePart
  rw [digitRun_digits h.digits hrest]
  simp only [bind, Except.bind]
  split
  · next c cs _ => cases h.noLeadingZero _ rfl
  · rfl

theorem fractionPart_none {rest : List Char} (h : ∀ c cs, rest = c :: cs → c ≠ '.') :
    fractionPart rest = .ok ([], rest) := by
  unfold fractionPart
  split
  · next cs => exact absurd rfl (h '.' cs rfl)
  · rfl

theorem fractionPart_text {t : List Char} (h : FractionText t) : ∃ ds, ∀ rest,
    (∀ c cs, rest = c :: cs → Text.isDecimal c = false ∧ c ≠ '.') →
      fractionPart (t ++ rest) = .ok (ds, rest) := by
  cases h with
  | none =>
    exact ⟨[], fun rest hrest => fractionPart_none fun c cs hcs => (hrest c cs hcs).2⟩
  | @point ds hds =>
    refine ⟨ds, fun rest hrest => ?_⟩
    exact digitRun_digits hds fun c cs hcs => (hrest c cs hcs).1

theorem exponentPart_apart {rest : List Char} (hrest : Apart rest) :
    exponentPart rest = .ok (([], 0), rest) := by
  unfold exponentPart
  split
  · next c cs =>
    obtain ⟨-, -, he, hE⟩ := hrest c cs rfl
    rw [if_neg (by simp [he, hE])]
  · rfl

theorem exponentPart_text {t : List Char} (h : ExponentText t) : ∃ e, ∀ rest, Apart rest →
    exponentPart (t ++ rest) = .ok (e, rest) := by
  cases h with
  | none => exact ⟨([], 0), fun _ => exponentPart_apart⟩
  | @power e sign ds he hsign hds =>
    have hletter : e = 'e' ∨ e = 'E' := by simpa using he
    have hrun : ∀ rest, Apart rest → digitRun (ds ++ rest) = .ok (ds, rest) := fun rest hrest =>
      digitRun_digits hds fun c cs hcs => (hrest c cs hcs).1
    simp only [List.mem_cons, List.not_mem_nil, or_false] at hsign
    rcases hsign with rfl | rfl | rfl
    · refine ⟨(e :: ds, Text.decimalNumber ds), fun rest hrest => ?_⟩
      obtain ⟨c, cs, rfl, hc⟩ := hds.cons
      have hplus := ne_of_isDecimal (d := '+') hc rfl
      have hminus := ne_of_isDecimal (d := '-') hc rfl
      have hdigits := hrun rest hrest
      rw [List.cons_append] at hdigits
      simp [exponentPart, hletter, hplus, hminus, hdigits, bind, Except.bind]
    · refine ⟨(e :: '+' :: ds, Text.decimalNumber ds), fun rest hrest => ?_⟩
      simp [exponentPart, hletter, hrun rest hrest, bind, Except.bind]
    · refine ⟨(e :: '-' :: ds, -(Text.decimalNumber ds : Int)), fun rest hrest => ?_⟩
      simp [exponentPart, hletter, hrun rest hrest, bind, Except.bind]

theorem numberToken_parts {sign cs cs₁ cs₂ whole fraction exponent rest : List Char} {power : Int}
    (hwhole : wholePart cs = .ok (whole, cs₁)) (hfraction : fractionPart cs₁ = .ok (fraction, cs₂))
    (hexponent : exponentPart cs₂ = .ok ((exponent, power), rest)) :
    numberToken sign cs =
      (if overflows (whole ++ fraction) (power - fraction.length) then .flawed ⟨.malformed, none⟩
        else .number (String.ofList
          (sign ++ whole ++ (if fraction = [] then [] else '.' :: fraction) ++ exponent)),
        rest) := by
  unfold numberToken
  rw [hwhole]
  simp only [bind, Except.bind, hfraction, hexponent]
  split
  · rfl
  · rfl

theorem isBlank_digit {c : Char} (h : Text.isDecimal c) : isBlank c = false := by
  simp [isBlank, ne_of_isDecimal (d := ' ') h rfl, ne_of_isDecimal (d := '\n') h rfl,
    ne_of_isDecimal (d := '\t') h rfl, ne_of_isDecimal (d := '\r') h rfl]

/-- What a token may start with when it starts with a digit. -/
theorem token_digit {c : Char} (h : Text.isDecimal c) (cs : List Char) :
    token c cs = (numberToken [] (c :: cs)).map .plain id := by
  have hne : ∀ d : Char, Text.isDecimal d = false → c ≠ d := fun _ => ne_of_isDecimal h
  unfold token
  rw [if_neg (hne '[' rfl), if_neg (hne ']' rfl), if_neg (hne '\x7b' rfl),
    if_neg (hne '\x7d' rfl), if_neg (hne ',' rfl), if_neg (hne ':' rfl),
    if_neg (hne '\x22' rfl), if_neg (hne 'n' rfl), if_neg (hne 't' rfl), if_neg (hne 'f' rfl),
    if_neg (hne '-' rfl), if_pos h]

theorem lexes_digits {ds : List Char} {v : Json} (h : ∃ c cs, ds = c :: cs ∧ Text.isDecimal c)
    (hnumber : ∀ rest, Apart rest → numberToken [] (ds ++ rest) = (v, rest)) :
    Lexes ds (.plain v) := by
  obtain ⟨c, cs, rfl, hc⟩ := h
  intro rest hrest
  have hv := hnumber rest hrest
  rw [List.cons_append] at hv ⊢
  rw [tokens_cons (isBlank_digit hc), token_digit hc, hv]
  rfl

/-- Any number is read or, if it is too large, can be passed over. -/
theorem numberToken_text {whole fraction exponent : List Char} (hwhole : WholeText whole)
    (hfraction : FractionText fraction) (hexponent : ExponentText exponent) (sign : List Char) :
    ∃ v, v.skipBreak? = none ∧ ∀ rest, Apart rest →
      numberToken sign (whole ++ (fraction ++ exponent) ++ rest) = (v, rest) := by
  obtain ⟨ds, hds⟩ := fractionPart_text hfraction
  obtain ⟨⟨e, power⟩, he⟩ := exponentPart_text hexponent
  refine ⟨if overflows (whole ++ ds) (power - ds.length) then .flawed ⟨.malformed, none⟩
    else .number (String.ofList
      (sign ++ whole ++ (if ds = [] then [] else '.' :: ds) ++ e)), ?_, fun rest hrest => ?_⟩
  · split
    · rfl
    · rfl
  have hlast : ∀ c cs, exponent ++ rest = c :: cs → Text.isDecimal c = false ∧ c ≠ '.' := by
    intro c cs hcs
    cases hexponent with
    | none => exact ⟨(hrest c cs hcs).1, (hrest c cs hcs).2.1⟩
    | power hletter =>
      obtain ⟨rfl, -⟩ := List.cons.inj hcs
      simp only [List.mem_cons, List.not_mem_nil, or_false] at hletter
      rcases hletter with rfl | rfl
      · exact ⟨rfl, by decide⟩
      · exact ⟨rfl, by decide⟩
  have hfirst : ∀ c cs, fraction ++ (exponent ++ rest) = c :: cs → Text.isDecimal c = false := by
    intro c cs hcs
    cases hfraction with
    | none => exact (hlast c cs hcs).1
    | point =>
      obtain ⟨rfl, -⟩ := List.cons.inj hcs
      rfl
  rw [List.append_assoc, List.append_assoc]
  exact numberToken_parts (wholePart_digits hwhole hfirst) (hds _ hlast) (he _ hrest)

theorem NumberText.lexes {cs : List Char} (h : NumberText cs) :
    ∃ v, v.skipBreak? = none ∧ Lexes cs (.plain v) := by
  obtain @⟨sign, whole, fraction, exponent, hsign, hwhole, hfraction, hexponent⟩ := h
  obtain ⟨v, hskip, hnumber⟩ := numberToken_text hwhole hfraction hexponent sign
  refine ⟨v, hskip, ?_⟩
  simp only [List.mem_cons, List.not_mem_nil, or_false] at hsign
  rcases hsign with rfl | rfl
  · obtain ⟨c, cs, rfl, hc⟩ := hwhole.digits.cons
    exact lexes_digits ⟨c, _, rfl, hc⟩ hnumber
  · intro rest hrest
    have hminus : token '-' (whole ++ (fraction ++ exponent) ++ rest) = (.plain v, rest) := by
      simp only [token, Char.reduceEq, ↓reduceIte, hnumber rest hrest]
      rfl
    rw [List.singleton_append, List.cons_append, tokens_cons rfl, hminus]

theorem not_overflows {ds : List Char} (h : ds.length < 309) : overflows ds 0 = false := by
  have hle := (List.dropWhile_sublist (fun c => c = '0') (l := ds)).length_le
  unfold overflows
  simp only [Int.add_zero]
  rw [if_pos (Or.inr (by omega))]

theorem wholeText_toDigits (n : Nat) : WholeText (Nat.toDigits 10 n) where
  digits := ⟨Nat.toDigits_ne_nil, fun _ => Text.isDecimal_of_mem_toDigits⟩
  noLeadingZero _ h := Text.toDigits_head_zero h

theorem wellFormed_nat (n : Nat) : WellFormed (toString n).toList := by
  have hnumber := NumberText.parts (List.mem_cons_self ..) (wholeText_toDigits n) .none .none
  rw [List.append_nil, List.append_nil, List.nil_append] at hnumber
  rw [Nat.toString_eq_repr, Nat.toList_repr]
  exact .number hnumber

theorem lexes_nat {n : Nat} (hn : n < UInt64.size) :
    Lexes (toString n).toList (.plain (.nat n)) := by
  have hlen : (Nat.toDigits 10 n).length ≤ 20 := by
    rw [Nat.length_toDigits_le_iff (by decide) (by decide)]
    exact Nat.lt_of_lt_of_le hn (by decide)
  have hsmall : overflows (Nat.toDigits 10 n) 0 = false := not_overflows (by omega)
  have hwhole := wholeText_toDigits n
  have hnumber : ∀ rest, Apart rest →
      numberToken [] (Nat.toDigits 10 n ++ rest) = (.nat n, rest) := by
    intro rest hrest
    rw [numberToken_parts (wholePart_digits hwhole fun c cs hcs => (hrest c cs hcs).1)
      (fractionPart_none fun c cs hcs => (hrest c cs hcs).2.1) (exponentPart_apart hrest)]
    simp [hsmall, Json.nat, Nat.repr_eq_ofList_toDigits]
  rw [Nat.toString_eq_repr, Nat.toList_repr]
  exact lexes_digits hwhole.digits.cons hnumber

/-! ## Words -/

theorem lexes_null : Lexes "null".toList (.plain .null) := fun rest _ =>
  tokens_cons (c := 'n') rfl ('u' :: 'l' :: 'l' :: rest)

theorem lexes_bool (b : Bool) :
    Lexes (if b then "true" else "false").toList (.plain (.bool b)) := by
  intro rest _
  cases b with
  | true => exact tokens_cons (c := 't') rfl ('r' :: 'u' :: 'e' :: rest)
  | false => exact tokens_cons (c := 'f') rfl ('a' :: 'l' :: 's' :: 'e' :: rest)

end Depot.Json
