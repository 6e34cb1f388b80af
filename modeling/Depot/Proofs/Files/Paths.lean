import Depot.Files.Path
import Depot.Layout
import Depot.Proofs.Names

/-! The names a path goes through. Joining paths joins their names, and a path that is put together
from names goes through those. -/

namespace Depot

namespace Path

/-! ## Pieces -/

theorem pieces_ne_nil (cs : List Char) : pieces cs ≠ [] := by
  cases cs with
  | nil => simp [pieces]
  | cons c cs =>
    unfold pieces
    split
    · simp
    · split <;> simp

theorem pieces_append_slash (cs ds : List Char) :
    pieces (cs ++ '/' :: ds) = pieces cs ++ pieces ds := by
  induction cs with
  | nil => simp [pieces]
  | cons c cs ih =>
    rw [List.cons_append, pieces, pieces]
    by_cases hc : c = '/'
    · rw [if_pos hc, if_pos hc, ih]
      rfl
    · rw [if_neg hc, if_neg hc, ih]
      cases hp : pieces cs with
      | nil => exact absurd hp (pieces_ne_nil cs)
      | cons p ps => rfl

theorem pieces_of_noSlash {cs : List Char} (h : '/' ∉ cs) : pieces cs = [cs] := by
  induction cs with
  | nil => rfl
  | cons c cs ih =>
    rw [List.mem_cons, not_or] at h
    rw [pieces, if_neg (Ne.symm h.1), ih h.2]

theorem noSlash_of_mem_pieces {cs piece : List Char} (h : piece ∈ pieces cs) : '/' ∉ piece := by
  induction cs generalizing piece with
  | nil => simp_all [pieces]
  | cons c cs ih =>
    rw [pieces] at h
    split at h
    · rcases List.mem_cons.1 h with rfl | h
      · simp
      · exact ih h
    · next hc =>
      cases hp : pieces cs with
      | nil => exact absurd hp (pieces_ne_nil cs)
      | cons p ps =>
        rw [hp] at h ih
        rcases List.mem_cons.1 h with rfl | h
        · have hhead := ih (List.mem_cons_self ..)
          simp [Ne.symm hc, hhead]
        · exact ih (List.mem_cons_of_mem _ h)

/-- The names between the slashes of a text. -/
def namesIn (cs : List Char) : List String := ((pieces cs).filter (· ≠ [])).map String.ofList

theorem segments_eq (p : Path) : p.segments = namesIn p.text.toList := rfl

theorem name_of_mem_segments {p : Path} {name : String} (h : name ∈ p.segments) :
    name ≠ "" ∧ '/' ∉ name.toList := by
  obtain ⟨piece, hp, rfl⟩ := List.mem_map.1 h
  obtain ⟨hp, hne⟩ := List.mem_filter.1 hp
  rw [String.toList_ofList]
  exact ⟨by simpa using hne, noSlash_of_mem_pieces hp⟩

theorem namesIn_append_slash (cs ds : List Char) :
    namesIn (cs ++ '/' :: ds) = namesIn cs ++ namesIn ds := by
  rw [namesIn, pieces_append_slash, List.filter_append, List.map_append]
  rfl

theorem namesIn_name {name : String} (hne : name ≠ "") (hslash : '/' ∉ name.toList) :
    namesIn name.toList = [name] := by
  have hnil : name.toList ≠ [] := by simpa using hne
  rw [namesIn, pieces_of_noSlash hslash]
  simp [hnil]

/-! ## Joining -/

theorem endsWithSlash_iff {p : Path} :
    p.endsWithSlash = true ↔ ∃ cs, p.text.toList = cs ++ ['/'] := by
  rw [endsWithSlash, decide_eq_true_eq, List.getLast?_eq_some_iff]

/-- What stands between a path and one that is joined to it. -/
def gap (p : Path) : String := if p.text = "" ∨ p.endsWithSlash then "" else "/"

theorem join_eq {p q : Path} (hq : q.isAbsolute = false) :
    p.join q = ⟨p.text ++ p.gap ++ q.text⟩ := by
  rw [join, if_neg (by simp [hq]), gap]
  split <;> simp

theorem notMem_gap {c : Char} (hc : c ≠ '/') (p : Path) : c ∉ p.gap.toList := by
  unfold gap
  split <;> simp [hc]

theorem segments_join {p q : Path} (hq : q.isAbsolute = false) :
    (p.join q).segments = p.segments ++ q.segments := by
  rw [join_eq hq, gap]
  by_cases he : p.text = ""
  · have hempty : p.segments = [] := by rw [segments_eq, he]; rfl
    rw [if_pos (Or.inl he), hempty, he, List.nil_append, String.empty_append, String.empty_append]
  by_cases hs : p.endsWithSlash = true
  · obtain ⟨cs, hcs⟩ := endsWithSlash_iff.1 hs
    have hself : p.segments = namesIn cs := by
      rw [segments_eq, hcs, namesIn_append_slash]
      exact List.append_nil _
    rw [if_pos (Or.inr hs), hself, segments_eq, String.append_empty, String.toList_append, hcs,
      List.append_assoc, List.singleton_append, namesIn_append_slash]
    rfl
  · rw [if_neg (by simp [he, hs])]
    simp only [segments_eq, String.toList_append]
    rw [List.append_assoc]
    exact namesIn_append_slash _ _

theorem endsWithSlash_join {p q : Path} (hq : q.isAbsolute = false) (hne : q.text ≠ "") :
    (p.join q).endsWithSlash = q.endsWithSlash := by
  have hnil : q.text.toList ≠ [] := by simpa using hne
  rw [join_eq hq, endsWithSlash, endsWithSlash, String.toList_append, List.getLast?_append]
  cases hl : q.text.toList.getLast? with
  | none => exact absurd (List.getLast?_eq_none_iff.1 hl) hnil
  | some c => rfl

theorem mem_join {p q : Path} (hq : q.isAbsolute = false) {c : Char} (hc : c ≠ '/') :
    c ∈ (p.join q).text.toList ↔ c ∈ p.text.toList ∨ c ∈ q.text.toList := by
  have hgap := notMem_gap hc p
  rw [join_eq hq]
  simp [hgap]

/-! ## Ancestors -/

/-- The names among pieces. -/
def kept (ps : List (List Char)) : List String := (ps.filter (· ≠ [])).map String.ofList

theorem kept_append (ps qs : List (List Char)) : kept (ps ++ qs) = kept ps ++ kept qs := by
  rw [kept, List.filter_append, List.map_append]
  rfl

theorem namesIn_intercalate {ps : List (List Char)} (h : ∀ p ∈ ps, '/' ∉ p) :
    namesIn (List.intercalate ['/'] ps) = kept ps := by
  induction ps with
  | nil => rfl
  | cons p ps ih =>
    rw [List.forall_mem_cons] at h
    cases ps with
    | nil => rw [List.intercalate_singleton, namesIn, pieces_of_noSlash h.1, kept]
    | cons q ps =>
      rw [List.intercalate_cons_cons, List.append_assoc, List.singleton_append,
        namesIn_append_slash, ih h.2, namesIn, pieces_of_noSlash h.1]
      exact (kept_append [p] (q :: ps)).symm

theorem namesIn_slash (cs : List Char) : namesIn ('/' :: cs) = namesIn cs :=
  namesIn_append_slash [] cs

theorem segments_ofPieces {absolute : Bool} {reversed : List (List Char)}
    (h : ∀ p ∈ reversed, '/' ∉ p) :
    (ofPieces absolute reversed).segments = kept reversed.reverse := by
  have hbody : namesIn (List.intercalate ['/'] reversed.reverse) = kept reversed.reverse :=
    namesIn_intercalate fun p hp => h p (List.mem_reverse.1 hp)
  rw [segments_eq, ofPieces, String.toList_ofList]
  cases absolute with
  | false => exact hbody
  | true => exact (namesIn_slash _).trans hbody

theorem suffix_of_mem_tails {absolute : Bool} {ps t : List (List Char)}
    (h : t ∈ tails absolute ps) : t <:+ ps := by
  induction ps with
  | nil => simp_all [tails]
  | cons p ps ih =>
    rw [tails] at h
    split at h
    · exact (ih h).trans (List.suffix_cons ..)
    · rcases List.mem_cons.1 h with rfl | h
      · exact List.suffix_refl _
      · exact (ih h).trans (List.suffix_cons ..)

/-- Only the longest tail may have all the pieces that count. -/
theorem shorter_of_mem_tails {absolute : Bool} {ps t : List (List Char)}
    (h : t ∈ (tails absolute ps).drop 1) :
    ∃ piece before, piece ≠ [] ∧ piece :: before <:+ ps ∧ t <:+ before := by
  induction ps with
  | nil => simp [tails] at h
  | cons p ps ih =>
    rw [tails] at h
    split at h
    · obtain ⟨piece, before, hne, hps, ht⟩ := ih h
      exact ⟨piece, before, hne, hps.trans (List.suffix_cons ..), ht⟩
    · next hidle =>
      refine ⟨p, ps, ?_, List.suffix_refl _, suffix_of_mem_tails h⟩
      rintro rfl
      simp [isIdle] at hidle

/-- What comes after the separator that an absolute path begins with. -/
def body (p : Path) : List Char := if p.isAbsolute then p.text.toList.drop 1 else p.text.toList

theorem ancestors_eq (p : Path) : p.ancestors =
    ((tails p.isAbsolute (pieces p.body).reverse).drop 1).map (ofPieces p.isAbsolute) := rfl

theorem segments_body (p : Path) : p.segments = kept (pieces p.body) := by
  rw [body, segments_eq]
  split
  · next habs =>
    rw [isAbsolute, decide_eq_true_eq, List.head?_eq_some_iff] at habs
    obtain ⟨cs, hcs⟩ := habs
    rw [hcs]
    exact namesIn_slash cs
  · rfl

/-- A path goes on from the paths above it. -/
theorem segments_of_ancestor {p q : Path} (h : q ∈ p.ancestors) :
    ∃ more ≠ [], p.segments = q.segments ++ more := by
  rw [ancestors_eq] at h
  obtain ⟨t, ht, rfl⟩ := List.mem_map.1 h
  obtain ⟨piece, before, hne, ⟨rest, hps⟩, ⟨skipped, rfl⟩⟩ := shorter_of_mem_tails ht
  have hsplit : pieces p.body = t.reverse ++ (skipped.reverse ++ piece :: rest.reverse) := by
    rw [← List.reverse_inj, ← hps]
    simp
  have hslash : ∀ q ∈ t, '/' ∉ q := by
    intro q hq
    have hbody : q ∈ pieces p.body := by simp [hsplit, hq]
    exact noSlash_of_mem_pieces hbody
  refine ⟨kept (skipped.reverse ++ piece :: rest.reverse), ?_, ?_⟩
  · simp [kept, hne]
  · rw [segments_body, segments_ofPieces hslash, hsplit, kept_append]

/-! ## Plain names -/

/-- A name that stands for itself wherever a path goes through it. -/
structure IsPlain (name : String) : Prop where
  nonempty : name ≠ ""
  noSlash : '/' ∉ name.toList
  notDot : name ≠ "."
  notDots : name ≠ ".."

instance (name : String) : Decidable (IsPlain name) :=
  decidable_of_iff (name ≠ "" ∧ '/' ∉ name.toList ∧ name ≠ "." ∧ name ≠ "..")
    ⟨fun ⟨hne, hslash, hdot, hdots⟩ => ⟨hne, hslash, hdot, hdots⟩,
      fun h => ⟨h.nonempty, h.noSlash, h.notDot, h.notDots⟩⟩

theorem isPlain_of_head {name : String} {c : Char} (hc : name.toList.head? = some c)
    (hdot : c ≠ '.') (hslash : '/' ∉ name.toList) : IsPlain name where
  nonempty := by
    rintro rfl
    cases hc
  noSlash := hslash
  notDot := by
    rintro rfl
    cases hc
    exact hdot rfl
  notDots := by
    rintro rfl
    cases hc
    exact hdot rfl

theorem ofComponents_cons {name : String} {names : List String} (h : names ≠ []) :
    (ofComponents (name :: names)).text = name ++ "/" ++ (ofComponents names).text :=
  String.intercalate_cons_of_ne_nil h

theorem isAbsolute_name {name : String} (h : '/' ∉ name.toList) :
    (⟨name⟩ : Path).isAbsolute = false := by
  rw [isAbsolute, decide_eq_false_iff_not]
  intro hc
  exact h (List.mem_of_mem_head? hc)

theorem isAbsolute_ofComponents {names : List String} (h : ∀ name ∈ names, IsPlain name) :
    (ofComponents names).isAbsolute = false := by
  cases names with
  | nil => rfl
  | cons name names =>
    have hname := h name (List.mem_cons_self ..)
    cases names with
    | nil =>
      rw [ofComponents, String.intercalate_singleton]
      exact isAbsolute_name hname.noSlash
    | cons other names =>
      rw [isAbsolute, decide_eq_false_iff_not, ofComponents_cons (by simp)]
      intro hc
      rw [String.toList_append, String.toList_append, List.append_assoc, List.head?_append] at hc
      cases hh : name.toList.head? with
      | none => exact hname.nonempty (by simpa using hh)
      | some c =>
        rw [hh] at hc
        cases hc
        exact hname.noSlash (List.mem_of_mem_head? hh)

theorem segments_ofComponents {names : List String} (h : ∀ name ∈ names, IsPlain name) :
    (ofComponents names).segments = names := by
  induction names with
  | nil => rfl
  | cons name names ih =>
    have hname := h name (List.mem_cons_self ..)
    have hrest := ih fun n hn => h n (List.mem_cons_of_mem _ hn)
    have hself := namesIn_name hname.nonempty hname.noSlash
    by_cases hnil : names = []
    · subst hnil
      rw [segments_eq, ofComponents, String.intercalate_singleton, hself]
    · have hsplit : (ofComponents (name :: names)).text.toList =
          name.toList ++ '/' :: (ofComponents names).text.toList := by
        simp [ofComponents_cons hnil]
      rw [segments_eq, hsplit, namesIn_append_slash, hself, ← segments_eq, hrest]
      rfl

theorem ofComponents_ne_empty {names : List String} (h : ∀ name ∈ names, IsPlain name)
    (hne : names ≠ []) : (ofComponents names).text ≠ "" := by
  intro he
  have hsegs := segments_ofComponents h
  rw [segments_eq, he] at hsegs
  exact hne hsegs.symm

theorem endsWithSlash_ofComponents {names : List String} (h : ∀ name ∈ names, IsPlain name) :
    (ofComponents names).endsWithSlash = false := by
  induction names with
  | nil => rfl
  | cons name names ih =>
    have hname := h name (List.mem_cons_self ..)
    have hrest := ih fun n hn => h n (List.mem_cons_of_mem _ hn)
    by_cases hnil : names = []
    · subst hnil
      rw [endsWithSlash, decide_eq_false_iff_not, ofComponents, String.intercalate_singleton]
      intro hl
      exact hname.noSlash (List.mem_of_getLast? hl)
    · have htext := ofComponents_ne_empty (fun n hn => h n (List.mem_cons_of_mem _ hn)) hnil
      rw [endsWithSlash, decide_eq_false_iff_not] at hrest ⊢
      rw [ofComponents_cons hnil, String.toList_append, List.getLast?_append]
      cases hl : (ofComponents names).text.toList.getLast? with
      | none => exact absurd (List.getLast?_eq_none_iff.1 hl) (by simpa using htext)
      | some c =>
        intro hc
        rw [hl] at hrest
        exact hrest hc

theorem mem_ofComponents {names : List String} {c : Char} (hc : c ≠ '/')
    (h : c ∈ (ofComponents names).text.toList) : ∃ name ∈ names, c ∈ name.toList := by
  induction names with
  | nil => simp [ofComponents] at h
  | cons name names ih =>
    by_cases hnil : names = []
    · subst hnil
      rw [ofComponents, String.intercalate_singleton] at h
      exact ⟨name, List.mem_cons_self .., h⟩
    · rw [ofComponents_cons hnil] at h
      simp only [String.toList_append, List.mem_append] at h
      rcases h with (h | h) | h
      · exact ⟨name, List.mem_cons_self .., h⟩
      · exact absurd (by simpa using h) hc
      · obtain ⟨n, hn, hmem⟩ := ih h
        exact ⟨n, List.mem_cons_of_mem _ hn, hmem⟩

theorem join_ofComponents_ne_empty {p : Path} {names : List String}
    (h : ∀ name ∈ names, IsPlain name) (hne : names ≠ []) :
    (p.join (ofComponents names)).text ≠ "" := by
  intro he
  have hsegs := segments_join (p := p) (isAbsolute_ofComponents h)
  rw [segments_eq, he, segments_ofComponents h] at hsegs
  exact hne (List.append_eq_nil_iff.1 hsegs.symm).2

/-- One more name at the end. -/
theorem child_join_ofComponents {p : Path} {names : List String} {name : String}
    (h : ∀ n ∈ names, IsPlain n) (hne : names ≠ []) (hname : IsPlain name) :
    (p.join (ofComponents names)).child name = p.join (ofComponents (names ++ [name])) := by
  have habs := isAbsolute_ofComponents h
  have hall : ∀ n ∈ names ++ [name], IsPlain n := by
    intro n hn
    rcases List.mem_append.1 hn with hn | hn
    · exact h n hn
    · rw [List.mem_singleton.1 hn]
      exact hname
  have habs' := isAbsolute_ofComponents hall
  have htext : (ofComponents (names ++ [name])).text = (ofComponents names).text ++ "/" ++ name := by
    rw [ofComponents, String.intercalate_append_of_ne_nil hne (by simp),
      String.intercalate_singleton]
    rfl
  have hfull := join_ofComponents_ne_empty (p := p) h hne
  have hslash : (p.join (ofComponents names)).endsWithSlash = false := by
    rw [endsWithSlash_join habs (ofComponents_ne_empty h hne), endsWithSlash_ofComponents h]
  have hgap : (p.join (ofComponents names)).gap = "/" := by
    rw [gap, if_neg (by simp [hfull, hslash])]
  rw [child, join_eq (isAbsolute_name hname.noSlash), hgap, join_eq habs, join_eq habs', htext]
  simp only [String.append_assoc]

theorem steps_of_noSlash {p : Path} (h : p.endsWithSlash = false) : p.steps = p.segments := by
  rw [steps, if_neg (by simp [h])]

end Path

/-! ## The place of a key -/

theorem ObjectName.isPlain (n : ObjectName) : Path.IsPlain n.text := by
  have ha := n.allowed
  cases hh : n.text.toList.head? with
  | none => exact absurd (by simpa using hh) ha.nonempty
  | some c =>
    refine Path.isPlain_of_head hh ?_ ha.noSlash
    rintro rfl
    exact ha.notHidden hh

namespace Text

theorem isDecimal_decimalDigit {n : Nat} (h : n < 10) : isDecimal (decimalDigit n) := by
  have all : ∀ n < 10, isDecimal (decimalDigit n) := by decide
  exact all n h

@[simp] theorem length_decimalDigits (width n : Nat) : (decimalDigits width n).length = width := by
  induction width generalizing n with
  | zero => rfl
  | succ width ih => rw [decimalDigits, List.length_append, ih, List.length_singleton]

theorem isDecimal_of_mem {width n : Nat} {c : Char} (h : c ∈ decimalDigits width n) :
    isDecimal c := by
  induction width generalizing n with
  | zero => cases h
  | succ width ih =>
    rcases List.mem_append.1 h with h | h
    · exact ih h
    · rw [List.mem_singleton.1 h]
      exact isDecimal_decimalDigit (Nat.mod_lt _ (by decide))

end Text

namespace Layout

/-- The directories that lead to the objects of an index. -/
def shard (l : Layout) (index : UInt64) : List String :=
  (groupDigits l.fanout.toNat l.depth.toNat (index.toNat / l.fanout.toNat)).map
    fun digit => String.ofList (Text.decimalDigits l.width digit)

theorem length_groupDigits (fanout depth n : Nat) :
    (groupDigits fanout depth n).length = depth := by
  induction depth generalizing n with
  | zero => rfl
  | succ depth ih => rw [groupDigits, List.length_append, ih, List.length_singleton]

theorem shard_ne_nil (l : Layout) (index : UInt64) : l.shard index ≠ [] := by
  intro h
  have hlen := congrArg List.length h
  rw [shard, List.length_map, length_groupDigits] at hlen
  have hpos := l.depth_pos
  simp only [List.length_nil] at hlen
  omega

theorem width_pos (l : Layout) : 0 < l.width := by
  rw [width, Nat.toString_eq_repr]
  rw [← String.length_toList, Nat.toList_repr]
  exact Nat.length_toDigits_pos

theorem isPlain_of_mem_shard {l : Layout} {index : UInt64} {name : String}
    (h : name ∈ l.shard index) : Path.IsPlain name := by
  obtain ⟨digit, -, rfl⟩ := List.mem_map.1 h
  have hlen : (Text.decimalDigits l.width digit).length = l.width := Text.length_decimalDigits ..
  have hpos := l.width_pos
  have hdec : ∀ c ∈ Text.decimalDigits l.width digit, Text.isDecimal c := fun c hc =>
    Text.isDecimal_of_mem hc
  cases hd : Text.decimalDigits l.width digit with
  | nil =>
    rw [hd, List.length_nil] at hlen
    omega
  | cons c cs =>
    rw [hd] at hdec
    refine Path.isPlain_of_head (c := c) (by simp) ?_ ?_
    · rintro rfl
      exact absurd (hdec '.' (List.mem_cons_self ..)) (by decide)
    · rw [String.toList_ofList]
      intro hs
      exact absurd (hdec '/' hs) (by decide)

theorem path_of_check {l : Layout} {index : UInt64} (h : l.check index = .ok ()) (base : Path) :
    l.path base index = .ok (base.join (.ofComponents (l.shard index))) := by
  rw [path, components, h]
  rfl

/-- The names that lead from a base directory to an object. -/
def names (l : Layout) (key : Key) : List String := l.shard key.index ++ [key.name.text]

theorem isPlain_of_mem_names {l : Layout} {key : Key} {name : String} (h : name ∈ l.names key) :
    Path.IsPlain name := by
  rcases List.mem_append.1 h with h | h
  · exact isPlain_of_mem_shard h
  · rw [List.mem_singleton.1 h]
    exact key.name.isPlain

theorem names_ne_nil (l : Layout) (key : Key) : l.names key ≠ [] := by
  simp [names]

/-- The place of an object, as names behind the base directory. -/
theorem child_path (l : Layout) (base : Path) (key : Key) :
    (base.join (.ofComponents (l.shard key.index))).child key.name.text =
      base.join (.ofComponents (l.names key)) :=
  Path.child_join_ofComponents (fun _ hn => isPlain_of_mem_shard hn) (l.shard_ne_nil key.index)
    key.name.isPlain

end Layout

end Depot
