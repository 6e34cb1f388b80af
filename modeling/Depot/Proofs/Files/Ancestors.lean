import Depot.Proofs.Files.Paths

/-! The paths above a path. They are its parent and the paths above that, and where a path goes on
with a name, its parent is the path it goes on from, to the letter. -/

namespace Depot.Path

/-! ## Pieces put together -/

theorem intercalate_pieces (cs : List Char) : List.intercalate ['/'] (pieces cs) = cs := by
  induction cs with
  | nil => rfl
  | cons c cs ih =>
    rw [pieces]
    cases hp : pieces cs with
    | nil => exact absurd hp (pieces_ne_nil cs)
    | cons p ps =>
      rw [hp] at ih
      split
      · next hc => rw [List.intercalate_cons_cons, ih, hc]; rfl
      · cases ps with
        | nil =>
          rw [List.intercalate_singleton] at ih ⊢
          rw [ih]
        | cons q ps =>
          rw [List.intercalate_cons_cons] at ih ⊢
          rw [← ih]
          rfl

theorem pieces_intercalate {ps : List (List Char)} (hne : ps ≠ []) (h : ∀ p ∈ ps, '/' ∉ p) :
    pieces (List.intercalate ['/'] ps) = ps := by
  induction ps with
  | nil => exact absurd rfl hne
  | cons p ps ih =>
    rw [List.forall_mem_cons] at h
    cases ps with
    | nil => rw [List.intercalate_singleton, pieces_of_noSlash h.1]
    | cons q ps =>
      rw [List.intercalate_cons_cons, List.append_assoc, List.singleton_append,
        pieces_append_slash, ih (List.cons_ne_nil q ps) h.2, pieces_of_noSlash h.1]
      rfl

theorem intercalate_prefix {ps qs : List (List Char)} (h : ps <+: qs) :
    List.intercalate ['/'] ps <+: List.intercalate ['/'] qs := by
  induction ps generalizing qs with
  | nil => exact List.nil_prefix
  | cons p ps ih =>
    obtain ⟨rest, rfl⟩ := h
    rw [List.cons_append]
    cases ps with
    | nil =>
      rw [List.intercalate_singleton, List.nil_append]
      cases rest with
      | nil => simp only [List.intercalate_singleton, List.prefix_refl]
      | cons r rest =>
        rw [List.intercalate_cons_cons, List.append_assoc]
        exact List.prefix_append ..
    | cons q ps =>
      rw [List.intercalate_cons_cons, List.cons_append, List.intercalate_cons_cons,
        List.prefix_append_right_inj]
      exact ih (List.prefix_append ..)

theorem intercalate_concat {ps : List (List Char)} (hne : ps ≠ []) (q : List Char) :
    List.intercalate ['/'] (ps ++ [q]) = List.intercalate ['/'] ps ++ '/' :: q := by
  induction ps with
  | nil => exact absurd rfl hne
  | cons p ps ih =>
    cases ps with
    | nil =>
      rw [List.singleton_append, List.intercalate_cons_cons, List.intercalate_singleton,
        List.intercalate_singleton, List.append_assoc]
      rfl
    | cons r ps =>
      rw [List.cons_append, List.cons_append, List.intercalate_cons_cons, ← List.cons_append,
        ih (List.cons_ne_nil r ps), List.intercalate_cons_cons]
      simp only [List.append_assoc]

theorem text_of_absolute {p : Path} (h : p.isAbsolute) : p.text.toList = '/' :: p.body := by
  have hbody : p.body = p.text.toList.drop 1 := if_pos h
  rw [isAbsolute, decide_eq_true_eq, List.head?_eq_some_iff] at h
  obtain ⟨cs, hcs⟩ := h
  rw [hbody, hcs]
  rfl

theorem text_of_relative {p : Path} (h : p.isAbsolute = false) : p.text.toList = p.body := by
  rw [body, if_neg (by simp [h])]

/-- A path is put together from its pieces. -/
theorem ofPieces_body (p : Path) : ofPieces p.isAbsolute (pieces p.body).reverse = p := by
  have htext : (if p.isAbsolute then '/' :: p.body else p.body) = p.text.toList := by
    cases h : p.isAbsolute with
    | true => rw [if_pos rfl, text_of_absolute h]
    | false => rw [if_neg Bool.false_ne_true, text_of_relative h]
  rw [ofPieces, List.reverse_reverse, intercalate_pieces, htext, String.ofList_toList]

/-! ## The paths above -/

theorem tails_self {absolute : Bool} {ps t : List (List Char)} {ts : List (List (List Char))}
    (h : tails absolute ps = t :: ts) : tails absolute t = t :: ts := by
  induction ps with
  | nil =>
    cases h
    rfl
  | cons piece before ih =>
    have hps := h
    rw [tails] at h
    split at h
    · exact ih h
    · cases h
      exact hps

/-- Of the tails, those behind one are its own. -/
theorem tails_next {absolute : Bool} {ps t₀ t : List (List Char)} {ts : List (List (List Char))}
    (h : tails absolute ps = t₀ :: t :: ts) : tails absolute t = t :: ts := by
  induction ps with
  | nil => cases h
  | cons piece before ih =>
    rw [tails] at h
    split at h
    · exact ih h
    · rw [List.cons.injEq] at h
      exact tails_self h.2

section Tails

variable {p : Path} {t : List (List Char)}

/-- A tail leads on from the root if the path does. -/
theorem isAbsolute_ofPieces (h : t <:+ (pieces p.body).reverse) :
    (ofPieces p.isAbsolute t).isAbsolute = p.isAbsolute := by
  cases habs : p.isAbsolute with
  | true => simp [ofPieces, isAbsolute]
  | false =>
    obtain ⟨rest, hrest⟩ := h
    have hprefix : List.intercalate ['/'] t.reverse <+: p.text.toList := by
      rw [text_of_relative habs, ← intercalate_pieces p.body]
      refine intercalate_prefix ⟨rest.reverse, ?_⟩
      rw [← List.reverse_append, hrest, List.reverse_reverse]
    obtain ⟨more, hmore⟩ := hprefix
    rw [isAbsolute, decide_eq_false_iff_not] at habs ⊢
    intro hhead
    apply habs
    rw [ofPieces, if_neg Bool.false_ne_true, String.toList_ofList] at hhead
    rw [← hmore, List.head?_append, hhead]
    rfl

theorem pieces_ofPieces (h : t <:+ (pieces p.body).reverse) (hne : t ≠ []) :
    (pieces (ofPieces p.isAbsolute t).body).reverse = t := by
  have hbody : (ofPieces p.isAbsolute t).body = List.intercalate ['/'] t.reverse := by
    rw [body, isAbsolute_ofPieces h]
    cases p.isAbsolute <;> simp [ofPieces]
  have hslash : ∀ piece ∈ t.reverse, '/' ∉ piece := by
    intro piece hpiece
    have hmem : piece ∈ pieces p.body := List.mem_reverse.1 (h.subset (List.mem_reverse.1 hpiece))
    exact noSlash_of_mem_pieces hmem
  rw [hbody, pieces_intercalate (by simpa using hne) hslash, List.reverse_reverse]

end Tails

/-- The paths above a path are the nearest of them and those above that. -/
theorem ancestors_of_parent {p q : Path} (h : p.parent? = some q) :
    p.ancestors = q :: q.ancestors := by
  rw [parent?, ancestors_eq] at h
  rw [ancestors_eq]
  cases hts : tails p.isAbsolute (pieces p.body).reverse with
  | nil => simp [hts] at h
  | cons t₀ ts =>
    cases ts with
    | nil => simp [hts] at h
    | cons t ts =>
      simp only [hts, List.drop_succ_cons, List.drop_zero, List.map_cons, List.head?_cons,
        Option.some.injEq] at h ⊢
      subst h
      rw [List.cons.injEq]
      refine ⟨rfl, ?_⟩
      have htails := tails_next hts
      have hmem : t ∈ tails p.isAbsolute (pieces p.body).reverse := by simp [hts]
      have hsuffix := suffix_of_mem_tails hmem
      rw [ancestors_eq, isAbsolute_ofPieces hsuffix]
      by_cases hnil : t = []
      · subst hnil
        rw [tails] at htails
        cases htails
        cases p.isAbsolute <;> rfl
      · rw [pieces_ofPieces hsuffix hnil, htails]
        rfl

/-! ## Going on with a name -/

/-- The last piece of a path that ends in a name is that name. -/
theorem last_piece {p : Path} {init : List String} {last : String}
    (hslash : p.endsWithSlash = false) (hsegs : p.segments = init ++ [last]) :
    ∃ before, (pieces p.body).reverse = last.toList :: before := by
  rw [segments_body] at hsegs
  rcases List.eq_nil_or_concat (pieces p.body) with hnil | ⟨front, piece, hpieces⟩
  · exact absurd hnil (pieces_ne_nil _)
  rw [List.concat_eq_append] at hpieces
  have hne : piece ≠ [] := by
    rintro rfl
    by_cases hfront : front = []
    · rw [hpieces, hfront] at hsegs
      simp [kept] at hsegs
    · -- the path ends with the separator before the empty piece
      have hbody := intercalate_pieces p.body
      rw [hpieces, intercalate_concat hfront] at hbody
      have hends : ∃ cs, p.text.toList = cs ++ ['/'] := by
        cases habs : p.isAbsolute with
        | true => exact ⟨'/' :: _, by rw [text_of_absolute habs, ← hbody]; rfl⟩
        | false => exact ⟨_, by rw [text_of_relative habs, ← hbody]⟩
      rw [endsWithSlash_iff.2 hends] at hslash
      cases hslash
  have hlast : kept [piece] = [String.ofList piece] := by simp [kept, hne]
  rw [hpieces, kept_append, hlast] at hsegs
  obtain ⟨-, hname⟩ := List.append_inj' hsegs rfl
  refine ⟨front.reverse, ?_⟩
  rw [hpieces, List.reverse_append, ← (List.cons.inj hname).1, String.toList_ofList]
  rfl

theorem tails_of_plain {absolute : Bool} {name : String} (h : IsPlain name)
    (before : List (List Char)) : tails absolute (name.toList :: before) =
      (name.toList :: before) :: tails absolute before := by
  have hne : name.toList ≠ [] := by simpa using h.nonempty
  have hdot : name.toList ≠ ['.'] := fun hd => h.notDot (String.toList_inj.1 hd)
  rw [tails, if_neg (by simp [isIdle, hne, hdot])]

/-- The parent of a name is the path that it goes on from, as it is written. -/
theorem parent?_child {p : Path} {init : List String} {last name : String}
    (hslash : p.endsWithSlash = false) (hsegs : p.segments = init ++ [last])
    (hlast : IsPlain last) (hname : IsPlain name) : (p.child name).parent? = some p := by
  have hne : p.text ≠ "" := by
    intro hempty
    rw [segments_eq, hempty] at hsegs
    simp [namesIn, pieces] at hsegs
  have hchars : p.text.toList ≠ [] := by simpa using hne
  have htext : (p.child name).text.toList = p.text.toList ++ '/' :: name.toList := by
    rw [child, join_eq (isAbsolute_name hname.noSlash), gap, if_neg (by simp [hne, hslash])]
    simp
  have habs : (p.child name).isAbsolute = p.isAbsolute := by
    rw [isAbsolute, htext]
    cases hcs : p.text.toList with
    | nil => exact absurd hcs hchars
    | cons c cs => simp [isAbsolute, hcs]
  have hbody : (p.child name).body = p.body ++ '/' :: name.toList := by
    cases h : p.isAbsolute with
    | true =>
      have hself := text_of_absolute (habs.trans h)
      rw [htext, text_of_absolute h] at hself
      exact (List.cons.inj hself).2.symm
    | false => rw [← text_of_relative (habs.trans h), htext, text_of_relative h]
  obtain ⟨before, hbefore⟩ := last_piece hslash hsegs
  have hwhole := ofPieces_body p
  rw [hbefore] at hwhole
  rw [parent?, ancestors_eq, habs, hbody, pieces_append_slash, pieces_of_noSlash hname.noSlash,
    List.reverse_append, hbefore, List.reverse_singleton, List.singleton_append,
    tails_of_plain hname, tails_of_plain hlast]
  exact congrArg some hwhole

end Depot.Path
