import Depot.Json.Record
import Depot.Proofs.Json.Scalars
import Mathlib.Data.List.Forall2
import Mathlib.Tactic.Choose

/-! Every well-formed text has a reading, which is whole: what stands between its containers and
their ends is read inside any open containers, item by item and member by member. -/

namespace Depot.Json

/-- Takes the tokens of a text one after another. -/
def State.feedText (s : State) (cs : List Char) : State := (tokens cs).foldl State.feed s

theorem Lexes.feedText {cs rest : List Char} {t : Token} (h : Lexes cs t) (hrest : Apart rest)
    (s : State) : s.feedText (cs ++ rest) = (s.feed t).feedText rest := by
  rw [State.feedText, h rest hrest]
  rfl

theorem State.feedText_mark (s : State) {c : Char} {t : Token} (h : isBlank c = false)
    (ht : ∀ cs, token c cs = (t, cs)) (cs : List Char) :
    s.feedText (c :: cs) = (s.feed t).feedText cs := by
  rw [feedText, tokens_cons h, ht]
  rfl

theorem State.feedText_comma (s : State) (cs : List Char) :
    s.feedText (',' :: cs) = (s.feed .comma).feedText cs := s.feedText_mark rfl (fun _ => rfl) cs

theorem State.feedText_colon (s : State) (cs : List Char) :
    s.feedText (':' :: cs) = (s.feed .colon).feedText cs := s.feedText_mark rfl (fun _ => rfl) cs

theorem State.feedText_openArray (s : State) (cs : List Char) :
    s.feedText ('[' :: cs) = (s.feed .openArray).feedText cs :=
  s.feedText_mark rfl (fun _ => rfl) cs

theorem State.feedText_closeArray (s : State) (cs : List Char) :
    s.feedText (']' :: cs) = (s.feed .closeArray).feedText cs :=
  s.feedText_mark rfl (fun _ => rfl) cs

theorem State.feedText_openObject (s : State) (cs : List Char) :
    s.feedText ('\x7b' :: cs) = (s.feed .openObject).feedText cs :=
  s.feedText_mark rfl (fun _ => rfl) cs

theorem State.feedText_closeObject (s : State) (cs : List Char) :
    s.feedText ('\x7d' :: cs) = (s.feed .closeObject).feedText cs :=
  s.feedText_mark rfl (fun _ => rfl) cs

/-! ## Blanks -/

variable {t cs rest : List Char}

theorem isBlank_eq_true {c : Char} : isBlank c = true ↔ c ∈ [' ', '\n', '\r', '\t'] := by
  simp only [isBlank, Bool.or_eq_true, decide_eq_true_eq, List.mem_cons, List.not_mem_nil,
    or_false]
  grind

theorem tokens_blanks (h : Blanks cs) (rest : List Char) : tokens (cs ++ rest) = tokens rest := by
  induction cs with
  | nil => rfl
  | cons c cs ih =>
    have hc := isBlank_eq_true.2 (h c (List.mem_cons_self ..))
    rw [List.cons_append, tokens, if_pos hc, ih fun d hd => h d (List.mem_cons_of_mem _ hd)]

theorem State.feedText_blanks (s : State) (h : Blanks cs) (rest : List Char) :
    s.feedText (cs ++ rest) = s.feedText rest := congrArg (List.foldl feed s) (tokens_blanks h rest)

theorem Apart.blanks (hrest : Apart rest) (h : Blanks cs) : Apart (cs ++ rest) := by
  cases cs with
  | nil => exact hrest
  | cons c cs =>
    have hc := h c (List.mem_cons_self ..)
    simp only [List.mem_cons, List.not_mem_nil, or_false] at hc
    rcases hc with rfl | rfl | rfl | rfl <;> exact apart_cons _ (by decide)

/-- Blanks around a text make no difference. -/
theorem Padded.tokens_eq (h : Padded t cs) : ∃ back, Blanks back ∧
    ∀ rest, tokens (cs ++ rest) = tokens (t ++ (back ++ rest)) := by
  obtain @⟨front, back, hfront, hback⟩ := h
  refine ⟨back, hback, fun rest => ?_⟩
  rw [List.append_assoc, List.append_assoc, tokens_blanks hfront]

theorem Lexes.padded {tok : Token} (h : Lexes t tok) (hp : Padded t cs) : Lexes cs tok := by
  obtain ⟨back, hback, htokens⟩ := hp.tokens_eq
  intro rest hrest
  rw [htokens, h _ (hrest.blanks hback), tokens_blanks hback]

/-! ## Values -/

/-- The text reads as the value wherever a value may stand, and also where an array may end. -/
structure Reads (cs : List Char) (v : Json) : Prop where
  value : ∀ stack rest, Apart rest →
    (State.value stack).feedText (cs ++ rest) = (fill v stack).feedText rest
  first : ∀ stack rest, Apart rest → (State.firstItem stack).feedText (cs ++ rest) =
    (State.value (.items [] :: stack)).feedText (cs ++ rest)

variable {v : Json}

theorem Reads.padded (h : Reads t v) (hp : Padded t cs) : Reads cs v := by
  obtain ⟨back, hback, htokens⟩ := hp.tokens_eq
  have hfeed : ∀ (s : State) rest, s.feedText (cs ++ rest) = s.feedText (t ++ (back ++ rest)) :=
    fun s rest => congrArg (List.foldl State.feed s) (htokens rest)
  constructor
  · intro stack rest hrest
    rw [hfeed, h.value _ _ (hrest.blanks hback), State.feedText_blanks _ hback]
  · intro stack rest hrest
    rw [hfeed, hfeed]
    exact h.first _ _ (hrest.blanks hback)

/-- The text is all that is read of it. -/
theorem Reads.ofList_eq (h : Reads cs v) : ofList cs = (v, false) := by
  have hfeed := h.value [] [] apart_nil
  rw [List.append_nil] at hfeed
  have hread : reading (tokens cs) = .complete v := by
    rw [reading]
    refine Eq.trans hfeed ?_
    rw [State.feedText, tokens]
    rfl
  rw [ofList, hread]

/-- What is read off the value is read off its text. -/
theorem Reads.readText {α : Type} {text : String} (h : Reads text.toList v) (read : Reader α) :
    readText read text = read v := by
  unfold Json.readText
  rw [h.ofList_eq]
  simp only [Bool.false_eq_true, ↓reduceIte]
  cases read v <;> rfl

theorem Reads.unique {v' : Json} (h : Reads cs v) (h' : Reads cs v') : v = v' := by
  have he := h.ofList_eq
  rw [h'.ofList_eq] at he
  cases he
  rfl

theorem Lexes.reads {tok : Token} (h : Lexes cs tok)
    (hbegin : ∀ stack, begin tok stack = fill v stack) : Reads cs v := by
  constructor
  · intro stack rest hrest
    rw [h.feedText hrest, ← hbegin]
    rfl
  · intro stack rest hrest
    rw [h.feedText hrest, h.feedText hrest]
    cases tok with
    | closeArray => cases hbegin []
    | _ => rfl

theorem reads_null : Reads "null".toList .null := lexes_null.reads fun _ => rfl

theorem reads_bool (b : Bool) : Reads (if b then "true" else "false").toList (.bool b) :=
  (lexes_bool b).reads fun _ => rfl

theorem reads_nat {n : Nat} (hn : n < UInt64.size) : Reads (toString n).toList (.nat n) :=
  (lexes_nat hn).reads fun _ => rfl

theorem StringText.reads {s : String} (h : StringText s cs) : Reads cs (.string s) :=
  h.lexes.reads fun _ => rfl

/-! ## Arrays -/

theorem apart_closeArray (rest : List Char) : Apart (']' :: rest) := apart_cons _ (by decide)

theorem apart_closeObject (rest : List Char) : Apart ('\x7d' :: rest) := apart_cons _ (by decide)

theorem apart_comma (rest : List Char) : Apart (',' :: rest) := apart_cons _ (by decide)

theorem apart_colon (rest : List Char) : Apart (':' :: rest) := apart_cons _ (by decide)

theorem Items.feedText {ts : List (List Char)} (h : Items ts cs) {vs : List Json}
    (hvs : List.Forall₂ Reads ts vs) (done : List Json) (stack : List Frame) (rest : List Char) :
    (State.value (.items done :: stack)).feedText (cs ++ ']' :: rest) =
      (fill (.list (done.reverse ++ vs)) stack).feedText rest := by
  induction h generalizing vs done with
  | single hp =>
    obtain @⟨⟩ | @⟨_, v, _, _, hv, ⟨⟩⟩ := hvs
    rw [(hv.padded hp).value _ _ (apart_closeArray rest), State.feedText_closeArray]
    change (fill (.list (v :: done).reverse) stack).feedText rest = _
    rw [List.reverse_cons]
  | @cons t cs ds ts hp _ ih =>
    obtain @⟨⟩ | @⟨_, v, _, vs, hv, hvs⟩ := hvs
    rw [List.append_assoc, List.cons_append, (hv.padded hp).value _ _ (apart_comma _),
      State.feedText_comma]
    change (State.value (.items (v :: done) :: stack)).feedText _ = _
    rw [ih hvs, List.reverse_cons, List.append_assoc, List.singleton_append]

theorem Items.first {ts : List (List Char)} (h : Items ts cs) {vs : List Json}
    (hvs : List.Forall₂ Reads ts vs) (stack : List Frame) (rest : List Char) :
    (State.firstItem stack).feedText (cs ++ ']' :: rest) =
      (State.value (.items [] :: stack)).feedText (cs ++ ']' :: rest) := by
  cases h with
  | single hp =>
    obtain @⟨⟩ | ⟨hv, -⟩ := hvs
    exact (hv.padded hp).first _ _ (apart_closeArray rest)
  | cons hp =>
    obtain @⟨⟩ | ⟨hv, -⟩ := hvs
    rw [List.append_assoc, List.cons_append]
    exact (hv.padded hp).first _ _ (apart_comma _)

theorem ArrayText.reads {ts : List (List Char)} (h : ArrayText ts cs) {vs : List Json}
    (hvs : List.Forall₂ Reads ts vs) : Reads cs (.list vs) := by
  obtain @⟨cs, hblanks⟩ | @⟨_, cs, hitems⟩ := h
  · cases hvs
    constructor
    · intro stack rest _
      rw [List.cons_append, List.cons_append, List.append_assoc, List.singleton_append,
        State.feedText_openArray, State.feedText_blanks _ hblanks, State.feedText_closeArray]
      rfl
    · intro stack rest _
      rw [List.cons_append, List.cons_append, State.feedText_openArray, State.feedText_openArray]
      rfl
  · constructor
    · intro stack rest _
      rw [List.cons_append, List.cons_append, List.append_assoc, List.singleton_append,
        State.feedText_openArray]
      change (State.firstItem stack).feedText _ = _
      rw [hitems.first hvs, hitems.feedText hvs]
      rfl
    · intro stack rest _
      rw [List.cons_append, List.cons_append, State.feedText_openArray, State.feedText_openArray]
      rfl

/-! ## Objects -/

/-- The name and the value of a member read as these. -/
def ReadsMember (m : List Char × List Char) (j : Except Flaw String × Json) : Prop :=
  Lexes m.1 (.text j.1) ∧ Reads m.2 j.2

/-- A member is read from wherever its name may stand. -/
theorem ReadsMember.feedText {m : List Char × List Char} {j : Except Flaw String × Json}
    (h : ReadsMember m j) {ks vs : List Char} (hk : Padded m.1 ks) (hv : Padded m.2 vs) {s : State}
    {done : List (Except Flaw String × Json)} {stack : List Frame}
    (hs : ∀ key, s.feed (.text key) = .afterKey done key stack) (hrest : Apart rest) :
    s.feedText (ks ++ ':' :: (vs ++ rest)) =
      (State.afterMember (j :: done) stack).feedText rest := by
  rw [(h.1.padded hk).feedText (apart_colon _), hs, State.feedText_colon]
  change (State.value (.members done j.1 :: stack)).feedText _ = _
  rw [(h.2.padded hv).value _ _ hrest]
  rfl

theorem Members.feedText {ms : List (List Char × List Char)} (h : Members ms cs)
    {js : List (Except Flaw String × Json)} (hjs : List.Forall₂ ReadsMember ms js) {s : State}
    {done : List (Except Flaw String × Json)} {stack : List Frame}
    (hs : ∀ key, s.feed (.text key) = .afterKey done key stack) (rest : List Char) :
    s.feedText (cs ++ '\x7d' :: rest) =
      (fill (.object (done.reverse ++ js) none) stack).feedText rest := by
  induction h generalizing js s done with
  | single hk hv =>
    obtain @⟨⟩ | @⟨_, j, _, _, hj, ⟨⟩⟩ := hjs
    rw [List.append_assoc, List.cons_append, hj.feedText hk hv hs (apart_closeObject rest),
      State.feedText_closeObject]
    change (fill (.object (j :: done).reverse none) stack).feedText rest = _
    rw [List.reverse_cons]
  | cons hk hv _ ih =>
    obtain @⟨⟩ | @⟨_, j, _, js, hj, hjs⟩ := hjs
    rw [List.append_assoc, List.cons_append, List.append_assoc, List.cons_append,
      hj.feedText hk hv hs (apart_comma _), State.feedText_comma]
    change (State.nextKey (j :: done) stack).feedText _ = _
    rw [ih hjs fun _ => rfl, List.reverse_cons, List.append_assoc, List.singleton_append]

theorem ObjectText.reads {ms : List (List Char × List Char)} (h : ObjectText ms cs)
    {js : List (Except Flaw String × Json)} (hjs : List.Forall₂ ReadsMember ms js) :
    Reads cs (.object js none) := by
  obtain @⟨cs, hblanks⟩ | @⟨_, cs, hmembers⟩ := h
  · cases hjs
    constructor
    · intro stack rest _
      rw [List.cons_append, List.cons_append, List.append_assoc, List.singleton_append,
        State.feedText_openObject, State.feedText_blanks _ hblanks, State.feedText_closeObject]
      rfl
    · intro stack rest _
      rw [List.cons_append, List.cons_append, State.feedText_openObject, State.feedText_openObject]
      rfl
  · constructor
    · intro stack rest _
      rw [List.cons_append, List.cons_append, List.append_assoc, List.singleton_append,
        State.feedText_openObject]
      change (State.firstKey stack).feedText _ = _
      rw [hmembers.feedText hjs fun _ => rfl]
      rfl
    · intro stack rest _
      rw [List.cons_append, List.cons_append, State.feedText_openObject, State.feedText_openObject]
      rfl

/-! ## Well-formed texts -/

theorem skipItems?_eq_none {vs : List Json} (h : ∀ v ∈ vs, v.skipBreak? = none) :
    skipItems? vs = none := by
  induction vs with
  | nil => rfl
  | cons v vs ih =>
    rw [skipItems?, h v (List.mem_cons_self ..), ih fun w hw => h w (List.mem_cons_of_mem _ hw)]
    rfl

theorem skipMembers?_eq_none {js : List (Except Flaw String × Json)}
    (hnames : ∀ j ∈ js, ∀ flaw, j.1 = .error flaw → flaw.skip = none)
    (h : ∀ j ∈ js, j.2.skipBreak? = none) : skipMembers? js = none := by
  induction js with
  | nil => rfl
  | cons j js ih =>
    obtain ⟨key, v⟩ := j
    have hrest := ih (fun i hi => hnames i (List.mem_cons_of_mem _ hi))
      fun i hi => h i (List.mem_cons_of_mem _ hi)
    have hv : v.skipBreak? = none := h _ (List.mem_cons_self ..)
    cases key with
    | ok name =>
      rw [skipMembers?, hv, hrest]
      rfl
    | error flaw =>
      rw [skipMembers?, hnames _ (List.mem_cons_self ..) flaw rfl, hv, hrest]
      rfl

theorem forall₂_map {α β : Type} {R : α → β → Prop} {f : α → β} {l : List α}
    (h : ∀ a ∈ l, R a (f a)) : List.Forall₂ R l (l.map f) :=
  List.forall₂_map_right_iff.2 (List.forall₂_same.2 h)

/-- A text in the form of a value is read as one, and nothing in it stops a reader who passes
over it. -/
theorem WellFormed.reads (h : WellFormed cs) : ∃ v : Json, v.skipBreak? = none ∧ Reads cs v := by
  have : Nonempty Json := ⟨.null⟩
  have : Nonempty (Except Flaw String) := ⟨.ok ""⟩
  induction h with
  | null => exact ⟨.null, rfl, reads_null⟩
  | bool b => exact ⟨.bool b, rfl, reads_bool b⟩
  | number h =>
    obtain ⟨v, hskip, hlexes⟩ := h.lexes
    exact ⟨v, hskip, hlexes.reads fun _ => rfl⟩
  | string h =>
    obtain ⟨key, hlexes, -, hflaw⟩ := h.lexes
    cases key with
    | ok s => exact ⟨.string s, rfl, hlexes.reads fun _ => rfl⟩
    | error flaw => exact ⟨.flawed flaw, hflaw flaw rfl, hlexes.reads fun _ => rfl⟩
  | @array ts cs h _ ih =>
    choose! g hskip hreads using ih
    refine ⟨.list (ts.map g), ?_, h.reads (forall₂_map hreads)⟩
    rw [list, skipBreak?, Option.or_none]
    exact skipItems?_eq_none (List.forall_mem_map.2 hskip)
  | @object ms cs h hnames _ ih =>
    have hmembers : ∀ m ∈ ms, ∃ j, ReadsMember m j ∧ j.2.skipBreak? = none ∧
        ∀ flaw, j.1 = .error flaw → flaw.skip = none := by
      intro m hm
      obtain ⟨key, hlexes, -, hflaw⟩ := (hnames m hm).lexes
      obtain ⟨v, hskip, hreads⟩ := ih m hm
      exact ⟨(key, v), ⟨hlexes, hreads⟩, hskip, hflaw⟩
    choose! g hreads hskip hflaw using hmembers
    refine ⟨.object (ms.map g) none, ?_, h.reads (forall₂_map hreads)⟩
    rw [skipBreak?, Option.or_none]
    exact skipMembers?_eq_none (List.forall_mem_map.2 hflaw) (List.forall_mem_map.2 hskip)

end Depot.Json
