import Depot.Proofs.Json.Keys
import Depot.Proofs.Json.Records
import Depot.Proofs.Json.RecordTexts

/-! Keys as texts. The fields of a key may stand in any order among other members, or as the items
of an array, with any blanks and any spelling of strings; all these texts are read as the key. An
object that gives a field twice, or not at all, is no key, nor is one with a name that is not
allowed. -/

namespace Depot

open Json

/-! ## Loop contexts -/

namespace LoopContext

def fieldNames : List String := ["nested_loop_path", "iteration_index"]

/-- The loops as an array of numbers. -/
def PathText (path : List UInt32) (cs : List Char) : Prop :=
  ArrayText (path.map fun n => (toString n.toNat).toList) cs

inductive IterationText : Option UInt32 → List Char → Prop where
  | null : IterationText none "null".toList
  | number (n : UInt32) : IterationText (some n) (toString n.toNat).toList

/-- The texts of a loop context: an object, which may leave out the iteration if there is none, or
an array of both fields. -/
inductive Recorded (l : LoopContext) : List Char → Prop where
  | object {ms : List (List Char × List Char)} {cs : List Char} : FieldsText fieldNames ms cs →
      Given "nested_loop_path" (PathText l.path) ms →
      (Given "iteration_index" (IterationText l.iteration) ms ∨
        Lacks "iteration_index" ms ∧ l.iteration = none) →
      Recorded l cs
  | array {path iteration cs : List Char} : ArrayText [path, iteration] cs →
      PathText l.path path → IterationText l.iteration iteration → Recorded l cs

/-- Objects that are no loop context, for a field that stands twice or is missing. -/
inductive Refused : List Char → Prop where
  | repeated {ms : List (List Char × List Char)} {cs : List Char} {name : String} :
      RecordText ms cs → name ∈ fieldNames → Repeats name ms → Refused cs
  | lacking {ms : List (List Char × List Char)} {cs : List Char} : RecordText ms cs →
      Lacks "nested_loop_path" ms → Refused cs

theorem store_cases {field : RecordField Draft} {d d' : Draft} {v : Json} (hf : field ∈ fields)
    (h : field.store v d = .ok d') :
    (field.name = "nested_loop_path" ∧
      ∃ path, readList readUInt32 v = .ok path ∧ d' = { d with path := some path }) ∨
    (field.name = "iteration_index" ∧
      ∃ o, readOption readUInt32 v = .ok o ∧ d' = { d with iteration := some o }) := by
  simp only [fields, List.mem_cons, List.not_mem_nil, or_false] at hf
  rcases hf with rfl | rfl <;> obtain ⟨a, hread, hd⟩ := Work.except_bind_eq_ok.1 h <;> cases hd
  · exact .inl ⟨rfl, a, hread, rfl⟩
  · exact .inr ⟨rfl, a, hread, rfl⟩

theorem slot_path : Slot fields "nested_loop_path" (readList readUInt32) (·.path) where
  own := ⟨_, rfl, RecordField.keeps_required fun _ _ => rfl⟩
  spared _ hf hne _ _ _ h := by
    rcases store_cases hf h with ⟨hname, _, -, rfl⟩ | ⟨-, _, -, rfl⟩ <;>
      first | rfl | exact absurd hname hne

theorem slot_iteration : Slot fields "iteration_index" (readOption readUInt32) (·.iteration) where
  own := ⟨_, rfl, RecordField.keeps_optional fun _ _ => rfl⟩
  spared _ hf hne _ _ _ h := by
    rcases store_cases hf h with ⟨-, _, -, rfl⟩ | ⟨hname, _, -, rfl⟩ <;>
      first | rfl | exact absurd hname hne

theorem PathText.reads {path : List UInt32} {cs : List Char} (h : PathText path cs) :
    ReadsAs (readList readUInt32) path cs := by
  refine ⟨.list (path.map fun n => .nat n.toNat), ArrayText.reads h ?_,
    readList_list readUInt32_nat path⟩
  rw [List.forall₂_map_left_iff, List.forall₂_map_right_iff, List.forall₂_same]
  exact fun n _ => reads_nat (Nat.lt_trans n.toNat_lt (by decide))

theorem IterationText.reads {o : Option UInt32} {cs : List Char} (h : IterationText o cs) :
    ReadsAs (readOption readUInt32) o cs := by
  cases h with
  | null => exact ⟨.null, reads_null, rfl⟩
  | number n =>
    refine ⟨.nat n.toNat, reads_nat (Nat.lt_trans n.toNat_lt (by decide)), ?_⟩
    exact readOption_option readUInt32_nat (fun _ => nofun) (some n)

variable {members : List (Except Flaw String × Json)} {l : LoopContext}

theorem reader_of_takes {o : Option (Option UInt32)}
    (h : Takes fields {} members ⟨some l.path, o⟩) (ho : o.getD none = l.iteration) :
    reader (.object members none) = .ok l := by
  have hread : readRecord fields {} (.object members none) =
      .ok ⟨some l.path, some l.iteration⟩ := by
    refine readRecord_eq_ok.2 ⟨_, h, ?_⟩
    rw [← ho]
    cases o <;> rfl
  rw [reader, hread]
  rfl

theorem takes_of_reader (h : reader (.object members none) = .ok l) :
    ∃ d, Takes fields {} members d ∧ d.path.isSome := by
  obtain ⟨_, hread, -⟩ := Work.except_bind_eq_ok.1 h
  obtain ⟨⟨path, iteration⟩, htakes, hfill⟩ := readRecord_eq_ok.1 hread
  refine ⟨_, htakes, ?_⟩
  cases path with
  | none => cases hfill
  | some path => rfl

theorem Recorded.reads {cs : List Char} (h : Recorded l cs) : ReadsAs reader l cs := by
  cases h with
  | @object ms cs hfields hpath hiteration =>
    obtain ⟨g, hg, hreads⟩ := hfields.reads
    have hp : Supplies "nested_loop_path" (readList readUInt32) ms (some l.path) :=
      hpath.imp fun _ => PathText.reads
    obtain ⟨o, ho, hget⟩ := exists_supplies (fun _ => IterationText.reads) hiteration
    have hnames : FieldsText (fields.map (·.name)) ms cs := hfields
    have hempty : ∀ field ∈ fields, field.seen {} = false := by
      simp [fields, RecordField.required, RecordField.optional]
    obtain ⟨⟨path, iteration⟩, htakes⟩ := hnames.takes hg hempty <|
      List.forall_mem_cons.2 ⟨⟨_, _, _, _, slot_path, hp⟩,
      List.forall_mem_cons.2 ⟨⟨_, _, _, _, slot_iteration, ho⟩, List.forall_mem_nil _⟩⟩
    have hpath : path = some l.path := htakes.get_eq hg slot_path hp rfl
    have hiteration : iteration = o := htakes.get_eq hg slot_iteration ho rfl
    rw [hpath, hiteration] at htakes
    exact ⟨_, hreads, reader_of_takes htakes hget⟩
  | array h hpath hiteration =>
    obtain ⟨p, hp, hpath⟩ := hpath.reads
    obtain ⟨i, hi, hiteration⟩ := hiteration.reads
    refine ⟨.list [p, i], h.reads (.cons hp (.cons hi .nil)), ?_⟩
    simp [reader, list, readRecord, fields, readFields, RecordField.required,
      RecordField.optional, hpath, hiteration, endsWell, bind, Except.bind]

theorem Refused.reads {cs : List Char} (h : Refused cs) :
    ∃ v, Reads cs v ∧ ∀ l, reader v ≠ .ok l := by
  cases h with
  | repeated h hname hrepeats =>
    obtain ⟨g, hg, hreads⟩ := h.reads
    refine ⟨_, hreads, fun l hl => ?_⟩
    obtain ⟨d, htakes, -⟩ := takes_of_reader hl
    simp only [fieldNames, List.mem_cons, List.not_mem_nil, or_false] at hname
    rcases hname with rfl | rfl
    · exact htakes.not_repeats hg slot_path hrepeats
    · exact htakes.not_repeats hg slot_iteration hrepeats
  | lacking h hlacks =>
    obtain ⟨g, hg, hreads⟩ := h.reads
    refine ⟨_, hreads, fun l hl => ?_⟩
    obtain ⟨d, htakes, hpath⟩ := takes_of_reader hl
    exact htakes.not_lacks hg slot_path rfl hpath hlacks

end LoopContext

/-! ## Keys -/

/-- A string that is one of the texts of the identity. -/
inductive Identity.QuotedText (id : Identity) : List Char → Prop where
  | string {s : String} {cs : List Char} : Spelling id s.toList → StringText s cs →
      QuotedText id cs

theorem Identity.QuotedText.reads {id : Identity} {cs : List Char} (h : id.QuotedText cs) :
    ReadsAs reader id cs := by
  obtain ⟨hspelling, htext⟩ := h
  refine ⟨_, htext.reads, ?_⟩
  simp only [reader, readString_string, bind, Except.bind, ofString_eq_ok.2 hspelling]

namespace Key

def fieldNames : List String := ["owner", "index", "loop_context", "name"]

/-- The texts of a record with these contents: an object, which may leave out the loops if there
are none, or an array of the four fields. Whether the name is allowed is another matter. -/
inductive Recorded (owner : Identity) (index : UInt64) (loop : LoopContext) (name : String) :
    List Char → Prop where
  | object {ms : List (List Char × List Char)} {cs : List Char} : FieldsText fieldNames ms cs →
      Given "owner" owner.QuotedText ms →
      Given "index" (· = (toString index.toNat).toList) ms →
      (Given "loop_context" loop.Recorded ms ∨ Lacks "loop_context" ms ∧ loop = .empty) →
      Given "name" (StringText name) ms → Recorded owner index loop name cs
  | array {o i l n cs : List Char} : ArrayText [o, i, l, n] cs → owner.QuotedText o →
      i = (toString index.toNat).toList → loop.Recorded l → StringText name n →
      Recorded owner index loop name cs

/-- Records that are no key: an object in which a field stands twice, one that lacks a field other
than the loops or has loops of that kind, an array of more or fewer items, or a record with a name
that is not allowed. -/
inductive Refused : List Char → Prop where
  | repeated {ms : List (List Char × List Char)} {cs : List Char} {name : String} :
      RecordText ms cs → name ∈ fieldNames → Repeats name ms → Refused cs
  | lacking {ms : List (List Char × List Char)} {cs : List Char} {name : String} :
      RecordText ms cs → name ∈ ["owner", "index", "name"] → Lacks name ms → Refused cs
  | loops {ms : List (List Char × List Char)} {cs : List Char} : RecordText ms cs →
      Given "loop_context" LoopContext.Refused ms → Refused cs
  | items {ts : List (List Char)} {cs : List Char} : ArrayText ts cs → (∀ t ∈ ts, WellFormed t) →
      ts.length ≠ 4 → Refused cs
  | named {owner : Identity} {index : UInt64} {loop : LoopContext} {name : String}
      {cs : List Char} : Recorded owner index loop name cs → ¬ ObjectName.Allowed name → Refused cs

variable {members : List (Except Flaw String × Json)} {owner : Identity} {index : UInt64}
  {loop : LoopContext} {name : String} {cs : List Char}

theorem reader_of_readRecord {v : Json} (h : readRecord fields {} v =
    .ok ⟨some owner, some index, some loop, some name⟩) :
    reader v = (make owner index loop name).mapError .badName := by
  rw [reader, h]
  simp only [bind, Except.bind]
  cases make owner index loop name <;> rfl

theorem readRecord_of_takes {o : Option LoopContext}
    (h : Takes fields {} members ⟨some owner, some index, o, some name⟩)
    (ho : o.getD .empty = loop) : readRecord fields {} (.object members none) =
      .ok ⟨some owner, some index, some loop, some name⟩ := by
  refine readRecord_eq_ok.2 ⟨_, h, ?_⟩
  rw [← ho]
  cases o <;> rfl

theorem takes_of_reader {k : Key} (h : reader (.object members none) = .ok k) :
    ∃ d, Takes fields {} members d ∧ d.owner.isSome ∧ d.index.isSome ∧ d.name.isSome := by
  obtain ⟨_, hread, -⟩ := Work.except_bind_eq_ok.1 h
  obtain ⟨⟨owner, index, loop, name⟩, htakes, hfill⟩ := readRecord_eq_ok.1 hread
  refine ⟨_, htakes, ?_⟩
  cases owner with
  | none => cases hfill
  | some owner =>
    cases index with
    | none => cases hfill
    | some index =>
      cases name with
      | none => cases loop <;> cases hfill
      | some name => exact ⟨rfl, rfl, rfl⟩

/-- A record of these contents is read as the key that is made of them, if they make one. -/
theorem Recorded.reads (h : Recorded owner index loop name cs) :
    ∃ v, Reads cs v ∧ reader v = (make owner index loop name).mapError .badName := by
  cases h with
  | @object ms cs hfields howner hindex hloop hname =>
    obtain ⟨g, hg, hreads⟩ := hfields.reads
    have ho : Supplies "owner" Identity.reader ms (some owner) :=
      howner.imp fun _ => Identity.QuotedText.reads
    have hi : Supplies "index" readUInt64 ms (some index) :=
      hindex.imp fun _ ht => ⟨.nat index.toNat, ht ▸ reads_nat index.toNat_lt, readUInt64_nat index⟩
    have hn : Supplies "name" readString ms (some name) :=
      hname.imp fun _ ht => ⟨_, ht.reads, rfl⟩
    obtain ⟨l, hl, hget⟩ := exists_supplies (fun _ => LoopContext.Recorded.reads) hloop
    have hnames : FieldsText (fields.map (·.name)) ms cs := hfields
    have hempty : ∀ field ∈ fields, field.seen {} = false := by
      simp [fields, RecordField.required, RecordField.defaulted]
    obtain ⟨⟨o', i', l', n'⟩, htakes⟩ := hnames.takes hg hempty <|
      List.forall_mem_cons.2 ⟨⟨_, _, _, _, slot_owner, ho⟩,
      List.forall_mem_cons.2 ⟨⟨_, _, _, _, slot_index, hi⟩,
      List.forall_mem_cons.2 ⟨⟨_, _, _, _, slot_loop, hl⟩,
      List.forall_mem_cons.2 ⟨⟨_, _, _, _, slot_name, hn⟩, List.forall_mem_nil _⟩⟩⟩⟩
    have ho' : o' = some owner := htakes.get_eq hg slot_owner ho rfl
    have hi' : i' = some index := htakes.get_eq hg slot_index hi rfl
    have hl' : l' = l := htakes.get_eq hg slot_loop hl rfl
    have hn' : n' = some name := htakes.get_eq hg slot_name hn rfl
    rw [ho', hi', hl', hn'] at htakes
    exact ⟨_, hreads, reader_of_readRecord (readRecord_of_takes htakes hget)⟩
  | array h howner hindex hloop hname =>
    obtain ⟨o, ho, howner⟩ := howner.reads
    obtain ⟨l, hl, hloop⟩ := hloop.reads
    have hi := reads_nat index.toNat_lt
    rw [← hindex] at hi
    refine ⟨_, h.reads (.cons ho (.cons hi (.cons hl (.cons hname.reads .nil)))),
      reader_of_readRecord ?_⟩
    simp [list, readRecord, fields, readFields, RecordField.required, RecordField.defaulted, howner,
      readUInt64_nat, hloop, readString_string, endsWell, bind, Except.bind]

theorem Recorded.reads_key {k : Key} (h : Recorded k.owner k.index k.loop k.name.text cs) :
    ReadsAs reader k cs := by
  obtain ⟨v, hv, hread⟩ := h.reads
  rw [make_parts] at hread
  exact ⟨v, hv, hread⟩

theorem Refused.reads (h : Refused cs) : ∃ v, Reads cs v ∧ ∀ k, reader v ≠ .ok k := by
  cases h with
  | repeated h hname hrepeats =>
    obtain ⟨g, hg, hreads⟩ := h.reads
    refine ⟨_, hreads, fun k hk => ?_⟩
    obtain ⟨d, htakes, -⟩ := takes_of_reader hk
    simp only [fieldNames, List.mem_cons, List.not_mem_nil, or_false] at hname
    rcases hname with rfl | rfl | rfl | rfl
    · exact htakes.not_repeats hg slot_owner hrepeats
    · exact htakes.not_repeats hg slot_index hrepeats
    · exact htakes.not_repeats hg slot_loop hrepeats
    · exact htakes.not_repeats hg slot_name hrepeats
  | lacking h hname hlacks =>
    obtain ⟨g, hg, hreads⟩ := h.reads
    refine ⟨_, hreads, fun k hk => ?_⟩
    obtain ⟨d, htakes, howner, hindex, hnamed⟩ := takes_of_reader hk
    simp only [List.mem_cons, List.not_mem_nil, or_false] at hname
    rcases hname with rfl | rfl | rfl
    · exact htakes.not_lacks hg slot_owner rfl howner hlacks
    · exact htakes.not_lacks hg slot_index rfl hindex hlacks
    · exact htakes.not_lacks hg slot_name rfl hnamed hlacks
  | loops h hloop =>
    obtain ⟨g, hg, hreads⟩ := h.reads
    obtain ⟨m, hm, hname, hrefused⟩ := hloop
    obtain ⟨v, hv, hnone⟩ := hrefused.reads
    refine ⟨_, hreads, fun k hk => ?_⟩
    obtain ⟨d, htakes, -⟩ := takes_of_reader hk
    obtain ⟨l, hl⟩ := (htakes.outcome slot_loop).readable
      ((mem_map_matches hg).2 ⟨m, hm, hname, hv⟩)
    exact hnone l hl
  | @items ts cs h hwell hlength =>
    have : Nonempty Json := ⟨.null⟩
    have hitems : ∀ t ∈ ts, ∃ v, Reads t v := fun t ht =>
      (hwell t ht).reads.imp fun _ hv => hv.2
    choose! g hg using hitems
    refine ⟨_, h.reads (forall₂_map hg), fun k hk => hlength ?_⟩
    obtain ⟨d, hread, -⟩ := Work.except_bind_eq_ok.1 hk
    obtain ⟨_, _, _, _, hfour, -⟩ := items_of_readFields hread
    simpa using congrArg List.length hfour
  | named h hname =>
    obtain ⟨v, hv, hread⟩ := h.reads
    obtain ⟨fault, -, hfault⟩ := ObjectName.fault_of_not_allowed hname
    refine ⟨v, hv, fun k hk => ?_⟩
    rw [hread, make_of_fault hfault] at hk
    cases hk

/-- Whichever way a key is recorded, it is read as that key. A record that gives a field twice, that
lacks one it must have, or that has a name that is not allowed is never read as a key. -/
theorem records_agree :
    (∀ (k : Key) (text : String) (record : List Char),
      Recorded k.owner k.index k.loop k.name.text record → Padded record text.toList →
        readText reader text = .ok k) ∧
    ∀ (text : String) (record : List Char), Refused record → Padded record text.toList →
      ∀ k, readText reader text ≠ .ok k := by
  constructor
  · intro k text record hrecorded hpadded
    obtain ⟨v, hv, hread⟩ := hrecorded.reads_key
    rw [(hv.padded hpadded).readText, hread]
  · intro text record hrefused hpadded k
    obtain ⟨v, hv, hnone⟩ := hrefused.reads
    rw [(hv.padded hpadded).readText]
    exact hnone k

theorem records_agree_sample :
    readText reader ("\x7b \"name\" : \"\\u0061\", \"x\": [null], " ++
      "\"owner\":\"00000000000000000000000000000001\",\"index\":7\x7d") =
        .ok ⟨⟨1⟩, 7, .empty, ⟨"a", by decide⟩⟩ ∧
    ∀ k, readText reader "\x7b\"index\":7,\"index\":7\x7d" ≠ .ok k := by
  have hspace : Blanks [' '] := by simp [Blanks]
  have hleft : ∀ t, Padded t (' ' :: t ++ []) := fun t => .between hspace blanks_nil
  have hboth : ∀ t, Padded t (' ' :: t ++ [' ']) := fun t => .between hspace hspace
  have hseven : WellFormed ['7'] := wellFormed_nat 7
  have hindex := Members.single (padded_self (stringChars "index")) (padded_self ['7'])
  constructor
  · have hunit : CharText 'a' ['\\', 'u', '0', '0', '6', '1'] :=
      .unit (.digits rfl (Text.hexNumber?_eq_some.1 (by decide)))
    have hname : StringText "a" ['\x22', '\\', 'u', '0', '0', '6', '1', '\x22'] :=
      .quoted (s := "a") (.cons hunit .nil)
    have hlist : WellFormed ['[', 'n', 'u', 'l', 'l', ']'] :=
      .array (.items (.single (padded_self "null".toList))) (by simpa using WellFormed.null)
    have hid := stringText_stringChars "00000000000000000000000000000001"
    have hspelling : (Identity.mk 1).Spelling "00000000000000000000000000000001".toList :=
      .plain ⟨by decide, Text.hexNumber?_eq_some.1 (by decide)⟩
    have howner := Members.cons (hleft (stringChars "owner"))
      (padded_self (stringChars "00000000000000000000000000000001")) hindex
    have hmembers := Members.cons (hboth (stringChars "name"))
      (hleft ['\x22', '\\', 'u', '0', '0', '6', '1', '\x22'])
      (.cons (hleft (stringChars "x")) (hleft ['[', 'n', 'u', 'l', 'l', ']']) howner)
    refine records_agree.1 ⟨⟨1⟩, 7, .empty, ⟨"a", by decide⟩⟩ _ _
      (.object ⟨⟨.members hmembers, ?_, ?_⟩, ?_, ?_⟩ ?_ ?_ ?_ ?_) (padded_self _)
    · simp [(stringText_stringChars _).quoted_text]
    · simp [hname.quoted_text, hid.quoted_text, WellFormed.string, hlist, hseven]
    · simp [stringText_stringChars_iff]
    · simp [fieldNames, not_repeats_iff, stringText_stringChars_iff]
    · simpa [Given, stringText_stringChars_iff] using Identity.QuotedText.string hspelling hid
    · simpa [Given, stringText_stringChars_iff] using (by decide : ['7'] = Nat.toDigits 10 7)
    · simp [Lacks, stringText_stringChars_iff]
    · simpa [Given, stringText_stringChars_iff] using hname
  · have htwice := Members.cons (padded_self (stringChars "index")) (padded_self ['7']) hindex
    refine records_agree.2 _ _ (.repeated ⟨.members htwice, ?_, ?_⟩
      (show "index" ∈ fieldNames by decide)
      ⟨_, _, List.Sublist.refl _, stringText_stringChars _, stringText_stringChars _⟩)
      (padded_self _)
    · simp [(stringText_stringChars _).quoted_text]
    · simp [hseven]

end Key

end Depot
