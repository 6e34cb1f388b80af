import Depot.Proofs.Session.Phases

/-! Names in use. The record of an open handle holds the names of the objects made outside of loops
since it was opened, and no others: not those of objects that could not be made, of objects made in
loops, or of copies. -/

namespace Depot

open Work

namespace Handle

variable {h : Handle} {name : String} {loop? : Option LoopContext} {e : NameInUse}

theorem keyRefusal?_ne_nameInUse : h.keyRefusal? name ≠ some (.nameInUse e) := by
  unfold keyRefusal?
  split
  · simp
  · split <;> simp

/-- A name is refused as a duplicate if it may be given and is on record, and not in a loop. -/
theorem refusal?_eq_nameInUse : h.refusal? name loop? = some (.nameInUse e) ↔
    nameFault? name = none ∧ loop? = none ∧
      ∃ used, h.names = some used ∧ name ∈ used ∧ e = ⟨used.handle, name⟩ := by
  unfold refusal?
  split
  · next fault _ hf => simp [hf]
  · next used hf hl =>
    rw [hl]
    split
    · next hused =>
      simp [hf, hused.1, hused.2, eq_comm]
    · next hfree =>
      simp only [keyRefusal?_ne_nameInUse, false_iff]
      rintro ⟨-, hloop, used', hsome, hmem, -⟩
      cases hsome
      exact hfree ⟨hloop, hmem⟩
  · next hf hl =>
    simp only [Option.some.injEq, reduceCtorEq, false_iff]
    rintro ⟨-, -, used, hsome, -⟩
    rw [hl] at hsome
    cases hsome

end Handle

namespace HandleM

variable {name : String} {loop? : Option LoopContext} {s s' : Scene}

/-- What fails with a duplicate name has been refused for that, and has changed nothing. -/
theorem newObject_eq_nameInUse {e : NameInUse} : newObject name loop? s = .error (.nameInUse e) s' ↔
    s.handle.refusal? name loop? = some (.nameInUse e) ∧ s' = s := by
  constructor
  · intro h
    cases hr : s.handle.refusal? name loop? with
    | some cause =>
      rw [newObject_refused hr] at h
      cases h
      exact ⟨rfl, rfl⟩
    | none =>
      -- what is not refused can only fail for the files
      obtain ⟨_, -, -, hcase⟩ := newObject_admitted hr
      rw [h] at hcase
      obtain ⟨_, he, -⟩ := hcase
      cases he
  · rintro ⟨hrefused, rfl⟩
    exact newObject_refused hrefused

end HandleM

/-! ## Turns -/

namespace Turn

variable {t : Turn} {h : Handle} {name : String}

/-- The turn makes an object of that name, outside of loops. -/
def Gives (t : Turn) (h : Handle) (name : String) : Prop :=
  t.request = .create name ∧ ∃ key, answer (t.outcome h) = .ok (.key key)

theorem isOwn_of_create (hr : t.request = .create name) (h : Handle) : t.IsOwn h := by
  intro key hk
  rw [hr] at hk
  cases hk

theorem answer_of_create (hr : t.request = .create name) (h : Handle) :
    answer (t.outcome h) = (answer (HandleM.createObject name (t.scene h))).map .key := by
  rw [answer_eq (isOwn_of_create hr h), work, hr, answer_answer]

theorem next_of_create (hr : t.request = .create name) (h : Handle) :
    t.next h = (left (HandleM.createObject name (t.scene h))).handle := by
  rw [next_eq, work, hr, left_answer]

/-- A request for an object is refused as a duplicate if its name is on record and may be given. -/
theorem answer_nameInUse (hr : t.request = .create name) {e : NameInUse} :
    answer (t.outcome h) = .error (.nameInUse e) ↔
      h.refusal? name none = some (.nameInUse e) := by
  rw [answer_of_create hr]
  change (answer (HandleM.newObject name none (t.scene h))).map Reply.key = _ ↔ _
  constructor
  · intro he
    cases hc : HandleM.newObject name none (t.scene h) with
    | ok key s' =>
      rw [hc] at he
      cases he
    | error e' s' =>
      rw [hc] at he
      cases he
      exact (HandleM.newObject_eq_nameInUse.1 hc).1
  · intro hrefused
    rw [HandleM.newObject_eq_nameInUse.2 ⟨hrefused, rfl⟩]
    rfl

/-- What is refused as a duplicate changes nothing. -/
theorem outcome_nameInUse (hr : t.request = .create name) {e : NameInUse}
    (hrefused : h.refusal? name none = some (.nameInUse e)) :
    t.outcome h = .error (.nameInUse e) (t.before h) := by
  have hfail : HandleM.newObject name none (t.scene h) = .error (.nameInUse e) (t.scene h) :=
    HandleM.newObject_refused hrefused
  rw [HandleM.newObject] at hfail
  have hidle : left (t.work h (t.scene h)) = t.scene h := by
    rw [work, hr, left_answer, hfail, left_error]
  have hleft := left_idle (isOwn_of_create hr h) (by simp [hr]) hidle
  have hanswer := (answer_nameInUse hr).2 hrefused
  cases ho : t.outcome h with
  | ok reply s =>
    rw [ho] at hanswer
    cases hanswer
  | error e' s =>
    rw [ho] at hanswer hleft
    cases hanswer
    cases hleft
    rfl

/-- In a loop there are no duplicates. -/
theorem answer_of_loop {loop : LoopContext} (hr : t.request = .createInLoop name loop) (h : Handle)
    (e : NameInUse) : answer (t.outcome h) ≠ .error (.nameInUse e) := by
  have hown : t.IsOwn h := by
    intro key hk
    rw [hr] at hk
    cases hk
  rw [answer_eq hown, work, hr, answer_answer]
  cases hc : HandleM.createInLoop name loop (t.scene h) with
  | ok key s' => simp [Except.map]
  | error e' s' =>
    intro he
    cases he
    have hrefused : (t.scene h).handle.refusal? name (some loop) = some (.nameInUse e) ∧ _ :=
      HandleM.newObject_eq_nameInUse.1 hc
    obtain ⟨-, hloop, -⟩ := Handle.refusal?_eq_nameInUse.1 hrefused.1
    cases hloop

theorem gives_of_minted (hr : t.request = .create name) {key : Key} (hk : t.minted? h = some key) :
    t.Gives h name := by
  refine ⟨hr, ?_⟩
  unfold minted? at hk
  split at hk
  · next key' ha => exact ⟨key', ha⟩
  · cases hk

/-- A name that is given is one that objects may have. -/
theorem Gives.sound (hg : t.Gives h name) : nameFault? name = none := by
  obtain ⟨hr, key, hk⟩ := hg
  rw [answer_of_create hr] at hk
  cases hc : HandleM.createObject name (t.scene h) with
  | ok key s' =>
    obtain ⟨-, -, s₁, -, -, -, ha, -⟩ := HandleM.createObject_ok hc
    obtain ⟨-, -, -, hname, -⟩ := HandleM.allocate_ok ha
    rw [← hname]
    exact key.name.sound
  | error e s' =>
    rw [hc] at hk
    cases hk

/-! ## What a turn does to the record -/

theorem names_of_create {given : String} (hr : t.request = .create given) {names : UsedNames}
    (hn : (t.next h).names = some names) : ∃ used, h.names = some used ∧
      names.handle = used.handle ∧ ∀ name, name ∈ names ↔ t.Gives h name ∨ name ∈ used := by
  have hgives : ∀ name, t.Gives h name ↔ given = name ∧
      ∃ key, (answer (HandleM.createObject given (t.scene h))).map Reply.key = .ok (.key key) := by
    intro name
    rw [Gives, answer_of_create hr, hr, Request.create.injEq]
  simp only [hgives]
  rw [next_of_create hr] at hn
  cases hc : HandleM.createObject given (t.scene h) with
  | ok key s' =>
    obtain ⟨used, names', s₁, hl, hfree, hadd, -, rfl⟩ := HandleM.createObject_ok hc
    rw [UsedNames.add_of_unused hfree] at hadd
    cases hadd
    rw [hc] at hn
    cases hn
    refine ⟨used, hl, rfl, fun name => ?_⟩
    have hmem : name ∈ given :: used.names ↔ given = name ∨ name ∈ used.names := by
      rw [List.mem_cons, eq_comm]
    simp only [answer_ok, Except.map, Except.ok.injEq, Reply.key.injEq, exists_eq', and_true]
    exact hmem
  | error e s' =>
    rw [hc, left_error, (HandleM.createObject_error hc).names] at hn
    exact ⟨names, hn, rfl, fun name => by simp [Except.map]⟩

/-- A record starts empty when the handle is opened; after that, what is put on it is just the name
of an object made outside of loops. -/
theorem next_names (hc : h.Coherent) {names : UsedNames} (hn : (t.next h).names = some names) :
    t.request = .reopen ∧ names = .none h.id ∨
      t.request ≠ .reopen ∧ ∃ used, h.names = some used ∧ names.handle = used.handle ∧
        ∀ name, name ∈ names ↔ t.Gives h name ∨ name ∈ used := by
  by_cases hreopen : t.request = .reopen
  · rw [next_reopen hreopen] at hn
    split at hn
    · next hd =>
      rw [(hc.ended (Handle.isDisposed_iff.1 hd)).names] at hn
      cases hn
    · cases hn
      exact Or.inl ⟨hreopen, rfl⟩
  refine Or.inr ⟨hreopen, ?_⟩
  by_cases hcreate : ∃ given, t.request = .create given
  · obtain ⟨given, hr⟩ := hcreate
    exact names_of_create hr hn
  -- whatever else the turn does, it leaves the record or ends it
  have hnone : ∀ name, ¬t.Gives h name := fun name hg => hcreate ⟨name, hg.1⟩
  have hsame : h.names = some names := by
    have he := t.effect h
    generalize t.next h = h', t.minted? h = minted?, t.breaksOff h = breaksOff at he hn
    cases he with
    | settled _ hm => rwa [hm.names] at hn
    | unreserved _ _ _ _ hm => rwa [hm.names] at hn
    | reopened hr => exact absurd hr hreopen
    | closed => cases hn
    | disposed => cases hn
    | created _ _ _ hmakes =>
      generalize t.request = request at hmakes hcreate
      cases hmakes with
      | alone => exact absurd ⟨_, rfl⟩ hcreate
      | looped hl =>
        cases hn
        exact hl
    | _ => exact hn
  exact ⟨names, hsame, rfl, fun name => by simp [hnone name]⟩

end Turn

/-! ## Runs -/

namespace Handle

variable {h : Handle} {turns : List Turn} {t : Turn} {name : String}

/-- An object of that name was made outside of loops, and the handle was not opened again since. -/
def Given (h : Handle) (turns : List Turn) (name : String) : Prop :=
  ∃ before t later, turns = before ++ t :: later ∧ t.Gives (h.after before) name ∧
    ∀ u ∈ later, u.request ≠ .reopen

theorem given_concat : h.Given (turns ++ [t]) name ↔
    t.Gives (h.after turns) name ∨ t.request ≠ .reopen ∧ h.Given turns name := by
  constructor
  · rintro ⟨before, u, later, hturns, hgives, hone⟩
    rcases List.eq_nil_or_concat later with rfl | ⟨later, last, rfl⟩
    · obtain ⟨rfl, hlast⟩ := List.append_inj' hturns rfl
      cases hlast
      exact Or.inl hgives
    · have hsplit : before ++ u :: later.concat last = before ++ u :: later ++ [last] := by simp
      rw [hsplit] at hturns
      obtain ⟨rfl, hlast⟩ := List.append_inj' hturns rfl
      cases hlast
      rw [List.concat_eq_append, List.forall_mem_append, List.forall_mem_singleton] at hone
      exact Or.inr ⟨hone.2, before, u, later, rfl, hgives, hone.1⟩
  · rintro (hgives | ⟨hlast, before, u, later, rfl, hgives, hone⟩)
    · exact ⟨turns, t, [], rfl, hgives, nofun⟩
    · refine ⟨before, u, later ++ [t], by simp, hgives, ?_⟩
      rw [List.forall_mem_append, List.forall_mem_singleton]
      exact ⟨hone, hlast⟩

theorem Given.sound (hg : h.Given turns name) : nameFault? name = none := by
  obtain ⟨before, t, later, -, hgives, -⟩ := hg
  exact hgives.sound

/-- The record of a handle is what it has given. -/
theorem names_after (hadm : h.Admitted) {names : UsedNames}
    (hn : (h.after turns).names = some names) :
    names.handle = h.id ∧ ∀ name, name ∈ names ↔ h.Given turns name := by
  induction turns using List.reverseRecOn generalizing names with
  | nil =>
    rw [after, List.foldl_nil, hadm.names] at hn
    cases hn
  | append_singleton turns t ih =>
    have hafter : h.after (turns ++ [t]) = t.next (h.after turns) := h.after_append turns [t]
    rw [hafter] at hn
    rcases t.next_names (hadm.coherent.after turns) hn with
      ⟨hreopen, rfl⟩ | ⟨hone, used, hused, hhandle, hnames⟩
    · refine ⟨(h.after_same turns).id, fun name => ?_⟩
      have hempty : name ∉ UsedNames.none (h.after turns).id := List.not_mem_nil
      have hgives : ¬t.Gives (h.after turns) name := fun hg => by
        rw [hg.1] at hreopen
        cases hreopen
      rw [given_concat]
      simp [hempty, hgives, hreopen]
    · obtain ⟨hid, hmem⟩ := ih hused
      refine ⟨hhandle.trans hid, fun name => ?_⟩
      rw [hnames, given_concat, hmem]
      simp [hone]

/-- What is refused as a duplicate in a run has been given in it. -/
theorem refusal?_after (hadm : h.Admitted) {e : NameInUse} :
    (h.after turns).refusal? name none = some (.nameInUse e) ↔
      (h.after turns).isOpen ∧ h.Given turns name ∧ e = ⟨h.id, name⟩ := by
  rw [refusal?_eq_nameInUse]
  constructor
  · rintro ⟨-, -, used, hused, hmem, rfl⟩
    obtain ⟨hid, hnames⟩ := names_after hadm hused
    rw [hid]
    exact ⟨Option.isSome_iff_exists.2 ⟨used, hused⟩, (hnames name).1 hmem, rfl⟩
  · rintro ⟨hopen, hgiven, rfl⟩
    obtain ⟨used, hused⟩ := Option.isSome_iff_exists.1 hopen
    obtain ⟨hid, hnames⟩ := names_after hadm hused
    exact ⟨hgiven.sound, rfl, used, hused, (hnames name).2 hgiven, by rw [hid]⟩

end Handle

/-- When a name is a duplicate, in any run. A request for an object is refused for its name by an
open handle if and only if the handle has made an object of that name, outside of loops, since it
was opened last; the refusal names the handle and the name and changes nothing. Whatever else is
done makes no name a duplicate that was none: requests that fail, objects made in loops and copies,
however they are called. In a loop no name is a duplicate, and after a handle has been opened, for
the first time or again, closed in between or not, none is. -/
theorem duplicates_exact {h : Handle} (hadm : h.Admitted) (turns : List Turn) :
    let now := h.after turns
    (∀ (t : Turn) (name : String), t.request = .create name → now.isOpen →
      ((∃ e, answer (t.outcome now) = .error (.nameInUse e)) ↔ h.Given turns name) ∧
      (h.Given turns name →
        t.outcome now = .error (.nameInUse ⟨h.id, name⟩) (t.before now))) ∧
    (∀ (u t : Turn) (name : String) (e : NameInUse), t.request = .create name →
      answer (t.outcome (u.next now)) = .error (.nameInUse e) →
        u.Gives now name ∨ answer (t.outcome now) = .error (.nameInUse e)) ∧
    (∀ (t : Turn) (name : String) (loop : LoopContext) (e : NameInUse),
      t.request = .createInLoop name loop → answer (t.outcome now) ≠ .error (.nameInUse e)) ∧
    (∀ (u t : Turn) (name : String) (e : NameInUse), u.request = .reopen →
      t.request = .create name → answer (t.outcome (u.next now)) ≠ .error (.nameInUse e)) := by
  intro now
  have hnext : ∀ u : Turn, u.next now = h.after (turns ++ [u]) := fun u =>
    (h.after_append turns [u]).symm
  refine ⟨fun t name hr hopen => ⟨⟨?_, fun hgiven => ?_⟩, fun hgiven => ?_⟩, ?_, ?_, ?_⟩
  · rintro ⟨e, he⟩
    exact ((Handle.refusal?_after hadm).1 ((Turn.answer_nameInUse hr).1 he)).2.1
  · exact ⟨_, (Turn.answer_nameInUse hr).2 ((Handle.refusal?_after hadm).2 ⟨hopen, hgiven, rfl⟩)⟩
  · exact Turn.outcome_nameInUse hr ((Handle.refusal?_after hadm).2 ⟨hopen, hgiven, rfl⟩)
  · intro u t name e hr he
    rw [Turn.answer_nameInUse hr, hnext, Handle.refusal?_after hadm, ← hnext, Handle.given_concat] at he
    obtain ⟨hopen, hgives | ⟨hone, hgiven⟩, rfl⟩ := he
    · exact Or.inl hgives
    · -- a handle that is open after a turn that does not open it was open before
      refine Or.inr ((Turn.answer_nameInUse hr).2 ((Handle.refusal?_after hadm).2 ⟨?_, hgiven, rfl⟩))
      obtain ⟨names, hn⟩ := Option.isSome_iff_exists.1 hopen
      rcases u.next_names (hadm.coherent.after turns) hn with ⟨hreopen, -⟩ | ⟨-, used, hused, -⟩
      · exact absurd hreopen hone
      · exact Option.isSome_iff_exists.2 ⟨used, hused⟩
  · exact fun t name loop e hr => Turn.answer_of_loop hr now e
  · intro u t name e hreopen hr he
    rw [Turn.answer_nameInUse hr, hnext, Handle.refusal?_after hadm, Handle.given_concat] at he
    obtain ⟨-, ⟨hcreate, -⟩ | ⟨hone, -⟩, -⟩ := he
    · rw [hreopen] at hcreate
      cases hcreate
    · exact hone hreopen

namespace Sample

def making : Turn := turn (.create "a") files

end Sample

theorem duplicates_exact_sample : Sample.handle.Admitted ∧
    (Sample.handle.after [Sample.opening, Sample.making]).isOpen ∧
    Sample.making.outcome (Sample.handle.after [Sample.opening, Sample.making]) =
      .error (.nameInUse ⟨⟨5#128⟩, "a"⟩)
        (Sample.making.before (Sample.handle.after [Sample.opening, Sample.making])) := by
  have hopen : (Sample.handle.after [Sample.opening, Sample.making]).isOpen := by decide +kernel
  have hmade : Sample.making.minted? (Sample.handle.after [Sample.opening]) =
      some ⟨⟨5#128⟩, 0, .empty, ⟨"a", by decide⟩⟩ := by decide +kernel
  have hgiven : Sample.handle.Given [Sample.opening, Sample.making] "a" :=
    ⟨[Sample.opening], Sample.making, [], rfl, Turn.gives_of_minted rfl hmade, nofun⟩
  have hexact := duplicates_exact Sample.admitted [Sample.opening, Sample.making]
  exact ⟨Sample.admitted, hopen, (hexact.1 Sample.making "a" rfl hopen).2 hgiven⟩

end Depot
