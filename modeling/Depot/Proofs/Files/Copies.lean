import Depot.Proofs.Files.Filling

/-! What a copy of a directory holds when it has been made: what the source shows, and what was
there before where the source has nothing. -/

namespace Depot

open Work

namespace FileSystem

variable {fs fs' : FileSystem}

/-- What is found at a place when a link there is followed. -/
def shown (fs : FileSystem) (loc : Location) : Option Node :=
  match fs.node? loc, loc.getLast? with
  | some (.link _), some name =>
    match fs.follow .look loc.dropLast name with
    | .ok (.there l) => fs.node? l
    | _ => none
  | node, _ => node

theorem shown_eq {loc : Location} (h : ∀ t, fs.node? loc ≠ some (.link t)) :
    fs.shown loc = fs.node? loc := by
  unfold shown
  split
  · next hn _ => exact absurd hn (h _)
  · rfl

theorem shown_none {loc : Location} (h : fs.node? loc = none) : fs.shown loc = none := by
  rw [shown_eq (by simp [h]), h]

theorem shown_link {dir loc : Location} {name : String} {t : Path}
    (hn : fs.node? (dir ++ [name]) = some (.link t))
    (hf : fs.follow .look dir name = .ok (.there loc)) :
    fs.shown (dir ++ [name]) = fs.node? loc := by
  rw [shown, List.dropLast_concat, List.getLast?_concat, hn]
  dsimp only
  rw [hf]

/-- Whatever a link below the source leads to is not in the target. -/
def LeadsOut (fs : FileSystem) (source target : Location) : Prop :=
  ∀ rest name t loc, fs.node? (source ++ rest ++ [name]) = some (.link t) →
    fs.follow .look (source ++ rest) name = .ok (.there loc) → ¬target <+: loc

theorem LeadsOut.below {source target : Location} (h : fs.LeadsOut source target)
    (rest : Location) : fs.LeadsOut (source ++ rest) target := by
  intro more name t loc hn hf
  rw [List.append_assoc source] at hn hf
  exact h (rest ++ more) name t loc hn hf

theorem LinkFree.leadsOut {source : Location} (h : fs.LinkFree source) (target : Location) :
    fs.LeadsOut source target := by
  intro rest name t loc hn
  rw [List.append_assoc] at hn
  exact absurd hn (h (rest ++ [name]) t)

/-- Neither of two places is in or below the other. -/
def Apart (source target : Location) : Prop := ¬source <+: target ∧ ¬target <+: source

theorem Apart.outside {source target : Location} (h : Apart source target) (rest : Location) :
    ¬target <+: source ++ rest := by
  intro hp
  rcases List.prefix_or_prefix_of_prefix hp (List.prefix_append source rest) with hp | hp
  · exact h.2 hp
  · exact h.1 hp

/-- A name below a directory is as in the source, and if the source has nothing there, as before.
The source is as `later` files have it, and all of it could be named behind both paths. -/
structure Shows (source target : Path) (origin dir rest : Location)
    (fs fs' later : FileSystem) : Prop where
  node : fs'.node? (dir ++ rest) =
    (later.shown (origin ++ rest)).or (fs.node? (dir ++ rest))
  whole : (later.node? (origin ++ rest)).isSome → (later.shown (origin ++ rest)).isSome
  fits : (later.node? (origin ++ rest)).isSome → Reachable source rest ∧ Reachable target rest

theorem Shows.of_none {source target : Path} {origin dir rest : Location} {later : FileSystem}
    (hs : later.node? (origin ++ rest) = none)
    (hn : fs'.node? (dir ++ rest) = fs.node? (dir ++ rest)) :
    Shows source target origin dir rest fs fs' later where
  node := by rw [shown_none hs, hn, Option.none_or]
  whole h := by simp [hs] at h
  fits h := by simp [hs] at h

end FileSystem

namespace FileM

open FileSystem

variable {fs fs' later : FileSystem} {order : ListingOrder} {levels : Nat}
  {source target : Path} {origin dir outer : Location}

/-- A file, or what a link leads to, is copied as it is found later. -/
theorem shows_file {name : String} {count n : Nat} (hfrom : fs.Leads source origin)
    (hadmits : fs.Admits target dir) (hplain : Path.IsPlain name) (hin : outer <+: dir)
    (hout : ∀ rest, ¬outer <+: origin ++ rest) (hlater : Fills outer fs' later)
    (hlinks : later.LeadsOut origin outer) (hdir : fs.node? (origin ++ [name]) ≠ some .dir)
    (h : (do
      change (·.copyFile (source.child name) (target.child name))
      return count + 1 : FileM Nat) fs = .ok n fs') (rest : Location) :
    Shows source target origin dir (name :: rest) fs fs' later := by
  obtain ⟨_, _, hc, hp⟩ := bind_eq_ok.1 h
  cases hp
  obtain ⟨loc, content, hs, ⟨place, hopened⟩, hputs⟩ := copyFile_puts hadmits.fill.stands hplain
    (fun now place hf hp => isAt_child (hadmits.leads.mono hf.grows) hplain
      (hf.linkFree hadmits.fill.free [name]) hp) (change_eq_ok.1 hc)
  have hfills : Fills outer fs later :=
    (hputs.fills.widen (hin.trans (List.prefix_append ..))).trans hlater
  have hsource : ∀ r, later.node? (origin ++ r) = fs.node? (origin ++ r) := fun r =>
    hfills.outside _ (hout r)
  have hread := resolve_of_status hs
  have hn := (leads_of_status hs).2.1
  have hfrom' := follow_of_resolve hfrom hplain hread
  have hfollow : later.follow .look origin name = .ok (.there loc) := walk_mono hfills.grows hfrom'
  have hfound : ¬outer <+: loc ∧ later.shown (origin ++ [name]) = later.node? loc := by
    obtain ⟨-, hstep⟩ := step_of_ok hfrom'
    cases hstep with
    | idle hidle _ => exact absurd hidle (by simp [hplain.nonempty, hplain.notDot])
    | up hup _ => exact absurd hup hplain.notDots
    | free _ _ _ hplace => cases hplace
    | link _ hnode _ _ =>
      rw [← hsource] at hnode
      refine ⟨hlinks [] name _ loc (by simpa using hnode) (by simpa using hfollow), ?_⟩
      exact shown_link hnode hfollow
    | down _ hnode hsolid hw =>
      rw [walk_nil] at hw
      cases hw
      refine ⟨hout [name], shown_eq fun t ht => ?_⟩
      rw [hsource, hnode] at ht
      exact hsolid t (Option.some.inj ht)
  obtain ⟨hloc, hshown⟩ := hfound
  rw [hfills.outside loc hloc, hn] at hshown
  have hne : loc ≠ dir ++ [name] := by
    rintro rfl
    exact hloc (hin.trans (List.prefix_append ..))
  rw [if_neg hne] at hputs
  by_cases hrest : rest = []
  · subst hrest
    refine ⟨?_, fun _ => by rw [hshown]; rfl, fun _ =>
      ⟨reachable_of_resolve hfrom hplain hread, reachable_of_resolve hadmits.leads hplain hopened⟩⟩
    rw [hputs.here, hshown, Option.some_or]
  · apply Shows.of_none
    · have hsplit : origin ++ name :: rest = origin ++ [name] ++ rest := by simp
      rw [hsource, hsplit, node?_below hdir hrest]
    · exact hputs.below hrest

/-- The copy of a directory of the source shows what that holds. -/
theorem shows_inner {name : String} {count n : Nat}
    (ih : ∀ {source target origin dir fs n fs'}, fs.Leads source origin →
      fs.Admits target dir → outer <+: dir → (∀ rest, ¬outer <+: origin ++ rest) →
      Fills outer fs' later → later.LeadsOut origin outer →
      copyLevel order levels source target fs = .ok n fs' →
      ∀ rest ≠ [], Shows source target origin dir rest fs fs' later)
    (hfrom : fs.Leads source origin) (hadmits : fs.Admits target dir)
    (hplain : Path.IsPlain name) (hin : outer <+: dir) (hout : ∀ rest, ¬outer <+: origin ++ rest)
    (hlater : Fills outer fs' later) (hlinks : later.LeadsOut origin outer)
    (hdir : fs.node? (origin ++ [name]) = some .dir)
    (h : (do
      mkdirAll (target.child name)
      return count + (← copyLevel order levels (source.child name) (target.child name)) :
        FileM Nat) fs = .ok n fs') (rest : Location) :
    Shows source target origin dir (name :: rest) fs fs' later := by
  obtain ⟨u, fs₁, hm, h⟩ := bind_eq_ok.1 h
  obtain ⟨hputs, hadmits₁⟩ := admits_child hadmits hplain hm
  obtain ⟨k, fs₂, hc, hp⟩ := bind_eq_ok.1 h
  cases hp
  have hin' : outer <+: dir ++ [name] := hin.trans (List.prefix_append ..)
  have hlevel : Fills (dir ++ [name]) fs₁ fs' :=
    Keeps.ok (fills_copyLevel order levels _ _ _) hc hadmits₁
  have hgrows := (hputs.fills.trans hlevel).grows.trans hlater.grows
  have hdir' : later.node? (origin ++ [name]) = some .dir := hgrows.dir hdir
  obtain ⟨hfrom₁, hreach⟩ := leads_of_copied hfrom hplain hputs.fills.grows hdir hc
  have htarget := reachable_of_mkdirAll hplain hm
  by_cases hrest : rest = []
  · subst hrest
    have hshown : later.shown (origin ++ [name]) = some .dir := by
      rw [shown_eq (by simp [hdir']), hdir']
    refine ⟨?_, fun _ => by rw [hshown]; rfl, fun _ => ⟨hreach, htarget⟩⟩
    rw [hlevel.grows.dir hputs.here, hshown, Option.some_or]
  · have hinner := ih hfrom₁ hadmits₁ hin' (fun r => by simpa using hout (name :: r)) hlater
      (hlinks.below [name]) hc rest hrest
    have hs : origin ++ [name] ++ rest = origin ++ name :: rest := by simp
    have ht : dir ++ [name] ++ rest = dir ++ name :: rest := by simp
    obtain ⟨hnode, hwhole, hfits⟩ := hinner
    rw [hs] at hnode hwhole hfits
    rw [ht, hputs.below hrest] at hnode
    refine ⟨hnode, hwhole, fun hsome => ?_⟩
    have hall : ∀ n ∈ name :: rest, Path.IsPlain n :=
      (hlater.names (hlevel.names hadmits₁.fill.names)).plain hsome
    obtain ⟨hsource, htarget'⟩ := hfits hsome
    have hshort : name.utf8ByteSize ≤ longestName := htarget.2 name (List.mem_cons_self ..)
    exact ⟨(reachable_cons hall hrest).2 ⟨hshort, hsource⟩,
      (reachable_cons hall hrest).2 ⟨hshort, htarget'⟩⟩

/-- What the names copied so far show is not touched by those that follow. -/
theorem shows_names {names : List String} {count n : Nat}
    (hentry : ∀ {fs fs' : FileSystem} {name : String} {count n : Nat}, name ∈ names →
      fs.Leads source origin → fs.Admits target dir → Fills outer fs' later →
      copyEntry (copyLevel order levels) source target origin count name fs = .ok n fs' →
      ∀ rest, Shows source target origin dir (name :: rest) fs fs' later)
    (hplain : ∀ name ∈ names, Path.IsPlain name) (hfrom : fs.Leads source origin)
    (hadmits : fs.Admits target dir) (hin : outer <+: dir) (hlater : Fills outer fs' later)
    (h : names.foldlM (copyEntry (copyLevel order levels) source target origin) count fs =
      .ok n fs') (name : String) (rest : Location) :
    if name ∈ names then Shows source target origin dir (name :: rest) fs fs' later
    else fs'.node? (dir ++ name :: rest) = fs.node? (dir ++ name :: rest) := by
  induction names generalizing fs count with
  | nil =>
    cases h
    simp
  | cons first names ih =>
    obtain ⟨k, fs₁, hfirst, hrest⟩ := bind_eq_ok.1 h
    have hplain' : ∀ name ∈ names, Path.IsPlain name := fun n hn =>
      hplain n (List.mem_cons_of_mem _ hn)
    have hstep : Fills (dir ++ [first]) fs fs₁ :=
      Keeps.ok (fills_copyEntry (hplain first (List.mem_cons_self ..))
        (fills_copyLevel order levels _ _ _) count) hfirst hadmits
    have hfrom₁ := hfrom.mono hstep.grows
    have hadmits₁ := hadmits.after hstep
    have hfold : Fills dir fs₁ fs' := Keeps.ok (fills_copyNames hplain'
      (fun name => fills_copyLevel order levels _ _ _) k) hrest hadmits₁
    have hlater' : Fills outer fs₁ later := (hfold.widen hin).trans hlater
    have hnow := hentry (List.mem_cons_self ..) hfrom hadmits hlater' hfirst rest
    have hlast := ih (fun hn => hentry (List.mem_cons_of_mem _ hn)) hplain' hfrom₁ hadmits₁ hrest
    by_cases he : name = first
    · subst he
      rw [if_pos (List.mem_cons_self ..)]
      split at hlast
      · refine ⟨?_, hnow.whole, hnow.fits⟩
        rw [hlast.node, hnow.node]
        cases later.shown (origin ++ name :: rest) <;> rfl
      · exact ⟨hlast.trans hnow.node, hnow.whole, hnow.fits⟩
    · have hsame : fs₁.node? (dir ++ name :: rest) = fs.node? (dir ++ name :: rest) := by
        apply hstep.outside
        simp [List.prefix_append_right_inj, List.cons_prefix_cons, Ne.symm he]
      simp only [List.mem_cons, he, false_or]
      split at hlast
      · next hmem =>
        rw [if_pos hmem]
        exact ⟨hlast.node.trans (by rw [hsame]), hlast.whole, hlast.fits⟩
      · next hmem =>
        rw [if_neg hmem, hlast, hsame]

/-- A directory that has been copied shows what the source shows. -/
theorem shows_copyLevel {n : Nat} (hfrom : fs.Leads source origin) (hadmits : fs.Admits target dir)
    (hin : outer <+: dir) (hout : ∀ rest, ¬outer <+: origin ++ rest)
    (hlater : Fills outer fs' later) (hlinks : later.LeadsOut origin outer)
    (h : copyLevel order levels source target fs = .ok n fs') :
    ∀ rest ≠ [], Shows source target origin dir rest fs fs' later := by
  induction levels generalizing source target origin dir fs fs' n with
  | zero => cases h
  | succ levels ih =>
    intro rest hrest
    have hfills : Fills dir fs fs' := Keeps.ok (fills_copyLevel order _ _ _ _) h hadmits
    obtain ⟨_, origin', hlevels, hstatus, h⟩ := copyLevel_ok h
    cases hlevels
    cases hfrom.unique (leads_of_status hstatus).1
    have hplain : ∀ name ∈ order.arrange origin (fs.children origin), Path.IsPlain name :=
      fun name hname => (plain_of_children hadmits.fill.names hname).2
    cases rest with
    | nil => exact absurd rfl hrest
    | cons name rest =>
      have hnames := shows_names (fun {fs fs' name count n} hname hfrom hadmits hlater he rest => by
        have hname' := hplain name hname
        rw [copyEntry_apply] at he
        split at he
        · next hdir =>
          exact shows_inner ih hfrom hadmits hname' hin hout hlater hlinks hdir he rest
        · next hdir =>
          exact shows_file hfrom hadmits hname' hin hout hlater hlinks hdir he rest)
        hplain hfrom hadmits hin hlater h name rest
      split at hnames
      · exact hnames
      · next hmem =>
        -- what is not among the names is not in the source
        refine .of_none ?_ hnames
        have hnone : fs.node? (origin ++ [name]) = none := by
          cases hn : fs.node? (origin ++ [name]) with
          | none => rfl
          | some node =>
            refine absurd ((order.perm origin (fs.children origin)).mem_iff.2 ?_) hmem
            exact mem_children.2 (by rw [hn]; rfl)
        have hsplit : origin ++ name :: rest = origin ++ [name] ++ rest := by simp
        rw [((hfills.widen hin).trans hlater).outside _ (hout _), hsplit]
        exact node?_append_of_none hnone rest

end FileM

end Depot
