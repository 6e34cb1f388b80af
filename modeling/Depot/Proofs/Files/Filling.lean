import Depot.Files.Copy
import Depot.Proofs.Files.Children

/-! Filling a directory. Whatever comes of copying, nothing changes outside the target, nothing
that was there is gone, and no link is made. -/

namespace Depot

open Work

namespace FileSystem

variable {fs fs' : FileSystem} {dir : Location} {name : String}

/-- There is more at a place or below it, and nothing else has changed. -/
structure Fills (target : Location) (fs fs' : FileSystem) : Prop where
  outside : ∀ loc, ¬target <+: loc → fs'.node? loc = fs.node? loc
  grows : Grows fs fs'
  links : ∀ loc t, fs'.node? loc = some (.link t) → fs.node? loc = some (.link t)
  names : fs.Named → fs'.Named

namespace Fills

variable {target : Location}

theorem refl (target : Location) (fs : FileSystem) : Fills target fs fs where
  outside _ _ := rfl
  grows := .refl fs
  links _ _ h := h
  names := id

theorem trans {a b c : FileSystem} (hab : Fills target a b) (hbc : Fills target b c) :
    Fills target a c where
  outside loc h := (hbc.outside loc h).trans (hab.outside loc h)
  grows := hab.grows.trans hbc.grows
  links loc t h := hab.links loc t (hbc.links loc t h)
  names := hbc.names ∘ hab.names

theorem widen {inner : Location} (h : Fills inner fs fs') (ht : target <+: inner) :
    Fills target fs fs' where
  outside loc hloc := h.outside loc fun hp => hloc (ht.trans hp)
  grows := h.grows
  links := h.links
  names := h.names

theorem linkFree (h : Fills target fs fs') {loc : Location} (hfree : fs.LinkFree loc) :
    fs'.LinkFree loc := fun rest t hn => hfree rest t (h.links _ t hn)

end Fills

/-- A directory in which names stand for themselves. -/
structure Fillable (fs : FileSystem) (dir : Location) : Prop where
  stands : fs.node? dir = some .dir
  free : fs.LinkFree dir
  names : fs.Named

theorem Fillable.after {target : Location} (h : fs.Fillable dir) (hf : Fills target fs fs') :
    fs'.Fillable dir := ⟨hf.grows.dir h.stands, hf.linkFree h.free, hf.names h.names⟩

theorem Fillable.inner {rest : Location} (h : fs.Fillable dir)
    (hd : fs.node? (dir ++ rest) = some .dir) : fs.Fillable (dir ++ rest) :=
  ⟨hd, h.free.below rest, h.names⟩

/-- A path leads to a directory in which names stand for themselves. -/
structure Admits (fs : FileSystem) (p : Path) (dir : Location) : Prop where
  leads : fs.Leads p dir
  fill : fs.Fillable dir

theorem Admits.after {target : Location} {p : Path} (h : fs.Admits p dir)
    (hf : Fills target fs fs') : fs'.Admits p dir := ⟨h.leads.mono hf.grows, h.fill.after hf⟩

/-! ## One node -/

/-- A name in a directory has its node, which is new there or like the one before. -/
structure Puts (dir : Location) (name : String) (node : Node) (fs fs' : FileSystem) : Prop where
  nodes : ∀ loc, fs'.node? loc = if loc = dir ++ [name] then some node else fs.node? loc
  old : ∀ before, fs.node? (dir ++ [name]) = some before → before.Like node
  plain : Path.IsPlain name
  solid : ∀ t, node ≠ .link t

namespace Puts

variable {node : Node}

theorem fills (h : Puts dir name node fs fs') : Fills (dir ++ [name]) fs fs' where
  outside loc hloc := by
    rw [h.nodes, if_neg]
    rintro rfl
    exact hloc (List.prefix_refl _)
  grows loc before hn := by
    rw [h.nodes]
    split
    · next he =>
      subst he
      exact ⟨node, rfl, h.old before hn⟩
    · exact ⟨before, hn, .refl before⟩
  links loc t hn := by
    rw [h.nodes] at hn
    split at hn
    · exact absurd (Option.some.inj hn) (h.solid t)
    · exact hn
  names hnamed d n hs := by
    rw [h.nodes] at hs
    split at hs
    · next he =>
      obtain ⟨-, he⟩ := List.append_inj' he rfl
      cases he
      exact h.plain
    · exact hnamed d n hs

theorem here (h : Puts dir name node fs fs') : fs'.node? (dir ++ [name]) = some node := by
  rw [h.nodes, if_pos rfl]

theorem below (h : Puts dir name node fs fs') {rest : Location} (hrest : rest ≠ []) :
    fs'.node? (dir ++ name :: rest) = fs.node? (dir ++ name :: rest) := by
  rw [h.nodes, if_neg]
  simpa using hrest

end Puts

theorem puts_add {node : Node} (hdir : fs.node? dir = some .dir) (hplain : Path.IsPlain name)
    (hnone : fs.node? (dir ++ [name]) = none) (hsolid : ∀ t, node ≠ .link t) :
    Puts dir name node fs (fs.add dir name node) where
  nodes := node?_add node hdir hnone
  old before hn := by
    rw [hnone] at hn
    cases hn
  plain := hplain
  solid := hsolid

/-- A place that a name in a directory stands for. -/
def IsAt (fs : FileSystem) (dir : Location) (name : String) (place : Place) : Prop :=
  place = .there (dir ++ [name]) ∧ (fs.node? (dir ++ [name])).isSome ∨
    place = .free dir name ∧ fs.node? (dir ++ [name]) = none

theorem isAt_of_follow {why : Purpose} {place : Place}
    (hsolid : ∀ t, fs.node? (dir ++ [name]) ≠ some (.link t)) (hplain : Path.IsPlain name)
    (h : fs.follow why dir name = .ok place) : fs.IsAt dir name place := by
  obtain ⟨-, hstep⟩ := step_of_ok h
  cases hstep with
  | idle hidle _ => exact absurd hidle (by simp [hplain.nonempty, hplain.notDot])
  | up hup _ => exact absurd hup hplain.notDots
  | free _ hn _ hplace => exact Or.inr ⟨hplace, hn⟩
  | link _ hn _ _ => exact absurd hn (hsolid _)
  | down _ hn _ hw =>
    rw [walk_nil] at hw
    cases hw
    exact Or.inl ⟨rfl, by rw [hn]; rfl⟩

/-- A name leads to itself, or can be taken, unless it is a link. -/
theorem isAt_last {why : Purpose} {links : Nat} (hdir : fs.node? dir = some .dir)
    (hs : Sought why name []) (hsolid : ∀ t, fs.node? (dir ++ [name]) ≠ some (.link t)) :
    ∃ place, fs.walk why links dir [name] = .ok place ∧ fs.IsAt dir name place := by
  cases hn : fs.node? (dir ++ [name]) with
  | none =>
    refine ⟨.free dir name, ?_, Or.inr ⟨rfl, hn⟩⟩
    rw [walk_sought hdir hs, hn]
    rfl
  | some node =>
    refine ⟨.there (dir ++ [name]), ?_, Or.inl ⟨rfl, by rw [hn]; rfl⟩⟩
    rw [walk_down hdir hs hn fun t ht => hsolid t (by rw [hn, ht]), walk_nil]

theorem puts_fill {place : Place} {content : Content} (hdir : fs.node? dir = some .dir)
    (hplain : Path.IsPlain name) (hat : fs.IsAt dir name place)
    (h : fs.fill place content = .ok fs') : Puts dir name (.file content) fs fs' := by
  rcases hat with ⟨rfl, hs⟩ | ⟨rfl, hn⟩
  · rw [fill] at h
    split at h
    · next old hold =>
      cases h
      refine ⟨node?_setContent content hold, ?_, hplain, by simp⟩
      intro before hb
      rw [hold] at hb
      cases hb
      exact .file old content
    · cases h
  · cases h
    exact puts_add hdir hplain hn (by simp)

/-! ## One directory -/

section Last

variable {p : Path} {above : List String} (hadds : AddsDirs (p :: p.ancestors) fs fs')
  (hsegs : p.segments = above ++ [name])
  (hw : fs.walk .look linkLimit [] above = .ok (.there dir)) (hdir : fs.node? dir = some .dir)
  (hplain : Path.IsPlain name) (hsolid : ∀ t, fs.node? (dir ++ [name]) ≠ some (.link t))
include hadds hsegs hw hdir hplain hsolid

/-- Making a path whose last name is in a directory changes nothing elsewhere. -/
theorem AddsDirs.fills_last : Fills (dir ++ [name]) fs fs' where
  outside loc hloc := by
    cases hn : fs.node? loc with
    | some node => exact hadds.old loc node hn
    | none =>
      cases hn' : fs'.node? loc with
      | none => rfl
      | some node =>
        have he := hadds.last hsegs hw hdir hplain hsolid hn (by rw [hn']; rfl)
        exact absurd (he ▸ List.prefix_refl _) hloc
  grows := hadds.old.grows
  links := hadds.links
  names := hadds.names

theorem AddsDirs.puts_last (hmade : fs'.node? (dir ++ [name]) = some .dir) :
    Puts dir name .dir fs fs' where
  nodes loc := by
    split
    · next he => rw [he, hmade]
    · next hne =>
      cases hn : fs.node? loc with
      | some node => exact hadds.old loc node hn
      | none =>
        cases hn' : fs'.node? loc with
        | none => rfl
        | some node =>
          exact absurd (hadds.last hsegs hw hdir hplain hsolid hn (by rw [hn']; rfl)) hne
  old before hb := by
    have hb' := hadds.old _ _ hb
    rw [hmade] at hb'
    cases hb'
    exact .dir
  plain := hplain
  solid := by simp

end Last

/-! ## One file -/

/-- What is copied is a file, and where it is copied to is opened first. If the file is no more by
then, nothing is written. -/
theorem copyFile_opens {source target : Path} (h : fs.copyFile source target = .ok fs') :
    ∃ loc content opened, fs.status source = .ok (loc, .file content) ∧
      fs.write target [] = .ok opened ∧
      ((∃ written, opened.node? loc = some (.file written) ∧
          opened.write target written = .ok fs') ∨
        fs' = opened ∧ ∀ written, opened.node? loc ≠ some (.file written)) := by
  obtain ⟨⟨loc, node⟩, hs, h⟩ := except_bind_eq_ok.1 h
  cases node with
  | dir => cases h
  | link t => cases h
  | file content =>
    obtain ⟨opened, ho, h⟩ := except_bind_eq_ok.1 h
    refine ⟨loc, content, opened, hs, ho, ?_⟩
    split at h
    · next written hw => exact Or.inl ⟨written, hw, h⟩
    · next hgone =>
      cases h
      exact Or.inr ⟨rfl, hgone⟩

theorem puts_write {p : Path} {content : Content} (hdir : fs.node? dir = some .dir)
    (hplain : Path.IsPlain name)
    (hat : ∀ place, fs.resolve p .write = .ok place → fs.IsAt dir name place)
    (h : fs.write p content = .ok fs') : Puts dir name (.file content) fs fs' := by
  obtain ⟨place, hplace, hfill⟩ := except_bind_eq_ok.1 h
  exact puts_fill hdir hplain (hat place hplace) hfill

/-- Copying a file puts what is in it where it is to be. What is copied to itself is lost. -/
theorem copyFile_puts {source target : Path} (hdir : fs.node? dir = some .dir)
    (hplain : Path.IsPlain name)
    (htarget : ∀ now place, Fills (dir ++ [name]) fs now →
      now.resolve target .write = .ok place → now.IsAt dir name place)
    (h : fs.copyFile source target = .ok fs') : ∃ loc content,
      fs.status source = .ok (loc, .file content) ∧
      (∃ place, fs.resolve target .write = .ok place) ∧
      Puts dir name (.file (if loc = dir ++ [name] then [] else content)) fs fs' := by
  obtain ⟨loc, content, opened, hs, ho, h⟩ := copyFile_opens h
  obtain ⟨-, -, hn⟩ := status_eq_ok.1 hs
  obtain ⟨place, hplace, -⟩ := except_bind_eq_ok.1 ho
  have hopen := puts_write hdir hplain (htarget fs · (.refl _ fs)) ho
  have hcontent : opened.node? loc =
      some (.file (if loc = dir ++ [name] then [] else content)) := by
    rw [hopen.nodes]
    split
    · rfl
    · exact hn
  rcases h with ⟨written, hw, h⟩ | ⟨-, hgone⟩
  · rw [hcontent] at hw
    cases hw
    have hdir' := hopen.fills.grows.dir hdir
    have hlast := puts_write hdir' hplain (htarget opened · hopen.fills) h
    refine ⟨loc, content, hs, ⟨place, hplace⟩, fun l => ?_, ?_, hplain, by simp⟩
    · rw [hlast.nodes, hopen.nodes]
      split <;> rfl
    · intro before hb
      exact (hopen.old before hb).trans (hlast.old _ hopen.here)
  · exact absurd hcontent (hgone _)

/-! ## Whatever is written -/

/-- There is more, under names that an operating system gives, and no more links than before. -/
structure Builds (fs fs' : FileSystem) : Prop where
  grows : Grows fs fs'
  links : ∀ loc t, fs'.node? loc = some (.link t) → fs.node? loc = some (.link t)
  names : fs'.Named

theorem Builds.refl (h : fs.Named) : Builds fs fs := ⟨.refl fs, fun _ _ hn => hn, h⟩

theorem Builds.trans {a b c : FileSystem} (hab : Builds a b) (hbc : Builds b c) : Builds a c :=
  ⟨hab.grows.trans hbc.grows, fun loc t h => hab.links loc t (hbc.links loc t h), hbc.names⟩

theorem Fills.builds {target : Location} (h : Fills target fs fs') (hnamed : fs.Named) :
    Builds fs fs' := ⟨h.grows, h.links, h.names hnamed⟩

theorem AddsDirs.builds {paths : List Path} (h : AddsDirs paths fs fs') (hnamed : fs.Named) :
    Builds fs fs' := ⟨h.old.grows, h.links, h.names hnamed⟩

theorem builds_add (hnamed : fs.Named) {node : Node} (hplain : Path.IsPlain name)
    (hsolid : ∀ t, node ≠ .link t) : Builds fs (fs.add dir name node) := by
  by_cases h : fs.node? dir = some .dir ∧ fs.node? (dir ++ [name]) = none
  · exact (puts_add h.1 hplain h.2 hsolid).fills.builds hnamed
  · rw [add, dif_neg h]
    exact .refl hnamed

theorem builds_fill (hnamed : fs.Named) {place : Place} {content : Content}
    (hplain : ∀ dir name, place = .free dir name → Path.IsPlain name)
    (h : fs.fill place content = .ok fs') : Builds fs fs' := by
  cases place with
  | free dir name =>
    cases h
    exact builds_add hnamed (hplain dir name rfl) (by simp)
  | there loc =>
    have hfile : ∃ old, fs.node? loc = some (.file old) := by
      rw [fill] at h
      split at h
      · next old hold => exact ⟨old, hold⟩
      · cases h
    obtain ⟨old, hold⟩ := hfile
    rcases List.eq_nil_or_concat loc with rfl | ⟨dir, name, rfl⟩
    · rw [node?_root] at hold
      cases hold
    · rw [List.concat_eq_append] at hold h
      have hsome : (fs.node? (dir ++ [name])).isSome := by rw [hold]; rfl
      have hputs := puts_fill (node?_above (by simp) hsome) (hnamed dir name hsome)
        (Or.inl ⟨rfl, hsome⟩) h
      exact hputs.fills.builds hnamed

theorem builds_write (hnamed : fs.Named) {p : Path} {content : Content}
    (h : fs.write p content = .ok fs') : Builds fs fs' := by
  obtain ⟨place, hplace, hfill⟩ := except_bind_eq_ok.1 h
  refine builds_fill hnamed (fun dir name he => ?_) hfill
  rw [he] at hplace
  exact isPlain_of_resolve hplace

theorem write_free {p : Path} (h : fs.resolve p .write = .ok (.free dir name))
    (content : Content) : fs.write p content = .ok (fs.add dir name (.file content)) := by
  rw [write, h]
  rfl

theorem builds_copyFile (hnamed : fs.Named) {source target : Path}
    (h : fs.copyFile source target = .ok fs') : Builds fs fs' := by
  obtain ⟨loc, content, opened, -, ho, h⟩ := copyFile_opens h
  have hopen := builds_write hnamed ho
  rcases h with ⟨written, -, h⟩ | ⟨rfl, -⟩
  · exact hopen.trans (builds_write hopen.names h)
  · exact hopen

end FileSystem

namespace FileM

open FileSystem

variable {fs fs' : FileSystem} {dir : Location} {name : String}

theorem change_eq_ok {step : FileSystem → Except FileError FileSystem} {u : Unit} :
    change step fs = .ok u fs' ↔ step fs = .ok fs' := by
  unfold change
  cases step fs <;> simp

theorem left_change (step : FileSystem → Except FileError FileSystem) :
    left (change step fs) = match step fs with
      | .ok fs' => fs'
      | .error _ => fs := by
  unfold change
  cases step fs <;> rfl

theorem ask_eq_ok {α : Type} {look : FileSystem → Except FileError α} {a : α} :
    ask look fs = .ok a fs' ↔ look fs = .ok a ∧ fs' = fs := by
  unfold ask
  cases look fs <;> simp [eq_comm]

theorem ask_error {α : Type} {look : FileSystem → Except FileError α} {e : FileError}
    (h : ask look fs = .error e fs') : fs' = fs := by
  unfold ask at h
  split at h <;> cases h
  rfl

/-! ## Whole directories -/

section Child

variable {p : Path} (hl : fs.Leads p dir) (hstands : fs.node? dir = some .dir)
  (hplain : Path.IsPlain name) (hsolid : ∀ t, fs.node? (dir ++ [name]) ≠ some (.link t))
include hl hstands hplain hsolid

/-- Whatever comes of making a name in a directory, nothing changes elsewhere. -/
theorem fills_child : Fills (dir ++ [name]) fs (left (mkdirAll (p.child name) fs)) :=
  (addsDirs_mkdirAll _ fs).fills_last (p.segments_child hplain) hl hstands hplain hsolid

/-- A directory is made under its own name, and is where the path leads. -/
theorem puts_child {u : Unit} (h : mkdirAll (p.child name) fs = .ok u fs') :
    Puts dir name .dir fs fs' ∧ fs'.Leads (p.child name) (dir ++ [name]) := by
  have hadds := Keeps.ok (addsDirs_mkdirAll (p.child name)) h
  obtain ⟨loc, hleads, hmade⟩ := leads_of_mkdirAll h
  have hat := isAt_of_follow (fun t hn => hsolid t (hadds.links _ t hn)) hplain
    (follow_of_leads (hl.mono hadds.old.grows) hplain hleads)
  rcases hat with ⟨hplace, -⟩ | ⟨hplace, -⟩
  · cases hplace
    exact ⟨hadds.puts_last (p.segments_child hplain) hl hstands hplain hsolid hmade, hleads⟩
  · cases hplace

end Child

theorem reachable_of_mkdirAll {p : Path} {u : Unit} (hplain : Path.IsPlain name)
    (h : mkdirAll (p.child name) fs = .ok u fs') : Reachable p [name] :=
  reachable_of_isDir hplain (isDir_of_ensureChain (p.child_ne_empty hplain) h)

/-- A directory that admits others has one more that does. -/
theorem admits_child {p : Path} {u : Unit} (h : fs.Admits p dir) (hplain : Path.IsPlain name)
    (hm : mkdirAll (p.child name) fs = .ok u fs') :
    Puts dir name .dir fs fs' ∧ fs'.Admits (p.child name) (dir ++ [name]) := by
  obtain ⟨hputs, hleads⟩ := puts_child h.leads h.fill.stands hplain (h.fill.free [name]) hm
  exact ⟨hputs, hleads, (h.fill.after hputs.fills).inner hputs.here⟩

/-- A path that goes on to a name from a directory is opened at that name. -/
theorem isAt_child {p : Path} {why : Purpose} {place : Place} (hl : fs.Leads p dir)
    (hplain : Path.IsPlain name) (hsolid : ∀ t, fs.node? (dir ++ [name]) ≠ some (.link t))
    (h : fs.resolve (p.child name) why = .ok place) : fs.IsAt dir name place :=
  isAt_of_follow hsolid hplain (follow_of_resolve hl hplain h)

theorem listing_apply (order : ListingOrder) (p : Path) (fs : FileSystem) : listing order p fs =
    match fs.status p with
    | .ok (dir, .dir) => .ok (dir, order.arrange dir (fs.children dir)) fs
    | .ok _ => .error .notDirectory fs
    | .error e => .error e fs := by
  unfold listing
  cases hs : fs.status p with
  | error e =>
    have hask : ask (·.status p) fs = .error e fs := by rw [ask, hs]
    rw [bind_error hask]
  | ok found =>
    have hask : ask (·.status p) fs = .ok found fs := by rw [ask, hs]
    rw [bind_ok hask]
    obtain ⟨dir, node⟩ := found
    cases node <;> rfl

theorem copyLevel_apply (order : ListingOrder) (levels : Nat) (source target : Path)
    (fs : FileSystem) : copyLevel order (levels + 1) source target fs =
      match fs.status source with
      | .ok (origin, .dir) => (order.arrange origin (fs.children origin)).foldlM
          (copyEntry (copyLevel order levels) source target origin) 0 fs
      | .ok _ => .error .notDirectory fs
      | .error e => .error e fs := by
  unfold copyLevel
  simp only [bind, EStateM.bind, listing_apply]
  rcases fs.status source with e | ⟨origin, _ | _ | _⟩ <;> rfl

/-- A directory that has been copied was there, and so were its names. -/
theorem copyLevel_ok {order : ListingOrder} {levels n : Nat} {source target : Path}
    (h : copyLevel order levels source target fs = .ok n fs') : ∃ below origin,
      levels = below + 1 ∧ fs.status source = .ok (origin, .dir) ∧
      (order.arrange origin (fs.children origin)).foldlM
        (copyEntry (copyLevel order below) source target origin) 0 fs = .ok n fs' := by
  cases levels with
  | zero => cases h
  | succ below =>
    rw [copyLevel_apply] at h
    split at h
    · next origin hs => exact ⟨below, origin, rfl, hs, h⟩
    · cases h
    · cases h

theorem copyEntry_apply (descend : Path → Path → FileM Nat) (source target : Path)
    (origin : Location) (count : Nat) (name : String) (fs : FileSystem) :
    copyEntry descend source target origin count name fs =
      match fs.node? (origin ++ [name]) with
      | some .dir => (do
          mkdirAll (target.child name)
          return count + (← descend (source.child name) (target.child name))) fs
      | _ => (do
          change (·.copyFile (source.child name) (target.child name))
          return count + 1) fs := by
  unfold copyEntry
  rw [bind_get]
  rcases fs.node? (origin ++ [name]) with _ | _ | _ | _ <;> rfl

section Copying

variable {source target : Path} {origin : Location}

theorem fills_copyEntry {descend : Path → Path → FileM Nat} (hplain : Path.IsPlain name)
    (hdescend : Keeps (fun fs fs' => fs.Admits (target.child name) (dir ++ [name]) →
      Fills (dir ++ [name]) fs fs') (descend (source.child name) (target.child name)))
    (count : Nat) : Keeps (fun fs fs' => fs.Admits target dir → Fills (dir ++ [name]) fs fs')
      (copyEntry descend source target origin count name) := by
  intro fs hadmits
  rw [copyEntry_apply]
  split
  · have hfills := fills_child hadmits.leads hadmits.fill.stands hplain (hadmits.fill.free [name])
    cases hm : mkdirAll (target.child name) fs with
    | error e fs₁ =>
      rw [hm] at hfills
      rw [bind_error hm]
      exact hfills
    | ok u fs₁ =>
      rw [hm] at hfills
      rw [bind_ok hm, left_answer]
      exact hfills.trans (hdescend fs₁ (admits_child hadmits hplain hm).2)
  · rw [left_answer, left_change]
    split
    · next fs₁ hc =>
      obtain ⟨loc, content, -, -, hputs⟩ := copyFile_puts hadmits.fill.stands hplain
        (fun now place hf hp => isAt_child (hadmits.leads.mono hf.grows) hplain
          (hf.linkFree hadmits.fill.free [name]) hp) hc
      exact hputs.fills
    · exact .refl _ fs

theorem fills_copyNames {descend : Path → Path → FileM Nat} {names : List String}
    (hplain : ∀ name ∈ names, Path.IsPlain name)
    (hdescend : ∀ name, Keeps (fun fs fs' => fs.Admits (target.child name) (dir ++ [name]) →
      Fills (dir ++ [name]) fs fs') (descend (source.child name) (target.child name)))
    (count : Nat) : Keeps (fun fs fs' => fs.Admits target dir → Fills dir fs fs')
      (names.foldlM (copyEntry descend source target origin) count) := by
  apply Keeps.foldlM
  · intro fs _
    exact .refl _ fs
  · intro a b c hab hbc ha
    exact (hab ha).trans (hbc (ha.after (hab ha)))
  · intro count name hname fs hadmits
    apply Fills.widen
    · exact fills_copyEntry (hplain name hname) (hdescend name) count fs hadmits
    · exact List.prefix_append ..

theorem plain_of_children {order : ListingOrder} (hnamed : fs.Named)
    (h : name ∈ order.arrange origin (fs.children origin)) :
    (fs.node? (origin ++ [name])).isSome ∧ Path.IsPlain name := by
  have hchild := mem_children.1 ((order.perm origin (fs.children origin)).mem_iff.1 h)
  exact ⟨hchild, hnamed origin name hchild⟩

/-- Copying a directory changes nothing outside the one it is copied to. -/
theorem fills_copyLevel (order : ListingOrder) (levels : Nat) (source target : Path)
    (dir : Location) : Keeps (fun fs fs' => fs.Admits target dir → Fills dir fs fs')
      (copyLevel order levels source target) := by
  induction levels generalizing source target dir with
  | zero => exact fun fs _ => .refl _ fs
  | succ levels ih =>
    intro fs hadmits
    rw [copyLevel_apply]
    split
    · refine fills_copyNames ?_ (fun name => ih _ _ _) 0 fs hadmits
      intro name hname
      exact (plain_of_children hadmits.fill.names hname).2
    · exact .refl _ fs
    · exact .refl _ fs

/-- A directory that has been copied under its name is where the path leads. -/
theorem leads_of_copied {order : ListingOrder} {levels n : Nat} {now : FileSystem}
    (hfrom : fs.Leads source origin) (hplain : Path.IsPlain name) (hg : Grows fs now)
    (hdir : fs.node? (origin ++ [name]) = some .dir)
    (h : copyLevel order levels (source.child name) target now = .ok n fs') :
    now.Leads (source.child name) (origin ++ [name]) ∧ Reachable source [name] := by
  obtain ⟨-, found, -, hs, -⟩ := copyLevel_ok h
  have hreach := reachable_of_isDir hplain (isDir_iff.2 ⟨found, hs⟩)
  exact ⟨leads_child (hfrom.mono hg) hplain (hreach.2 name (List.mem_cons_self ..)) (hg.dir hdir)
    (by simp), hreach⟩

end Copying

/-! ## Nothing is lost -/

/-- Whatever comes of the work, it has built at most. -/
def Building {α : Type} (work : FileM α) : Prop :=
  Keeps (fun fs fs' => fs.Named → Builds fs fs') work

namespace Building

variable {α β : Type}

theorem bind {work : FileM α} {f : α → FileM β} (hwork : Building work)
    (hf : ∀ a, Building (f a)) : Building (work >>= f) :=
  Keeps.bind (fun hab hbc hnamed => (hab hnamed).trans (hbc (hab hnamed).names)) hwork hf

theorem pure (a : α) : Building (pure a : FileM α) := fun _ => .refl

theorem foldlM {step : β → α → FileM β} {l : List α} (h : ∀ b, ∀ a ∈ l, Building (step b a))
    (b : β) : Building (l.foldlM step b) :=
  Keeps.foldlM (fun _ => .refl) (fun hab hbc hnamed => (hab hnamed).trans (hbc (hab hnamed).names))
    h b

end Building

theorem building_change {step : FileSystem → Except FileError FileSystem}
    (h : ∀ fs fs', fs.Named → step fs = .ok fs' → Builds fs fs') : Building (change step) := by
  intro fs hnamed
  rw [left_change]
  split
  · next fs' hs => exact h fs fs' hnamed hs
  · exact .refl hnamed

theorem building_ask {α : Type} (look : FileSystem → Except FileError α) : Building (ask look) := by
  intro fs hnamed
  unfold ask
  cases look fs <;> exact .refl hnamed

theorem building_mkdirAll (p : Path) : Building (mkdirAll p) := fun fs hnamed =>
  (addsDirs_mkdirAll p fs).builds hnamed

theorem building_copyEntry {descend : Path → Path → FileM Nat}
    (hdescend : ∀ source target, Building (descend source target)) (source target : Path)
    (origin : Location) (count : Nat) (name : String) :
    Building (copyEntry descend source target origin count name) := by
  intro fs
  rw [copyEntry_apply]
  split
  · refine (building_mkdirAll _).bind (fun _ => ?_) fs
    exact (hdescend _ _).bind fun _ => .pure _
  · refine (building_change fun fs fs' hnamed h => ?_).bind (fun _ => .pure _) fs
    exact builds_copyFile hnamed h

theorem building_copyLevel (order : ListingOrder) (levels : Nat) (source target : Path) :
    Building (copyLevel order levels source target) := by
  induction levels generalizing source target with
  | zero => exact fun _ => .refl
  | succ levels ih =>
    intro fs hnamed
    rw [copyLevel_apply]
    split
    · refine Building.foldlM (fun count name _ => ?_) 0 fs hnamed
      exact building_copyEntry ih source target _ count name
    · exact .refl hnamed
    · exact .refl hnamed

/-- Whatever comes of copying, nothing is gone and nothing of another kind than before. -/
theorem building_copyTree (source target : Path) (order : ListingOrder) :
    Building (copyTree source target order) := by
  have hfile : Building (do
      change (·.copyFile source target)
      return 1 : FileM Nat) := by
    refine (building_change fun fs fs' hnamed h => ?_).bind fun _ => .pure _
    exact builds_copyFile hnamed h
  refine (building_ask _).bind fun found => ?_
  split
  · exact (building_mkdirAll target).bind fun _ => building_copyLevel order _ _ _
  · cases target.parent? with
    | none => exact hfile
    | some above => exact (building_mkdirAll above).bind fun _ => hfile

end FileM

end Depot
