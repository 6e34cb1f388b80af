import Depot.Proofs.Session.Acts
import Depot.Session.Run

/-! Commands as acts. What a command leaves of a session, some acts leave of it too, so what holds
after any acts holds after any commands. -/

namespace Depot

open Work


namespace Session

/-- Handles and registries are as before. -/
def Aside (s s' : Session) : Prop :=
  ∃ files keys stores events flushes, s' = { s with files, keys, stores, events, flushes }

theorem Aside.refl (s : Session) : Aside s s :=
  ⟨s.files, s.keys, s.stores, s.events, s.flushes, rfl⟩

theorem aside_setKeyAside (s : Session) (aside : Option String) (key : Key) :
    Aside s (s.setKeyAside aside key) := by
  cases aside with
  | none => exact .refl s
  | some name => exact ⟨s.files, s.keys.insert name key, s.stores, s.events, s.flushes, rfl⟩

theorem aside_setStoreAside (s : Session) (aside : Option String) (store : FileStore) :
    Aside s (s.setStoreAside aside store) := by
  cases aside with
  | none => exact .refl s
  | some name => exact ⟨s.files, s.keys, s.stores.insert name store, s.events, s.flushes, rfl⟩

theorem answer_left {α : Type} (s : Session) (work : SessionM α) (result : α → Answer) :
    (s.answer work result).2 = left (work s) := by
  unfold answer
  cases work s <;> rfl

theorem aside_answerFiles {α : Type} (s : Session) (work : FileM α) (result : α → Answer) :
    Aside s (s.answerFiles work result).2 := by
  unfold answerFiles
  cases work s.files with
  | ok a files => exact ⟨files, s.keys, s.stores, s.events, s.flushes, rfl⟩
  | error e files => exact ⟨files, s.keys, s.stores, s.events, s.flushes, rfl⟩

theorem aside_locate (fanout : UInt64) (depth : UInt32) (base : Path) (index : UInt64)
    (create : Bool) (s : Session) : Aside s (left (locate fanout depth base index create s)) := by
  unfold locate
  cases Layout.ofConfig fanout depth with
  | error fault => exact .refl s
  | ok layout =>
    dsimp only
    cases layout.path base index with
    | error o => exact .refl s
    | ok dir =>
      cases create with
      | false => exact .refl s
      | true =>
        simp only [↓reduceIte, bind_get]
        cases FileM.ensureShard dir s.files with
        | ok u files => exact ⟨files, s.keys, s.stores, s.events, s.flushes, rfl⟩
        | error cause files => exact ⟨files, s.keys, s.stores, _, s.flushes, rfl⟩

/-- What holds of the session with the answer holds of the one that a command leaves. -/
theorem left_by_some {P : Session → Prop} {found : Answer × Session} {a : Answer} {s' : Session}
    (h : some found = some (a, s')) (hp : P found.2) : P s' := by
  rwa [Option.some.inj h] at hp

theorem left_by_bind {β : Type} {P : Session → Prop} {found : Option β} {f : β → Answer × Session}
    {a : Answer} {s' : Session} (h : (do some (f (← found))) = some (a, s'))
    (hp : ∀ b, P (f b).2) : P s' := by
  obtain ⟨b, -, hb⟩ := Option.bind_eq_some_iff.1 h
  exact left_by_some hb (hp b)

theorem aside_runFiles {s s' : Session} {command : FileCommand} {a : Answer}
    (h : s.runFiles command = some (a, s')) : Aside s s' := by
  cases command with
  | mkdir path => exact left_by_bind h fun _ => aside_answerFiles ..
  | mkdirNumbered path count => exact left_by_bind h fun _ => aside_answerFiles ..
  | write path content => exact left_by_bind h fun _ => aside_answerFiles ..
  | read path => exact left_by_bind h fun _ => aside_answerFiles ..
  | symlink target path => exact left_by_bind h fun _ => aside_answerFiles ..
  | remove path => exact left_by_bind h fun _ => aside_answerFiles ..
  | removeTree path => exact left_by_bind h fun _ => aside_answerFiles ..
  | look path =>
    obtain ⟨p, -, hp⟩ := Option.bind_eq_some_iff.1 h
    split at hp <;> cases hp <;> exact .refl s
  | tree path =>
    obtain ⟨p, -, hp⟩ := Option.bind_eq_some_iff.1 h
    split at hp <;> cases hp <;> exact .refl s
  | copyTree source target =>
    obtain ⟨p, -, hp⟩ := Option.bind_eq_some_iff.1 h
    exact left_by_bind hp fun _ => aside_answerFiles ..
  | locate fanout depth base index create =>
    refine left_by_bind h fun p => ?_
    rw [answer_left]
    exact aside_locate ..

/-- Some acts lead from one session to the other. -/
def Plays (s s' : Session) : Prop := ∃ acts, s' = s.after acts

namespace Plays

theorem refl (s : Session) : Plays s s := ⟨[], rfl⟩

theorem trans {a b c : Session} (hab : Plays a b) (hbc : Plays b c) : Plays a c := by
  obtain ⟨l₁, rfl⟩ := hab
  obtain ⟨l₂, rfl⟩ := hbc
  exact ⟨l₁ ++ l₂, (after_append ..).symm⟩

theorem act (a : Act) (s : Session) : Plays s (a.run s) := ⟨[a], rfl⟩

theorem aside {s s' : Session} (h : Aside s s') : Plays s s' := by
  obtain ⟨files, keys, stores, events, flushes, rfl⟩ := h
  exact act (.beside files keys stores events flushes) s

end Plays

section

variable {s s' : Session} {slot : String} {held : Held}

theorem plays_ask (h : s.held[slot]? = some held) (request : Request) :
    Plays s (left (request.run slot held s)) := by
  have hplays := Plays.act (.ask slot request) s
  rwa [Act.run, h] at hplays

theorem plays_keyAside (aside : Option String) {found : Answer × Session} (h : Plays s found.2) :
    Plays s (runHandle.keyAside aside found).2 := by
  unfold runHandle.keyAside
  split
  · exact h.trans (.aside (aside_setKeyAside ..))
  · exact h

theorem plays_copied (h : Plays s s') (work : SessionM Key) (flush : Option Flush)
    (aside : Option String) (hs : left (work s) = s') :
    Plays s (s.answerCopied work flush aside).2 := by
  unfold answerCopied
  cases hw : work s with
  | ok key s₁ =>
    rw [hw] at hs
    subst hs
    exact h.trans (.aside (aside_setKeyAside ..))
  | error e s₁ =>
    rw [hw] at hs
    subst hs
    exact h

theorem plays_runHandle {command : HandleCommand} {a : Answer} (hheld : s.held[slot]? = some held)
    (h : s.runHandle slot held command = some (a, s')) : Plays s s' := by
  have hask : ∀ {α : Type} (request : Request) (work : SessionM α) (result : α → Answer),
      left (request.run slot held s) = left (work s) → Plays s (s.answer work result).2 := by
    intro α request work result heq
    rw [answer_left, ← heq]
    exact plays_ask hheld request
  cases command with
  | reopen => exact left_by_some h (hask .reopen _ _ (left_answer ..))
  | close => exact left_by_some h (hask .close _ _ (left_answer ..))
  | dispose => exact left_by_some h (hask .dispose _ _ (left_answer ..))
  | create name aside =>
    exact left_by_some h (plays_keyAside aside (hask (.create name) _ _ (left_answer ..)))
  | createInLoop name loop aside =>
    exact left_by_some h (plays_keyAside aside (hask (.createInLoop name loop) _ _ (left_answer ..)))
  | setBaseDir path => exact left_by_bind h fun p => hask (.setBaseDir p) _ _ (left_answer ..)
  | ensureRestored => exact left_by_some h (hask .ensureRestored _ _ (left_answer ..))
  | shardDir index create =>
    exact left_by_some h (hask (.shardDir index create) _ _ (left_answer ..))
  | objectPath key => exact left_by_bind h fun k => hask (.objectPath k) _ _ (left_answer ..)
  | fileStore key aside =>
    obtain ⟨k, -, hk⟩ := Option.bind_eq_some_iff.1 h
    have hplays := hask (.fileStore k) (SessionM.fileStore slot held k) .store (left_answer ..)
    dsimp only at hk
    split at hk
    · exact left_by_some hk (hplays.trans (.aside (aside_setStoreAside ..)))
    · exact left_by_some hk hplays
  | owner key => exact left_by_bind h fun _ => .refl s
  | mustCopy key => exact left_by_bind h fun _ => .refl s
  | translate store flush aside =>
    refine left_by_bind h fun fs => ?_
    exact plays_copied (plays_ask hheld (.translate fs (flushOf flush fs.path))) _ _ _
      (left_answer ..).symm
  | materialize store flush aside =>
    refine left_by_bind h fun fs => ?_
    exact plays_copied (plays_ask hheld (.materialize fs (flushOf flush fs.path))) _ _ _
      (left_answer ..).symm
  | saved => exact left_by_some h (.refl s)
  | describe => exact left_by_some h (.refl s)

end

/-- Whatever commands do, acts do. -/
theorem plays_run (command : Command) (s : Session) : Plays s (s.run command).2 := by
  have hready : Plays s { s with events := [], flushes := 0 } :=
    .aside ⟨s.files, s.keys, s.stores, [], 0, rfl⟩
  refine hready.trans ?_
  unfold run
  generalize { s with events := [], flushes := 0 } = s
  dsimp only
  cases hr : s.run? command with
  | none => exact .refl s
  | some found =>
    obtain ⟨a, s'⟩ := found
    rw [Option.getD_some]
    cases command with
    | files command => exact .aside (aside_runFiles hr)
    | registry name command =>
      cases command with
      | enroll id slot =>
        obtain ⟨held, hheld, hs⟩ := Option.bind_eq_some_iff.1 hr
        refine left_by_some hs ?_
        have hplays := Plays.act (.enroll name id slot) s
        rw [Act.run, hheld] at hplays
        rwa [answer_left]
      | retire id =>
        refine left_by_some hr ?_
        rw [answer_left]
        exact .act (.retire name id) s
      | resolve id => exact left_by_some hr (.refl s)
      | overview => exact left_by_some hr (.refl s)
      | ask id => exact left_by_some hr (.refl s)
    | create slot registry settings label id =>
      refine left_by_some hr ?_
      rw [answer_left]
      exact .act (.create slot registry settings label id) s
    | restore slot registry settings saved source =>
      obtain ⟨path, -, hs⟩ := Option.bind_eq_some_iff.1 hr
      cases saved with
      | error e => exact left_by_some hs (.refl s)
      | ok saved =>
        refine left_by_some hs ?_
        rw [answer_left]
        exact .act (.restore slot registry settings saved path) s
    | drop slot =>
      obtain ⟨held, -, hs⟩ := Option.bind_eq_some_iff.1 hr
      exact left_by_some hs (.act (.drop slot) s)
    | handle slot command =>
      obtain ⟨held, hheld, hs⟩ := Option.bind_eq_some_iff.1 hr
      exact plays_runHandle hheld hs

end Session

end Depot
