import Depot.Handle.Scene

/-! Work on a state, in steps. A sequence succeeds if each step does, and fails with the first that
does not; either way it leaves a state. -/

namespace Depot.Work

variable {ε σ α β : Type}

/-- The state that work leaves, done or failed. -/
def left : EStateM.Result ε σ α → σ
  | .ok _ s => s
  | .error _ s => s

@[simp] theorem left_ok (a : α) (s : σ) : left (.ok a s : EStateM.Result ε σ α) = s := rfl

@[simp] theorem left_error (e : ε) (s : σ) : left (.error e s : EStateM.Result ε σ α) = s := rfl

/-- What work answers, whatever state it leaves. -/
def answer : EStateM.Result ε σ α → Except ε α
  | .ok a _ => .ok a
  | .error e _ => .error e

@[simp] theorem answer_ok (a : α) (s : σ) :
    answer (.ok a s : EStateM.Result ε σ α) = .ok a := rfl

@[simp] theorem answer_error (e : ε) (s : σ) :
    answer (.error e s : EStateM.Result ε σ α) = .error e := rfl

theorem ok_of_answer {r : EStateM.Result ε σ α} {a : α} (h : answer r = .ok a) :
    r = .ok a (left r) := by
  cases r with
  | ok a' s =>
    cases h
    rfl
  | error e s => cases h

theorem except_bind_eq_ok {x : Except ε α} {f : α → Except ε β} {b : β} :
    (x >>= f) = .ok b ↔ ∃ a, x = .ok a ∧ f a = .ok b := by
  cases x <;> simp [bind, Except.bind]

theorem bind_eq_ok {m : EStateM ε σ α} {f : α → EStateM ε σ β} {s s' : σ} {b : β} :
    (m >>= f) s = .ok b s' ↔ ∃ a s₁, m s = .ok a s₁ ∧ f a s₁ = .ok b s' := by
  simp only [bind, EStateM.bind]
  cases m s <;> simp [and_assoc]

theorem bind_eq_error {m : EStateM ε σ α} {f : α → EStateM ε σ β} {s s' : σ} {e : ε} :
    (m >>= f) s = .error e s' ↔
      m s = .error e s' ∨ ∃ a s₁, m s = .ok a s₁ ∧ f a s₁ = .error e s' := by
  simp only [bind, EStateM.bind]
  cases m s <;> simp [and_assoc]

theorem bind_ok {m : EStateM ε σ α} {f : α → EStateM ε σ β} {s s₁ : σ} {a : α}
    (h : m s = .ok a s₁) : (m >>= f) s = f a s₁ := by
  simp only [bind, EStateM.bind, h]

theorem bind_error {m : EStateM ε σ α} {f : α → EStateM ε σ β} {s s₁ : σ} {e : ε}
    (h : m s = .error e s₁) : (m >>= f) s = .error e s₁ := by
  simp only [bind, EStateM.bind, h]

theorem bind_get (f : σ → EStateM ε σ β) (s : σ) : ((get : EStateM ε σ σ) >>= f) s = f s s := rfl

theorem tryCatch_ok {m : EStateM ε σ α} {s s₁ : σ} {a : α} (h : m s = .ok a s₁)
    (f : ε → EStateM ε σ α) : tryCatch m f s = .ok a s₁ := by
  change EStateM.tryCatch m f s = _
  delta EStateM.tryCatch
  dsimp only
  rw [h]

theorem tryCatch_error {m : EStateM ε σ α} {s s₁ : σ} {e : ε} (h : m s = .error e s₁)
    (f : ε → EStateM ε σ α) : tryCatch m f s = f e s₁ := by
  change EStateM.tryCatch m f s = _
  delta EStateM.tryCatch
  dsimp only
  rw [h]
  rfl

/-- What an answer is turned into makes no difference to the state. -/
theorem left_answer (m : EStateM ε σ α) (f : α → β) (s : σ) :
    left ((m >>= fun a => pure (f a)) s) = left (m s) := by
  simp only [bind, EStateM.bind]
  cases m s <;> rfl

theorem answer_answer (m : EStateM ε σ α) (f : α → β) (s : σ) :
    answer ((m >>= fun a => pure (f a)) s) = (answer (m s)).map f := by
  simp only [bind, EStateM.bind]
  cases m s <;> rfl

/-- What holds of the state that a first step leaves, and that later steps keep, holds in the end.
-/
theorem left_bind {P : σ → Prop} {m : EStateM ε σ α} {f : α → EStateM ε σ β} {s : σ}
    (hm : P (left (m s))) (hf : ∀ a s₁, P s₁ → P (left (f a s₁))) : P (left ((m >>= f) s)) := by
  cases h : m s with
  | ok a s₁ =>
    rw [bind_ok h]
    rw [h] at hm
    exact hf a s₁ hm
  | error e s₁ =>
    rw [bind_error h]
    rw [h] at hm
    exact hm

/-- Whatever comes of the work, `R` holds between the state before and the one it leaves. -/
def Keeps (R : σ → σ → Prop) (m : EStateM ε σ α) : Prop := ∀ s, R s (left (m s))

namespace Keeps

variable {R : σ → σ → Prop} {m : EStateM ε σ α} {f : α → EStateM ε σ β}

theorem ok (h : Keeps R m) {s s' : σ} {a : α} (hm : m s = .ok a s') : R s s' := by
  simpa [hm] using h s

theorem error (h : Keeps R m) {s s' : σ} {e : ε} (hm : m s = .error e s') : R s s' := by
  simpa [hm] using h s

theorem bind (trans : ∀ {a b c}, R a b → R b c → R a c) (hm : Keeps R m)
    (hf : ∀ a, Keeps R (f a)) : Keeps R (m >>= f) := by
  intro s
  cases h : m s with
  | ok a s₁ => rw [bind_ok h]; exact trans (hm.ok h) (hf a s₁)
  | error e s₁ => rw [bind_error h]; exact hm.error h

theorem foldlM (refl : ∀ a, R a a) (trans : ∀ {a b c}, R a b → R b c → R a c)
    {step : β → α → EStateM ε σ β} {l : List α} (h : ∀ b, ∀ a ∈ l, Keeps R (step b a)) (b : β) :
    Keeps R (l.foldlM step b) := by
  induction l generalizing b with
  | nil => exact fun s => refl s
  | cons a l ih =>
    have hrest : ∀ b, Keeps R (l.foldlM step b) :=
      ih fun b a ha => h b a (List.mem_cons_of_mem _ ha)
    exact bind trans (h b a (List.mem_cons_self ..)) hrest

/-- The turn of each element comes, some way on, and from there it goes on to the end. -/
theorem turn (refl : ∀ a, R a a) (trans : ∀ {a b c}, R a b → R b c → R a c)
    {step : β → α → EStateM ε σ β} {l : List α} (h : ∀ b, ∀ a ∈ l, Keeps R (step b a)) {b b' : β}
    {s s' : σ} (hrun : l.foldlM step b s = .ok b' s') {a : α} (ha : a ∈ l) :
    ∃ b₁ s₁ b₂ s₂, R s s₁ ∧ step b₁ a s₁ = .ok b₂ s₂ ∧ R s₂ s' := by
  induction l generalizing b s with
  | nil => cases ha
  | cons first l ih =>
    obtain ⟨b₁, s₁, hfirst, hrest⟩ := bind_eq_ok.1 hrun
    have hl : ∀ b, ∀ a ∈ l, Keeps R (step b a) := fun b a ha => h b a (List.mem_cons_of_mem _ ha)
    rcases List.mem_cons.1 ha with rfl | ha
    · exact ⟨b, s, b₁, s₁, refl s, hfirst, (foldlM refl trans hl b₁).ok hrest⟩
    · obtain ⟨b₂, s₂, b₃, s₃, hbefore, hturn, hafter⟩ := ih hl hrest ha
      have hstep := (h b first (List.mem_cons_self ..)).ok hfirst
      exact ⟨b₂, s₂, b₃, s₃, trans hstep hbefore, hturn, hafter⟩

end Keeps

end Depot.Work
