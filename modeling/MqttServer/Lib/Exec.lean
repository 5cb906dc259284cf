import Mathlib.Tactic

/-!
# `Lib.Exec` — state transformers that may stop in a fault

`Exec σ ε α` runs on a state `σ` and either returns a value with the next state, or stops in a fault `ε`
together with the state it had reached. A fault is not an error code of the modelled program (those are
ordinary return values): it stands for the point after which the program has no meaning, so nothing is
said about what comes later. Keeping the state in the fault lets a run be described up to that point.

The rules below peel a run apart (`bind_ok`), and lift a relation between the states before and after from
the primitives of a program to the whole program (`Frame.Resp`): what every primitive step respects, every
composition of them respects, up to the point where it stops in a fault.
-/

namespace Lib

/-- A computation over `σ` that may stop in a fault `ε`, reporting the state reached. -/
abbrev Exec (σ ε : Type) := StateT σ (Except (ε × σ))

namespace Exec

variable {σ ε α β : Type}

/-- Stop here. -/
def fault (f : ε) : Exec σ ε α := fun s => .error (f, s)

/-- The state a run ends in, whether it returned or stopped in a fault. -/
def final : Except (ε × σ) (α × σ) → σ
  | .ok (_, s) => s
  | .error (_, s) => s

/-! ## Peeling a run apart -/

@[simp] theorem pure_apply (a : α) (s : σ) : (pure a : Exec σ ε α) s = .ok (a, s) := rfl

@[simp] theorem get_apply (s : σ) : (get : Exec σ ε σ) s = .ok (s, s) := rfl

@[simp] theorem set_apply (s s' : σ) : (set s' : Exec σ ε PUnit) s = .ok (⟨⟩, s') := rfl

@[simp] theorem modify_apply (f : σ → σ) (s : σ) :
    (modify f : Exec σ ε PUnit) s = .ok (⟨⟩, f s) := rfl

@[simp] theorem fault_apply (f : ε) (s : σ) : (fault f : Exec σ ε α) s = .error (f, s) := rfl

@[simp] theorem get_bind (f : σ → Exec σ ε β) (s : σ) : (get >>= f) s = f s s := rfl

@[simp] theorem set_bind (s' : σ) (f : PUnit → Exec σ ε β) (s : σ) : (set s' >>= f) s = f ⟨⟩ s' := rfl

@[simp] theorem modify_bind (g : σ → σ) (f : PUnit → Exec σ ε β) (s : σ) :
    (modify g >>= f) s = f ⟨⟩ (g s) := rfl

theorem bind_apply (x : Exec σ ε α) (f : α → Exec σ ε β) (s : σ) :
    (x >>= f) s = match x s with
      | .ok (a, s') => f a s'
      | .error e => .error e := by
  show (x s >>= fun p => f p.1 p.2) = _
  cases x s with
  | ok p => rfl
  | error e => rfl

/-- A returning run of a composition is a returning run of each part. -/
theorem bind_ok {x : Exec σ ε α} {f : α → Exec σ ε β} {s : σ} {r : β × σ} :
    (x >>= f) s = .ok r ↔ ∃ a s', x s = .ok (a, s') ∧ f a s' = .ok r := by
  rw [bind_apply]
  cases hx : x s with
  | ok p =>
      obtain ⟨a, s'⟩ := p
      constructor
      · intro h
        exact ⟨a, s', rfl, h⟩
      · rintro ⟨a', s'', he, hf⟩
        cases he
        exact hf
  | error e => simp

/-- A composition faults in its first part, or in the second after the first returned. -/
theorem bind_error {x : Exec σ ε α} {f : α → Exec σ ε β} {s : σ} {e : ε × σ} :
    (x >>= f) s = .error e ↔
      x s = .error e ∨ ∃ a s', x s = .ok (a, s') ∧ f a s' = .error e := by
  rw [bind_apply]
  cases hx : x s with
  | ok p =>
      obtain ⟨a, s'⟩ := p
      constructor
      · intro h
        exact Or.inr ⟨a, s', rfl, h⟩
      · rintro (h | ⟨a', s'', he, hf⟩)
        · exact absurd h (by simp)
        · cases he
          exact hf
  | error e' => simp

theorem ok_of_toOption {ε : Type} {x : Except ε α} {a : α} (h : x.toOption = some a) : x = .ok a := by
  cases x with
  | ok a' =>
      cases h
      rfl
  | error e => cases h

/-! ## A state with something beside it -/

section Beside

variable {τ : Type}

/-- Run on the first part of a state. -/
def onFst (x : Exec σ ε α) : Exec (σ × τ) ε α := fun p =>
  match x p.1 with
  | .ok (a, s) => .ok (a, (s, p.2))
  | .error (f, s) => .error (f, (s, p.2))

/-- Forget the second part. -/
def forget : Except (ε × (σ × τ)) (α × (σ × τ)) → Except (ε × σ) (α × σ)
  | .ok (a, p) => .ok (a, p.1)
  | .error (f, p) => .error (f, p.1)

theorem forget_onFst (x : Exec σ ε α) (p : σ × τ) : forget (onFst x p) = x p.1 := by
  unfold onFst
  cases x p.1 with
  | ok r => rfl
  | error e => rfl

theorem forget_bind {x' : Exec (σ × τ) ε α} {x : Exec σ ε α} {f' : α → Exec (σ × τ) ε β} {f : α → Exec σ ε β} {p : σ × τ}
    (hx : forget (x' p) = x p.1) (hf : ∀ a p, forget (f' a p) = f a p.1) : forget ((x' >>= f') p) = (x >>= f) p.1 := by
  rw [bind_apply, bind_apply, ← hx]
  cases x' p with
  | ok r => exact hf r.1 r.2
  | error e => rfl

theorem onFst_ok {x : Exec σ ε α} {p p' : σ × τ} {a : α} :
    onFst x p = .ok (a, p') ↔ x p.1 = .ok (a, p'.1) ∧ p'.2 = p.2 := by
  obtain ⟨s, t⟩ := p
  obtain ⟨s', t'⟩ := p'
  unfold onFst
  cases x s with
  | ok r =>
      obtain ⟨a', s''⟩ := r
      constructor
      · intro h
        cases h
        exact ⟨rfl, rfl⟩
      · rintro ⟨h, ht⟩
        have ht' : t' = t := ht
        cases h
        rw [ht']
  | error e =>
      constructor
      · intro h
        cases h
      · rintro ⟨h, -⟩
        cases h

end Beside

/-! ## Lifting a relation to programs -/

/-- A preorder on states, and what is to be said of a run that stops in a fault: it may start earlier. -/
structure Frame (σ ε : Type) where
  rel : σ → σ → Prop
  flt : σ → ε × σ → Prop
  refl : ∀ s, rel s s
  trans : ∀ {s₁ s₂ s₃}, rel s₁ s₂ → rel s₂ s₃ → rel s₁ s₃
  extend : ∀ {s₁ s₂ e}, rel s₁ s₂ → flt s₂ e → flt s₁ e

/-- The run from `s` respects the frame. -/
def Frame.Resp (F : Frame σ ε) (x : Exec σ ε α) (s : σ) : Prop :=
  match x s with
  | .ok (_, s') => F.rel s s'
  | .error e => F.flt s e

namespace Frame

variable {F : Frame σ ε} {s : σ}

theorem resp_ok {x : Exec σ ε α} {a : α} {s' : σ} (h : F.Resp x s) (hx : x s = .ok (a, s')) :
    F.rel s s' := by
  unfold Resp at h
  rw [hx] at h
  exact h

theorem resp_error {x : Exec σ ε α} {e : ε × σ} (h : F.Resp x s) (hx : x s = .error e) : F.flt s e := by
  unfold Resp at h
  rw [hx] at h
  exact h

theorem resp_of_cases {x : Exec σ ε α} (hok : ∀ a s', x s = .ok (a, s') → F.rel s s')
    (herr : ∀ e, x s = .error e → F.flt s e) : F.Resp x s := by
  unfold Resp
  cases hx : x s with
  | ok p => exact hok p.1 p.2 hx
  | error e => exact herr e hx

/-- A weaker frame. -/
theorem Resp.mono {G : Frame σ ε} {x : Exec σ ε α} (hrel : ∀ s', F.rel s s' → G.rel s s')
    (hflt : ∀ e, F.flt s e → G.flt s e) (h : F.Resp x s) : G.Resp x s := by
  unfold Resp at h ⊢
  cases hx : x s with
  | ok p =>
      rw [hx] at h
      exact hrel _ h
  | error e =>
      rw [hx] at h
      exact hflt _ h

theorem resp_pure (a : α) : F.Resp (pure a : Exec σ ε α) s := F.refl s

theorem resp_fault {f : ε} (h : F.flt s (f, s)) : F.Resp (fault f : Exec σ ε α) s := h

theorem resp_modify {g : σ → σ} (h : F.rel s (g s)) : F.Resp (modify g : Exec σ ε PUnit) s := h

theorem resp_set {s' : σ} (h : F.rel s s') : F.Resp (set s' : Exec σ ε PUnit) s := h

/-- **Composition.** -/
theorem resp_bind {x : Exec σ ε α} {f : α → Exec σ ε β} (hx : F.Resp x s)
    (hf : ∀ a s', x s = .ok (a, s') → F.Resp (f a) s') : F.Resp (x >>= f) s := by
  unfold Resp at hx ⊢
  rw [bind_apply]
  cases hr : x s with
  | error e =>
      rw [hr] at hx
      exact hx
  | ok p =>
      obtain ⟨a, s'⟩ := p
      rw [hr] at hx
      have hfa := hf a s' hr
      unfold Resp at hfa
      show match f a s' with
        | .ok (_, s'') => F.rel s s''
        | .error e => F.flt s e
      cases hr' : f a s' with
      | error e =>
          rw [hr'] at hfa
          exact F.extend hx hfa
      | ok q =>
          rw [hr'] at hfa
          exact F.trans hx hfa

theorem resp_get_bind {f : σ → Exec σ ε β} (hf : F.Resp (f s) s) : F.Resp (get >>= f) s := hf

theorem resp_set_bind {s' : σ} {f : PUnit → Exec σ ε β} (h : F.rel s s') (hf : F.Resp (f ⟨⟩) s') :
    F.Resp (set s' >>= f) s := by
  refine resp_bind (resp_set h) ?_
  intro a s'' hs
  cases hs
  exact hf

theorem resp_modify_bind {g : σ → σ} {f : PUnit → Exec σ ε β} (h : F.rel s (g s))
    (hf : F.Resp (f ⟨⟩) (g s)) : F.Resp (modify g >>= f) s := by
  refine resp_bind (resp_modify h) ?_
  intro a s'' hs
  cases hs
  exact hf

end Frame
end Exec
end Lib
