import MqttServer.Lib.Run

/-!
# `Lib.Calls` — programs that make calls

A program that works on an object through calls only: each call is answered, and the answer decides how the program goes on. On an
object that answers (`step`) a program has a result (`eval`) and issues a list of calls (`issued`), which is a run of the machine
that the object is (`eval_run`). `Simulates` compares a program with a function on another presentation of the object, as far as
its calls meet a condition; its rules follow the program, so that only single calls have to be compared by hand.
-/

namespace Lib

/-- A program with calls `ι`, answers `ρ` and a result; `none` is an early return. -/
inductive Calls (ι ρ α : Type) where
  | ret (result : Option α)
  | call (op : ι) (next : ρ → Calls ι ρ α)

namespace Calls

variable {ι ρ α β σ τ : Type}

/-- Go on with the result, if there is one. -/
def andThen : Calls ι ρ α → (α → Calls ι ρ β) → Calls ι ρ β
  | ret none, _ => ret none
  | ret (some a), f => f a
  | call op next, f => call op fun r => (next r).andThen f

instance : Monad (Calls ι ρ) where
  pure a := ret (some a)
  bind := andThen

/-- One call, and what is wanted of its answer. -/
def ask (op : ι) (get : ρ → Option α) : Calls ι ρ α := call op fun r => ret (get r)

/-- One call whose answer is not looked at. -/
def tell (op : ι) : Calls ι ρ Unit := call op fun _ => ret (some ())

/-- A program whose failure is a result. -/
def attempt : Calls ι ρ α → Calls ι ρ (Option α)
  | ret result => ret (some result)
  | call op next => call op fun r => (next r).attempt

section Run

variable (step : σ → ι → ρ × σ)

/-- The result, and the object behind the last call. -/
def eval : Calls ι ρ α → σ → Option α × σ
  | ret result, s => (result, s)
  | call op next, s => (next (step s op).1).eval (step s op).2

/-- The calls, in order. -/
def issued : Calls ι ρ α → σ → List ι
  | ret _, _ => []
  | call op next, s => op :: (next (step s op).1).issued (step s op).2

/-- The calls of several programs one after the other, whatever their results are. -/
def issuedAll : List (Calls ι ρ α) → σ → List ι
  | [], _ => []
  | x :: xs, s => x.issued step s ++ issuedAll xs (x.eval step s).2

theorem eval_run (x : Calls ι ρ α) : ∀ s, (x.eval step s).2 = run (fun s op => (step s op).2) s (x.issued step s) := by
  induction x with
  | ret result => exact fun _ => rfl
  | call op next ih => exact fun s => ih _ _

end Run

/-! ## Simulation -/

/-- A function that goes on with the result of another. -/
def seq (y : τ → Option α × τ) (g : α → τ → Option β × τ) : τ → Option β × τ := fun t =>
  match y t with
  | (some a, t') => g a t'
  | (none, t') => (none, t')

variable {step : σ → ι → ρ × σ} {P : σ → ι → Prop} {R : σ → τ → Prop} {x : Calls ι ρ α} {y : τ → Option α × τ}

theorem eval_andThen (x : Calls ι ρ α) (f : α → Calls ι ρ β) :
    ∀ s, (x.andThen f).eval step s = seq (x.eval step) (fun a => (f a).eval step) s := by
  induction x with
  | ret result =>
      intro s
      cases result with
      | none => rfl
      | some a => rfl
  | call op next ih => exact fun s => ih _ _

/-- The calls of a program and of what goes on with its result. -/
theorem issued_andThen (x : Calls ι ρ α) (f : α → Calls ι ρ β) : ∀ s, (x.andThen f).issued step s =
    x.issued step s ++ (x.eval step s).1.elim [] fun a => (f a).issued step (x.eval step s).2 := by
  induction x with
  | ret result =>
      intro s
      cases result with
      | none => rfl
      | some a => rfl
  | call op next ih => exact fun s => congrArg (op :: ·) (ih _ _)

theorem eval_attempt (x : Calls ι ρ α) :
    ∀ s, x.attempt.eval step s = (some (x.eval step s).1, (x.eval step s).2) := by
  induction x with
  | ret result => exact fun _ => rfl
  | call op next ih => exact fun s => ih _ _

theorem issued_attempt (x : Calls ι ρ α) : ∀ s, x.attempt.issued step s = x.issued step s := by
  induction x with
  | ret result => exact fun _ => rfl
  | call op next ih => exact fun s => congrArg (op :: ·) (ih _ _)

/-- Two programs that make the same calls on an object, with the same result. -/
def Alike (step : σ → ι → ρ × σ) (s : σ) (x x' : Calls ι ρ α) : Prop :=
  x.issued step s = x'.issued step s ∧ x.eval step s = x'.eval step s

theorem Alike.refl (x : Calls ι ρ α) (s : σ) : Alike step s x x := ⟨rfl, rfl⟩

/-- Programs with parts that are alike, the second ones where the first ones lead. -/
theorem Alike.andThen {x x' : Calls ι ρ α} {f f' : α → Calls ι ρ β} {s : σ} (hx : Alike step s x x')
    (hf : ∀ a, (x.eval step s).1 = some a → Alike step (x.eval step s).2 (f a) (f' a)) :
    Alike step s (x.andThen f) (x'.andThen f') := by
  unfold Alike
  rw [issued_andThen, issued_andThen, eval_andThen, eval_andThen, ← hx.1]
  unfold seq
  rw [← hx.2]
  rcases hs : x.eval step s with ⟨_ | a, s'⟩
  · exact ⟨rfl, rfl⟩
  · rw [hs] at hf
    obtain ⟨hissued, heval⟩ := hf a rfl
    exact ⟨congrArg (x.issued step s ++ ·) hissued, heval⟩

/-- **Simulation**: from related objects, and with calls that all meet `P`, the same results and related objects again. -/
def Simulates (step : σ → ι → ρ × σ) (P : σ → ι → Prop) (R : σ → τ → Prop) (x : Calls ι ρ α) (y : τ → Option α × τ) : Prop :=
  ∀ s t, R s t → Along (fun s op => (step s op).2) P s (x.issued step s) →
    (x.eval step s).1 = (y t).1 ∧ R (x.eval step s).2 (y t).2

theorem simulates_ret (result : Option α) : Simulates step P R (ret result) fun t => (result, t) :=
  fun _ _ h _ => ⟨rfl, h⟩

/-- A single call. -/
theorem simulates_ask {op : ι} {get : ρ → Option α}
    (h : ∀ s t, R s t → P s op → get (step s op).1 = (y t).1 ∧ R (step s op).2 (y t).2) : Simulates step P R (ask op get) y :=
  fun s t hR hP => h s t hR hP.1

theorem simulates_tell {op : ι} {g : τ → τ} (h : ∀ s t, R s t → P s op → R (step s op).2 (g t)) :
    Simulates step P R (tell op) fun t => (some (), g t) :=
  fun s t hR hP => ⟨rfl, h s t hR hP.1⟩

/-- Where the first part agrees and a simulation follows, the whole agrees. -/
theorem andThen_agrees {f : α → Calls ι ρ β} {g : α → τ → Option β × τ} {s : σ} {t : τ}
    (hx : (x.eval step s).1 = (y t).1 ∧ R (x.eval step s).2 (y t).2) (hf : ∀ a, Simulates step P R (f a) (g a))
    (hP : Along (fun s op => (step s op).2) P s ((x.andThen f).issued step s)) :
    ((x.andThen f).eval step s).1 = (seq y g t).1 ∧ R ((x.andThen f).eval step s).2 (seq y g t).2 := by
  obtain ⟨hres, hnext⟩ := hx
  rw [issued_andThen, along_append] at hP
  have hrest := hP.2
  rw [← eval_run] at hrest
  rw [eval_andThen]
  unfold seq
  rcases hy : y t with ⟨_ | b, t'⟩
  · rw [hy] at hres hnext
    rcases hs : x.eval step s with ⟨_ | a, s'⟩
    · rw [hs] at hnext
      exact ⟨rfl, hnext⟩
    · rw [hs] at hres
      cases hres
  · rw [hy] at hres hnext
    rcases hs : x.eval step s with ⟨_ | a, s'⟩
    · rw [hs] at hres
      cases hres
    · rw [hs] at hres hnext hrest
      cases hres
      exact hf _ s' t' hnext hrest

theorem Simulates.andThen {f : α → Calls ι ρ β} {g : α → τ → Option β × τ} (h : Simulates step P R x y)
    (hf : ∀ a, Simulates step P R (f a) (g a)) : Simulates step P R (x.andThen f) (seq y g) := by
  intro s t hR hP
  have hfirst := hP
  rw [issued_andThen, along_append] at hfirst
  exact andThen_agrees (h s t hR hfirst.1) hf hP

theorem Simulates.attempt (h : Simulates step P R x y) :
    Simulates step P R x.attempt fun t => (some (y t).1, (y t).2) := by
  intro s t hR hP
  rw [issued_attempt] at hP
  obtain ⟨hres, hnext⟩ := h s t hR hP
  rw [eval_attempt]
  exact ⟨congrArg some hres, hnext⟩

end Calls
end Lib
