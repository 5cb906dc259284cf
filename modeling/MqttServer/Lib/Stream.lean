import Mathlib.Data.List.TakeDrop

/-!
# `Lib.Stream` — a buffered output stream

What is given to a stream is held in a buffer and goes out from the front of it: some of it at each write, and the rest,
or again a part of it, when the stream is flushed. What is out and what is held together are all that was given
(`Stream.whole`), whenever which part of it goes out; so what is out is an initial part of it.

Writes have numbers. A write is taken whole, or stops short, and then the writes behind it are not made (`accepted`).
-/

namespace Lib

variable {α : Type}

/-- What has gone out, and what is still in the buffer. -/
structure Stream (α : Type) where
  out : List α := []
  held : List α := []
deriving DecidableEq, Repr

namespace Stream

variable {s : Stream α}

/-- All that was given to the stream. -/
def whole (s : Stream α) : List α := s.out ++ s.held

/-- More goes into the buffer. -/
def feed (s : Stream α) (xs : List α) : Stream α := { s with held := s.held ++ xs }

/-- The first `n` elements of the buffer go out. -/
def release (s : Stream α) (n : Nat) : Stream α := { out := s.out ++ s.held.take n, held := s.held.drop n }

/-- Everything goes out, or only the first `n` elements of the buffer do. -/
def flush (s : Stream α) : Option Nat → Stream α
  | none => s.release s.held.length
  | some n => s.release n

@[simp] theorem whole_feed (xs : List α) : (s.feed xs).whole = s.whole ++ xs := (List.append_assoc _ _ _).symm

@[simp] theorem whole_release (n : Nat) : (s.release n).whole = s.whole := by
  unfold whole release
  rw [List.append_assoc, List.take_append_drop]

@[simp] theorem whole_flush (n : Option Nat) : (s.flush n).whole = s.whole := by
  cases n with
  | none => exact whole_release _
  | some n => exact whole_release n

theorem out_prefix_whole (s : Stream α) : s.out <+: s.whole := List.prefix_append _ _

theorem out_eq_whole (h : s.held = []) : s.out = s.whole := by
  unfold whole
  rw [h, List.append_nil]

/-- Everything goes out. -/
theorem flush_none : s.flush none = { out := s.whole, held := [] } := by
  unfold flush release whole
  rw [List.take_length, List.drop_length]

@[simp] theorem held_flush_none : (s.flush none).held = [] := List.drop_length

/-- An empty buffer has nothing to go out. -/
theorem flush_empty (h : s.held = []) (n : Option Nat) : s.flush n = s := by
  obtain ⟨out, held⟩ := s
  obtain rfl : held = [] := h
  cases n with
  | none => simp [flush, release]
  | some n => simp [flush, release]

end Stream

/-! ## A sequence of writes -/

section Writes

variable {short : Nat → Option Nat} {drain : Nat → Nat} {n : Nat} {s : Stream α} {ws ws' : List (List α)}

/-- All of these writes succeed; the first of them has number `n`. -/
def Completed (short : Nat → Option Nat) : Nat → List (List α) → Prop
  | _, [] => True
  | n, _ :: ws => short n = none ∧ Completed short (n + 1) ws

instance decidableCompleted (short : Nat → Option Nat) : ∀ (n : Nat) (ws : List (List α)), Decidable (Completed short n ws)
  | _, [] => isTrue trivial
  | n, _ :: ws =>
      have := decidableCompleted short (n + 1) ws
      inferInstanceAs (Decidable (_ ∧ _))

/-- What the stream takes of them. -/
def accepted (short : Nat → Option Nat) : Nat → List (List α) → List α
  | _, [] => []
  | n, w :: ws =>
      match short n with
      | none => w ++ accepted short (n + 1) ws
      | some k => w.take k

/-- The stream after them, when `drain n` elements go out at write `n`. -/
def spool (short : Nat → Option Nat) (drain : Nat → Nat) : Nat → Stream α → List (List α) → Stream α
  | _, s, [] => s
  | n, s, w :: ws =>
      match short n with
      | none => spool short drain (n + 1) ((s.feed w).release (drain n)) ws
      | some k => (s.feed (w.take k)).release (drain n)

theorem completed_append (ws : List (List α)) : ∀ n, Completed short n (ws ++ ws') ↔
    Completed short n ws ∧ Completed short (n + ws.length) ws' := by
  induction ws with
  | nil => exact fun _ => (and_iff_right trivial).symm
  | cons w ws ih =>
      intro n
      have hlen : n + (w :: ws).length = n + 1 + ws.length := by
        rw [List.length_cons]
        omega
      rw [List.cons_append, Completed, Completed, ih, hlen, and_assoc]

/-- The writes behind completed ones go to the stream these have left. -/
theorem spool_append (ws : List (List α)) : ∀ n s, Completed short n ws →
    spool short drain n s (ws ++ ws') = spool short drain (n + ws.length) (spool short drain n s ws) ws' := by
  induction ws with
  | nil => exact fun _ _ _ => rfl
  | cons w ws ih =>
      rintro n s ⟨hn, hws⟩
      have hlen : n + (w :: ws).length = n + 1 + ws.length := by
        rw [List.length_cons]
        omega
      rw [List.cons_append, spool, spool, hn, hlen]
      exact ih _ _ hws

/-- The writes behind one that stops short are not made. -/
theorem spool_append_of_not (ws : List (List α)) : ∀ n s, ¬ Completed short n ws →
    spool short drain n s (ws ++ ws') = spool short drain n s ws := by
  induction ws with
  | nil => exact fun _ _ h => absurd trivial h
  | cons w ws ih =>
      intro n s h
      rw [List.cons_append, spool, spool]
      cases hn : short n with
      | some k => rfl
      | none => exact ih _ _ fun hws => h ⟨hn, hws⟩

/-- Nothing is lost between the buffer and what is out. -/
theorem spool_whole (ws : List (List α)) : ∀ n s,
    (spool short drain n s ws).whole = s.whole ++ accepted short n ws := by
  induction ws with
  | nil => exact fun _ _ => (List.append_nil _).symm
  | cons w ws ih =>
      intro n s
      rw [spool, accepted]
      cases short n with
      | none => simp only [ih, Stream.whole_release, Stream.whole_feed, List.append_assoc]
      | some k => simp only [Stream.whole_release, Stream.whole_feed]

theorem accepted_completed (ws : List (List α)) : ∀ n, Completed short n ws → accepted short n ws = ws.flatten := by
  induction ws with
  | nil => exact fun _ _ => rfl
  | cons w ws ih =>
      rintro n ⟨hn, hws⟩
      rw [accepted, hn, List.flatten_cons]
      exact congrArg (w ++ ·) (ih _ hws)

/-- What is taken is an initial part of what is written. -/
theorem accepted_initial (ws : List (List α)) : ∀ n, accepted short n ws <+: ws.flatten := by
  induction ws with
  | nil => exact fun _ => List.prefix_refl _
  | cons w ws ih =>
      intro n
      rw [accepted, List.flatten_cons]
      cases short n with
      | none => exact (List.prefix_append_right_inj w).mpr (ih (n + 1))
      | some k => exact ( List.take_prefix k w).trans (List.prefix_append _ _)

end Writes

end Lib
