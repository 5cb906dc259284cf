import Mathlib.Logic.Function.Basic

/-!
# `Lib.Epoll` — descriptors and an interest list

The descriptor table of a process, and the interest list of one epoll instance. Each open descriptor has an owner, and
each watched descriptor some data that its events are delivered with. Closing a descriptor takes it off the list, so only
open descriptors are watched.
-/

namespace Lib

/-- The open descriptors, and what is watched. -/
structure Epoll (ω δ : Type) where
  opened : Nat → Option ω
  interest : Nat → Option δ
  watched_open : ∀ fd, opened fd = none → interest fd = none

namespace Epoll

variable {ω δ : Type}

/-- Nothing is open. -/
def empty : Epoll ω δ where
  opened _ := none
  interest _ := none
  watched_open _ _ := rfl

/-- `fd` becomes an open descriptor of `o`. -/
def socket (e : Epoll ω δ) (fd : Nat) (o : ω) : Epoll ω δ where
  opened := Function.update e.opened fd (some o)
  interest := e.interest
  watched_open fd' h := by
    by_cases hfd : fd' = fd
    · rw [hfd, Function.update_self] at h
      cases h
    · rw [Function.update_of_ne hfd] at h
      exact e.watched_open fd' h

/-- `::close`. -/
def close (e : Epoll ω δ) (fd : Nat) : Epoll ω δ where
  opened := Function.update e.opened fd none
  interest := Function.update e.interest fd none
  watched_open fd' h := by
    by_cases hfd : fd' = fd
    · rw [hfd, Function.update_self]
    · rw [Function.update_of_ne hfd] at h ⊢
      exact e.watched_open fd' h

/-- Watch an open descriptor with new data. -/
def watch (e : Epoll ω δ) (fd : Nat) (d : δ) (h : e.opened fd ≠ none) : Epoll ω δ where
  opened := e.opened
  interest := Function.update e.interest fd (some d)
  watched_open fd' h' := by
    have hfd : fd' ≠ fd := by
      rintro rfl
      exact h h'
    rw [Function.update_of_ne hfd]
    exact e.watched_open fd' h'

/-- `EPOLL_CTL_ADD`: the descriptor is open, and not watched. -/
def add (e : Epoll ω δ) (fd : Nat) (d : δ) : Option (Epoll ω δ) :=
  if h : e.opened fd ≠ none then if (e.interest fd).isNone then some (e.watch fd d h) else none else none

/-- `EPOLL_CTL_MOD`: the descriptor is watched. -/
def mod (e : Epoll ω δ) (fd : Nat) (d : δ) : Option (Epoll ω δ) :=
  if h : e.opened fd ≠ none then if (e.interest fd).isSome then some (e.watch fd d h) else none else none

/-- `EPOLL_CTL_DEL`: the descriptor is watched. -/
def del (e : Epoll ω δ) (fd : Nat) : Option (Epoll ω δ) :=
  if (e.interest fd).isSome then
    some { opened := e.opened
           interest := Function.update e.interest fd none
           watched_open := fun fd' h => by
             by_cases hfd : fd' = fd
             · rw [hfd, Function.update_self]
             · rw [Function.update_of_ne hfd]
               exact e.watched_open fd' h }
  else none

variable {e e' : Epoll ω δ} {fd : Nat} {d : δ}

/-- What a successful `EPOLL_CTL_ADD` does. -/
theorem add_eq_some (h : e.add fd d = some e') :
    e.interest fd = none ∧ e'.opened = e.opened ∧ e'.interest = Function.update e.interest fd (some d) := by
  unfold add at h
  split at h
  · split at h
    · rename_i hnone
      cases h
      exact ⟨Option.isNone_iff_eq_none.mp hnone, rfl, rfl⟩
    · cases h
  · cases h

/-- What a successful `EPOLL_CTL_MOD` does. -/
theorem mod_eq_some (h : e.mod fd d = some e') :
    e.interest fd ≠ none ∧ e'.opened = e.opened ∧ e'.interest = Function.update e.interest fd (some d) := by
  unfold mod at h
  split at h
  · split at h
    · rename_i hsome
      cases h
      exact ⟨Option.isSome_iff_ne_none.mp hsome, rfl, rfl⟩
    · cases h
  · cases h

/-- What a successful `EPOLL_CTL_DEL` does. -/
theorem del_eq_some (h : e.del fd = some e') :
    e.interest fd ≠ none ∧ e'.opened = e.opened ∧ e'.interest = Function.update e.interest fd none := by
  unfold del at h
  split at h
  · rename_i hsome
    cases h
    exact ⟨Option.isSome_iff_ne_none.mp hsome, rfl, rfl⟩
  · cases h

/-- `EPOLL_CTL_DEL` succeeds just when the descriptor is watched. -/
theorem del_isSome : (e.del fd).isSome = true ↔ e.interest fd ≠ none := by
  unfold del
  by_cases h : (e.interest fd).isSome = true
  · rw [if_pos h]
    exact iff_of_true rfl (Option.isSome_iff_ne_none.mp h)
  · rw [if_neg h]
    exact iff_of_false (fun hx => by cases hx) fun hx => h (Option.isSome_iff_ne_none.mpr hx)

end Epoll
end Lib
