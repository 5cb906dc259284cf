import Mathlib.Tactic

/-!
# `Lib.Wheel` — the levels of a hierarchical timing wheel

A level has `2 ^ bits` slots of `2 ^ shift` ticks each. An entry that is due at tick `e` lies in the slot of `e`, and
that slot is opened at the first tick of its span, `base e`. A level `Covers` an entry as long as `base e` is still to
come and lies within one turn of the wheel: then no other opening of the same slot comes first. Ticks are natural
numbers; a slot depends on the low `shift + bits` bits only, so a wheel may count them modulo a larger power of two.
-/

namespace Lib

/-- A level of a timing wheel. -/
structure Level where
  shift : Nat
  bits : Nat

namespace Level

variable {l : Level} {t e w : Nat}

/-- The slot of a tick. -/
def slot (l : Level) (e : Nat) : Nat := e / 2 ^ l.shift % 2 ^ l.bits

/-- The first tick of the span of a slot. -/
def base (l : Level) (e : Nat) : Nat := e / 2 ^ l.shift * 2 ^ l.shift

/-- The next opening of the slot of `e`, from tick `t` on, is the one for `e`. -/
def Covers (l : Level) (t e : Nat) : Prop := t ≤ l.base e ∧ l.base e < t + 2 ^ (l.shift + l.bits)

theorem base_le (l : Level) (e : Nat) : l.base e ≤ e := Nat.div_mul_le_self _ _

theorem lt_base_add (l : Level) (e : Nat) : e < l.base e + 2 ^ l.shift := by
  have hdiv := Nat.div_add_mod e (2 ^ l.shift)
  have hmod := Nat.mod_lt e (Nat.two_pow_pos l.shift)
  unfold base
  rw [Nat.mul_comm]
  omega

theorem dvd_base (l : Level) (e : Nat) : 2 ^ l.shift ∣ l.base e := Nat.dvd_mul_left _ _

theorem slot_base (l : Level) (e : Nat) : l.slot (l.base e) = l.slot e := by
  unfold slot base
  rw [Nat.mul_div_cancel _ (Nat.two_pow_pos l.shift)]

/-- The first slot of a turn. -/
theorem slot_eq_zero (h : 2 ^ l.shift ∣ t) : l.slot t = 0 ↔ 2 ^ (l.shift + l.bits) ∣ t := by
  unfold slot
  rw [← Nat.dvd_iff_mod_eq_zero, Nat.pow_add, Nat.dvd_div_iff_mul_dvd h]

/-- Only the low bits count. -/
theorem slot_mod (h : l.shift + l.bits ≤ w) : l.slot (e % 2 ^ w) = l.slot e := by
  obtain ⟨d, rfl⟩ := Nat.exists_eq_add_of_le h
  unfold slot
  rw [Nat.add_assoc, Nat.pow_add, Nat.mod_mul_right_div_self, Nat.pow_add, Nat.mod_mul_right_mod]

theorem Covers.next (h : l.Covers t e) (hne : l.base e ≠ t) : l.Covers (t + 1) e := by
  obtain ⟨hle, hlt⟩ := h
  exact ⟨Nat.lt_of_le_of_ne hle (Ne.symm hne), by omega⟩

/-- An opening of the slot is the one for the entry. -/
theorem Covers.base_eq (h : l.Covers t e) (ht : 2 ^ l.shift ∣ t) (hs : l.slot e = l.slot t) : l.base e = t := by
  obtain ⟨a, rfl⟩ := ht
  obtain ⟨hle, hlt⟩ := h
  have hpos := Nat.two_pow_pos l.shift
  unfold slot at hs
  unfold base at hle hlt ⊢
  rw [Nat.mul_div_cancel_left _ hpos] at hs
  rw [Nat.mul_comm _ (2 ^ l.shift)] at hle hlt ⊢
  rw [Nat.pow_add, ← Nat.mul_add] at hlt
  have hlow : a ≤ e / 2 ^ l.shift := Nat.le_of_mul_le_mul_left hle hpos
  have hhigh : e / 2 ^ l.shift < a + 2 ^ l.bits := Nat.lt_of_mul_lt_mul_left hlt
  -- equal slots less than one turn apart
  have hmod : (e / 2 ^ l.shift - a) % 2 ^ l.bits = 0 := Nat.sub_mod_eq_zero_of_mod_eq hs
  rw [Nat.mod_eq_of_lt (by omega)] at hmod
  congr 1
  omega

/-- An entry that is due in at least one slot and less than a turn. -/
theorem covers_of_far (hlo : t + 2 ^ l.shift ≤ e) (hhi : e < t + 2 ^ (l.shift + l.bits)) : t < l.base e ∧ l.Covers t e := by
  have hlt := l.lt_base_add e
  have hle := l.base_le e
  exact ⟨by omega, by omega, by omega⟩

/-- On a level with slots of one tick an entry is due when its slot is opened. -/
theorem base_of_shift (h : l.shift = 0) (e : Nat) : l.base e = e := by
  unfold base
  rw [h, Nat.pow_zero, Nat.div_one, Nat.mul_one]

/-- A slot is opened at a multiple of its span. -/
theorem base_ne (h : ¬ 2 ^ l.shift ∣ t) : l.base e ≠ t := by
  rintro rfl
  exact h (l.dvd_base e)

end Level

end Lib
