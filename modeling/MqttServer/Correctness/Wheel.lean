import MqttServer.Reactor.TimerWheel

/-!
# `Correctness.Wheel` — the timer wheel keeps its nodes

A node whose tick is `w` lies in one of the lists, in the slot of `w`, and that slot will be opened at the right tick
(`TimerCore.Holds`): adding, removing and cascading keep this, and so does the move to the next tick, which takes out
exactly the nodes that are due. Ticks are counted here without the wrap of the 32-bit counters; the wheel sees
them modulo `2 ^ 32`, which its lists do not notice.
-/

namespace MqttServer

open Lib

/-! ## 32-bit differences -/

theorem sub32_mod {w t : Nat} (hlo : t ≤ w) (hhi : w < t + 2 ^ 32) : sub32 (w % 2 ^ 32) (t % 2 ^ 32) = w - t := by
  unfold sub32
  omega

theorem sub32_of_lt {a b : Nat} (ha : a < 2 ^ 32) (hb : b ≤ a) : sub32 a b = a - b := by
  unfold sub32
  omega

theorem signed32_nonneg {a : Nat} (h : a < 2 ^ 31) : 0 ≤ signed32 a := by
  unfold signed32
  rw [if_pos h]
  exact Int.natCast_nonneg a

theorem signed32_neg {a : Nat} (h : 2 ^ 31 ≤ a) (h' : a < 2 ^ 32) : signed32 a < 0 := by
  unfold signed32
  rw [if_neg (Nat.not_lt.mpr h)]
  omega

/-! ## Lists -/

variable {core : TimerCore} {live live' : TimerId → Prop} {wake wake' : TimerId → Nat} {t : Nat} {v v' : Tv}
  {i i' : Nat} {id : TimerId}

theorem Tv.shift_add_bits (v : Tv) : v.level.shift + v.level.bits ≤ 32 := by
  cases v <;> decide

theorem Tv.slot_mod (v : Tv) (t : Nat) : v.slot (t % 2 ^ 32) = v.slot t := Level.slot_mod v.shift_add_bits

namespace TimerCore

@[simp] theorem put_vec {ids : List TimerId} : (core.put v i ids).vec v' i' =
    if v' = v ∧ i' = i then ids else core.vec v' i' := by
  unfold put
  by_cases hv : v' = v
  · subst hv
    by_cases hi : i' = i
    · subst hi
      simp
    · simp [hi]
  · simp [hv]

@[simp] theorem put_timerJiffies {ids : List TimerId} : (core.put v i ids).timerJiffies = core.timerJiffies := rfl

@[simp] theorem internalAdd_timerJiffies {expires : Nat} :
    (core.internalAdd id expires).timerJiffies = core.timerJiffies := by
  unfold internalAdd
  rw [put_timerJiffies]

/-- The wheel holds these nodes, each to be taken out at its tick, and the next tick is `t`. -/
structure Holds (core : TimerCore) (live : TimerId → Prop) (wake : TimerId → Nat) (t : Nat) : Prop where
  now : core.timerJiffies = t % 2 ^ 32
  nodup : ∀ v i, (core.vec v i).Nodup
  mem : ∀ v i id, id ∈ core.vec v i → live id ∧ i = v.slot (wake id) ∧ v.level.Covers t (wake id)
  one : ∀ v v' i i' id, id ∈ core.vec v i → id ∈ core.vec v' i' → v = v'
  all : ∀ id, live id → ∃ v, id ∈ core.vec v (v.slot (wake id))

/-- The slots of this tick have been opened: what is left in the vector is for later ones. -/
def Ahead (core : TimerCore) (wake : TimerId → Nat) (t : Nat) (v : Tv) : Prop :=
  ∀ i id, id ∈ core.vec v i → t < v.level.base (wake id)

/-- The vectors with slots shorter than `2 ^ k` have been opened. -/
def Opened (core : TimerCore) (wake : TimerId → Nat) (t k : Nat) : Prop :=
  ∀ v, v ≠ Tv.tv1 → v.level.shift < k → core.Ahead wake t v

namespace Holds

theorem congr (h : core.Holds live wake t) (hlive : ∀ id, live' id ↔ live id) (hwake : ∀ id, live id → wake' id = wake id) :
    core.Holds live' wake' t where
  now := h.now
  nodup := h.nodup
  mem v i id hid := by
    obtain ⟨hl, hi, hc⟩ := h.mem v i id hid
    rw [hwake id hl]
    exact ⟨(hlive id).mpr hl, hi, hc⟩
  one := h.one
  all id hid := by
    obtain ⟨v, hv⟩ := h.all id ((hlive id).mp hid)
    rw [hwake id ((hlive id).mp hid)]
    exact ⟨v, hv⟩

/-- A node can be in one list only. -/
theorem one_list (h : core.Holds live wake t) (hid : id ∈ core.vec v i) (hid' : id ∈ core.vec v' i') : v = v' ∧ i = i' := by
  have hv := h.one v v' i i' id hid hid'
  subst hv
  exact ⟨rfl, (h.mem v i id hid).2.1.trans (h.mem v i' id hid').2.1.symm⟩

/-- A node that is due in at least a slot of the vector and less than a turn of it. -/
theorem far {w : Nat} (v : Tv) (hl : t + 2 ^ v.level.shift ≤ w) (hh : w < t + 2 ^ (v.level.shift + v.level.bits)) :
    v.level.Covers t w ∧ (v ≠ .tv1 → t < v.level.base w) := by
  obtain ⟨hlt, hc⟩ := Level.covers_of_far hl hh
  exact ⟨hc, fun _ => hlt⟩

/-- **Where a node goes.** -/
theorem place_eq {w : Nat} (hnow : core.timerJiffies = t % 2 ^ 32) (hlo : t ≤ w) (hhi : w < t + 2 ^ 31) :
    ∃ v, core.place (w % 2 ^ 32) = (v, v.slot w) ∧ v.level.Covers t w ∧ (v ≠ .tv1 → t < v.level.base w) := by
  have hidx : sub32 (w % 2 ^ 32) core.timerJiffies = w - t := by
    rw [hnow]
    exact sub32_mod hlo (by omega)
  have hsmall : w - t < 2 ^ 31 := by omega
  have hsigned : ¬ signed32 (w - t) < 0 := Int.not_lt.mpr (signed32_nonneg hsmall)
  unfold place
  simp only [hidx, Tv.slot_mod, if_neg hsigned]
  split
  · refine ⟨.tv1, rfl, ?_, fun h => absurd rfl h⟩
    unfold Level.Covers
    rw [Level.base_of_shift rfl]
    simp only [Tv.level]
    omega
  · split
    · refine ⟨.tv2, rfl, far .tv2 ?_ ?_⟩ <;> (simp only [Tv.level]; omega)
    · split
      · refine ⟨.tv3, rfl, far .tv3 ?_ ?_⟩ <;> (simp only [Tv.level]; omega)
      · split
        · refine ⟨.tv4, rfl, far .tv4 ?_ ?_⟩ <;> (simp only [Tv.level]; omega)
        · refine ⟨.tv5, rfl, far .tv5 ?_ ?_⟩ <;> (simp only [Tv.level]; omega)

/-- **Adding a node.** -/
theorem add (h : core.Holds live wake t) (hid : ¬ live id) (hlo : t ≤ wake id) (hhi : wake id < t + 2 ^ 31) :
    (core.internalAdd id (wake id % 2 ^ 32)).Holds (fun x => x = id ∨ live x) wake t ∧
      ∀ v, v ≠ .tv1 → core.Ahead wake t v → (core.internalAdd id (wake id % 2 ^ 32)).Ahead wake t v := by
  -- one vector takes the event, the one whose span its due tick falls into
  obtain ⟨v, hplace, hcov, hahead⟩ := place_eq h.now hlo hhi
  have hadd : core.internalAdd id (wake id % 2 ^ 32) = core.put v (v.slot (wake id)) (core.vec v (v.slot (wake id)) ++ [id]) := by
    unfold internalAdd
    rw [hplace]
  have hnot : ∀ v i, id ∉ core.vec v i := fun v i hm => hid (h.mem v i id hm).1
  have hmem : ∀ v' i' x, x ∈ (core.internalAdd id (wake id % 2 ^ 32)).vec v' i' ↔
      x ∈ core.vec v' i' ∨ (x = id ∧ v' = v ∧ i' = v.slot (wake id)) := by
    intro v' i' x
    rw [hadd, put_vec]
    split
    · rename_i heq
      obtain ⟨rfl, rfl⟩ := heq
      simp
    · rename_i hne
      constructor
      · exact Or.inl
      · rintro (hx | ⟨-, heq⟩)
        · exact hx
        · exact absurd heq hne
  constructor
  · constructor
    case now => rw [internalAdd_timerJiffies, h.now]
    case nodup =>
        intro v' i'
        rw [hadd, put_vec]
        split
        · exact List.nodup_append.mpr ⟨h.nodup _ _, List.nodup_singleton id, fun x hx y hy hxy => by
            rw [List.mem_singleton.mp hy] at hxy
            exact hnot _ _ (hxy ▸ hx)⟩
        · exact h.nodup _ _
    case mem =>
        intro v' i' x hx
        rcases (hmem v' i' x).mp hx with hx | ⟨rfl, rfl, rfl⟩
        · obtain ⟨hl, hi, hc⟩ := h.mem v' i' x hx
          exact ⟨Or.inr hl, hi, hc⟩
        · exact ⟨Or.inl rfl, rfl, hcov⟩
    case one =>
        intro v₁ v₂ i₁ i₂ x hx₁ hx₂
        rcases (hmem v₁ i₁ x).mp hx₁ with hold₁ | ⟨rfl, rfl, rfl⟩
        · rcases (hmem v₂ i₂ x).mp hx₂ with hold₂ | ⟨rfl, rfl, rfl⟩
          · exact h.one _ _ _ _ x hold₁ hold₂
          · exact absurd hold₁ (hnot _ _)
        · rcases (hmem v₂ i₂ x).mp hx₂ with hold₂ | ⟨-, rfl, rfl⟩
          · exact absurd hold₂ (hnot _ _)
          · rfl
    case all =>
        rintro x (rfl | hx)
        · exact ⟨v, (hmem _ _ _).mpr (Or.inr ⟨rfl, rfl, rfl⟩)⟩
        · obtain ⟨v', hv'⟩ := h.all x hx
          exact ⟨v', (hmem _ _ _).mpr (Or.inl hv')⟩
  · intro v' hne hold i' x hx
    rcases (hmem v' i' x).mp hx with hx | ⟨rfl, rfl, rfl⟩
    · exact hold i' x hx
    · exact hahead hne

/-- Adding several nodes, one after the other. -/
theorem addAll {expires : TimerId → Nat} (ids : List TimerId) : ∀ (core : TimerCore) (live : TimerId → Prop),
    core.Holds live wake t → ids.Nodup →
    (∀ x ∈ ids, ¬ live x ∧ t ≤ wake x ∧ wake x < t + 2 ^ 31 ∧ expires x = wake x % 2 ^ 32) →
    (ids.foldl (fun core id => core.internalAdd id (expires id)) core).Holds (fun x => x ∈ ids ∨ live x) wake t ∧
      ∀ v, v ≠ .tv1 → core.Ahead wake t v →
        (ids.foldl (fun core id => core.internalAdd id (expires id)) core).Ahead wake t v := by
  induction ids with
  | nil =>
      intro core live h _ _
      exact ⟨h.congr (fun x => by simp) fun _ _ => rfl, fun _ _ ha => ha⟩
  | cons id ids ih =>
      intro core live h hnodup hids
      obtain ⟨hnot, hlo, hhi, hexp⟩ := hids id List.mem_cons_self
      rw [List.nodup_cons] at hnodup
      obtain ⟨hadd, hahead⟩ := h.add hnot hlo hhi
      rw [List.foldl_cons, hexp]
      obtain ⟨hrest, hahead'⟩ := ih _ _ hadd hnodup.2 fun x hx => by
        obtain ⟨hx₁, hx₂⟩ := hids x (List.mem_cons_of_mem _ hx)
        refine ⟨?_, hx₂⟩
        rintro (rfl | hl)
        · exact hnodup.1 hx
        · exact hx₁ hl
      refine ⟨hrest.congr (fun x => ?_) fun _ _ => rfl, fun v hne ha => hahead' v hne (hahead v hne ha)⟩
      rw [List.mem_cons, or_assoc, or_left_comm]

/-- Emptying a list. -/
theorem take (h : core.Holds live wake t) (v : Tv) (i : Nat) :
    (core.put v i []).Holds (fun x => live x ∧ x ∉ core.vec v i) wake t := by
  have hmem : ∀ v' i' x, x ∈ (core.put v i []).vec v' i' ↔ x ∈ core.vec v' i' ∧ ¬ (v' = v ∧ i' = i) := by
    intro v' i' x
    rw [put_vec]
    split
    · rename_i heq
      simp [heq]
    · rename_i hne
      simp [hne]
  constructor
  case now => exact h.now
  case nodup =>
      intro v' i'
      rw [put_vec]
      split
      · exact List.nodup_nil
      · exact h.nodup v' i'
  case mem =>
      intro v' i' x hx
      obtain ⟨hx, hne⟩ := (hmem v' i' x).mp hx
      obtain ⟨hl, hi, hc⟩ := h.mem v' i' x hx
      exact ⟨⟨hl, fun hx' => hne (h.one_list hx hx')⟩, hi, hc⟩
  case one =>
      intro v₁ v₂ i₁ i₂ x hx₁ hx₂
      exact h.one _ _ _ _ x ((hmem _ _ _).mp hx₁).1 ((hmem _ _ _).mp hx₂).1
  case all =>
      rintro x ⟨hl, hx⟩
      obtain ⟨v', hv'⟩ := h.all x hl
      refine ⟨v', (hmem _ _ _).mpr ⟨hv', ?_⟩⟩
      rintro ⟨rfl, rfl⟩
      exact hx hv'

/-- Taking a node out. -/
theorem remove (h : core.Holds live wake t) (id : TimerId) : (core.remove id).Holds (fun x => live x ∧ x ≠ id) wake t := by
  have hmem : ∀ v' i' x, x ∈ (core.remove id).vec v' i' ↔ x ∈ core.vec v' i' ∧ x ≠ id := by
    intro v' i' x
    unfold TimerCore.remove
    simp
  constructor
  case now => exact h.now
  case nodup => exact fun v i => (h.nodup v i).filter _
  case mem =>
      intro v' i' x hx
      obtain ⟨hx, hne⟩ := (hmem v' i' x).mp hx
      obtain ⟨hl, hi, hc⟩ := h.mem v' i' x hx
      exact ⟨⟨hl, hne⟩, hi, hc⟩
  case one =>
      intro v₁ v₂ i₁ i₂ x hx₁ hx₂
      exact h.one _ _ _ _ x ((hmem _ _ _).mp hx₁).1 ((hmem _ _ _).mp hx₂).1
  case all =>
      rintro x ⟨hl, hne⟩
      obtain ⟨v', hv'⟩ := h.all x hl
      exact ⟨v', (hmem _ _ _).mpr ⟨hv', hne⟩⟩

/-! ## A tick -/

/-- A slot that is not opened at this tick. -/
theorem ahead_of_not_dvd {k : Nat} (h : core.Holds live wake t) (hk : k ≤ v.level.shift) (ht : ¬ 2 ^ k ∣ t) :
    core.Ahead wake t v := by
  intro i x hx
  obtain ⟨-, -, hle, -⟩ := h.mem v i x hx
  have hne : v.level.base (wake x) ≠ t := Level.base_ne fun hd => ht (Nat.dvd_trans (Nat.pow_dvd_pow 2 hk) hd)
  exact Nat.lt_of_le_of_ne hle hne.symm

/-- **Spreading a list over the lower vectors.** -/
theorem cascade {expires : TimerId → Nat} (h : core.Holds live wake t) (hv : v ≠ .tv1) (ht : 2 ^ v.level.shift ∣ t)
    (hexp : ∀ x, live x → expires x = wake x % 2 ^ 32) :
    (core.internalCascade expires v (v.slot t)).Holds live wake t ∧
      ∀ v', v' ≠ .tv1 → v' = v ∨ core.Ahead wake t v' →
        (core.internalCascade expires v (v.slot t)).Ahead wake t v' := by
  have hspan : 2 ^ v.level.shift ≤ 2 ^ 26 := Nat.pow_le_pow_right (by decide) (by cases v <;> decide)
  have hids : ∀ x ∈ core.vec v (v.slot t), live x ∧ t ≤ wake x ∧ wake x < t + 2 ^ 31 := by
    intro x hx
    obtain ⟨hl, hi, hc⟩ := h.mem v _ x hx
    -- the slot is opened for this node
    have hbase := hc.base_eq ht hi.symm
    have hle := v.level.base_le (wake x)
    have hlt := v.level.lt_base_add (wake x)
    exact ⟨hl, by omega, by omega⟩
  have htake := h.take v (v.slot t)
  obtain ⟨hadd, hahead⟩ := addAll (core.vec v (v.slot t)) _ _ htake (h.nodup v _) fun x hx =>
    ⟨fun hn => hn.2 hx, (hids x hx).2.1, (hids x hx).2.2, hexp x (hids x hx).1⟩
  refine ⟨hadd.congr (fun x => ?_) fun _ _ => rfl, fun v' hv' hor => hahead v' hv' fun i x hx => ?_⟩
  · by_cases hx : x ∈ core.vec v (v.slot t)
    · simp [hx, (hids x hx).1]
    · simp [hx]
  · rw [put_vec] at hx
    split at hx
    · cases hx
    · rename_i hne
      rcases hor with rfl | hold
      · obtain ⟨-, hi, hle, -⟩ := h.mem v' i x hx
        have hbase : v'.level.base (wake x) ≠ t := by
          intro hbase
          apply hne
          refine ⟨rfl, hi.trans ?_⟩
          unfold Tv.slot
          rw [← Level.slot_base, hbase]
        exact Nat.lt_of_le_of_ne hle hbase.symm
      · exact hold i x hx

/-- A vector after the ones below it. -/
theorem cascade_opened {expires : TimerId → Nat} (h : core.Holds live wake t) (hop : core.Opened wake t v.level.shift)
    (hv : v ≠ .tv1) (ht : 2 ^ v.level.shift ∣ t) (hexp : ∀ x, live x → expires x = wake x % 2 ^ 32) :
    (core.internalCascade expires v (v.slot t)).Holds live wake t ∧
      (core.internalCascade expires v (v.slot t)).Opened wake t (v.level.shift + v.level.bits) := by
  obtain ⟨hc, hahead⟩ := h.cascade hv ht hexp
  refine ⟨hc, fun v' hv' hlt => hahead v' hv' ?_⟩
  have hcases : v' = v ∨ v'.level.shift < v.level.shift := by
    cases v <;> cases v' <;> revert hlt <;> decide
  exact hcases.imp_right (hop v' hv')

/-- The vectors above one that is not at the start of a turn are not opened. -/
theorem opened_all {k : Nat} (h : core.Holds live wake t) (hop : core.Opened wake t k) (ht : ¬ 2 ^ k ∣ t) (hv : v ≠ .tv1) :
    core.Ahead wake t v := by
  rcases Nat.lt_or_ge v.level.shift k with hlt | hge
  · exact hop v hv hlt
  · exact h.ahead_of_not_dvd hge ht

/-- After the cascades of a tick everything that is due at it is in the first vector. -/
theorem cascades {expires : TimerId → Nat} (h : core.Holds live wake t) (hexp : ∀ x, live x → expires x = wake x % 2 ^ 32) :
    (core.cascades expires).Holds live wake t ∧ ∀ v, v ≠ .tv1 → (core.cascades expires).Ahead wake t v := by
  unfold TimerCore.cascades
  simp only [h.now, Tv.slot_mod]
  have hd1 : 2 ^ Tv.tv1.level.shift ∣ t := Nat.one_dvd t
  have ho1 : core.Opened wake t Tv.tv2.level.shift := by
    intro v hv hlt
    cases v <;> first | exact absurd rfl hv | exact absurd hlt (by decide)
  split
  · rename_i hn
    exact ⟨h, fun v hv => h.opened_all ho1 (fun hd => hn ((Level.slot_eq_zero hd1).mpr hd)) hv⟩
  rename_i hz
  have hd2 : 2 ^ Tv.tv2.level.shift ∣ t := (Level.slot_eq_zero hd1).mp (not_not.mp hz)
  obtain ⟨h2, ho2⟩ := h.cascade_opened ho1 (by decide) hd2 hexp
  split
  · rename_i hn
    exact ⟨h2, fun v hv => h2.opened_all ho2 (fun hd => hn ((Level.slot_eq_zero hd2).mpr hd)) hv⟩
  rename_i hz
  have hd3 : 2 ^ Tv.tv3.level.shift ∣ t := (Level.slot_eq_zero hd2).mp (not_not.mp hz)
  obtain ⟨h3, ho3⟩ := h2.cascade_opened (v := .tv3) ho2 (by decide) hd3 hexp
  split
  · rename_i hn
    exact ⟨h3, fun v hv => h3.opened_all ho3 (fun hd => hn ((Level.slot_eq_zero hd3).mpr hd)) hv⟩
  rename_i hz
  have hd4 : 2 ^ Tv.tv4.level.shift ∣ t := (Level.slot_eq_zero hd3).mp (not_not.mp hz)
  obtain ⟨h4, ho4⟩ := h3.cascade_opened (v := .tv4) ho3 (by decide) hd4 hexp
  split
  · rename_i hn
    exact ⟨h4, fun v hv => h4.opened_all ho4 (fun hd => hn ((Level.slot_eq_zero hd4).mpr hd)) hv⟩
  rename_i hz
  have hd5 : 2 ^ Tv.tv5.level.shift ∣ t := (Level.slot_eq_zero hd4).mp (not_not.mp hz)
  obtain ⟨h5, ho5⟩ := h4.cascade_opened (v := .tv5) ho4 (by decide) hd5 hexp
  exact ⟨h5, fun v hv => ho5 v hv (by cases v <;> decide)⟩

/-- **A tick.** The first list of the first vector has exactly the nodes that are due, and the rest is kept for later. -/
theorem advance (h : core.Holds live wake t) (hahead : ∀ v, v ≠ .tv1 → core.Ahead wake t v) :
    (core.vec .tv1 (Tv.tv1.slot t)).Nodup ∧ (∀ x, x ∈ core.vec .tv1 (Tv.tv1.slot t) ↔ live x ∧ wake x = t) ∧
      { core.put .tv1 (Tv.tv1.slot t) [] with timerJiffies := (core.timerJiffies + 1) % 2 ^ 32 }.Holds
        (fun x => live x ∧ x ∉ core.vec .tv1 (Tv.tv1.slot t)) wake (t + 1) := by
  have hbase : ∀ e, Tv.tv1.level.base e = e := Level.base_of_shift rfl
  have hmem : ∀ x, x ∈ core.vec .tv1 (Tv.tv1.slot t) ↔ live x ∧ wake x = t := by
    intro x
    constructor
    · intro hx
      obtain ⟨hl, hi, hc⟩ := h.mem _ _ x hx
      exact ⟨hl, (hbase (wake x)).symm.trans (hc.base_eq (Nat.one_dvd t) hi.symm)⟩
    · rintro ⟨hl, rfl⟩
      obtain ⟨v, hv⟩ := h.all x hl
      by_cases hne : v = .tv1
      · rw [hne] at hv
        exact hv
      · exact absurd (hahead v hne _ x hv) (Nat.not_lt.mpr (v.level.base_le (wake x)))
  have htake := h.take .tv1 (Tv.tv1.slot t)
  refine ⟨h.nodup _ _, hmem, ?_, htake.nodup, ?_, htake.one, htake.all⟩
  · show (core.timerJiffies + 1) % 2 ^ 32 = (t + 1) % 2 ^ 32
    rw [h.now, Nat.mod_add_mod]
  · intro v i x hx
    obtain ⟨hl, hi, hc⟩ := htake.mem v i x hx
    refine ⟨hl, hi, hc.next ?_⟩
    by_cases hne : v = .tv1
    · rw [hne, hbase]
      exact fun hw => hl.2 ((hmem x).mpr ⟨hl.1, hw⟩)
    · have hx : x ∈ core.vec v i := by
        change x ∈ (core.put .tv1 (Tv.tv1.slot t) []).vec v i at hx
        rw [put_vec, if_neg fun h => hne h.1] at hx
        exact hx
      exact (hahead v hne i x hx).ne'

end Holds

end TimerCore

end MqttServer
