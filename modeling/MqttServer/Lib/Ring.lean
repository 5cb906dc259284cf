import Mathlib.Tactic

/-!
# `Lib.Ring` — circular buffers and circular lists

A circular buffer of `n` cells is read from a first position on, modulo `n`. A `Window` says what the whole buffer
holds, seen from there: cell `i` after the first one holds `slots i`. Writing a cell is an update of one slot
(`Window.write`), and giving up the first cell turns the view by one (`Window.turn`).

A `Circle` is a list of nodes each of which leads to the next one, and the last one back to the first. It can be
turned (`Circle.rotate`), it takes a new node behind any of its nodes (`Circle.insert`), and a walk that stops when
it is back where it began visits each node once (`Circle.walk_eq`).
-/

namespace Lib

/-! ## Positions -/

section Position

variable {n f i j : Nat}

theorem position_inj (hi : i < n) (hj : j < n) (h : (f + i) % n = (f + j) % n) : i = j := by
  have hmod : i ≡ j [MOD n] := Nat.ModEq.add_left_cancel' f h
  rwa [Nat.ModEq, Nat.mod_eq_of_lt hi, Nat.mod_eq_of_lt hj] at hmod

theorem position_zero (hf : f < n) : (f + 0) % n = f := Nat.mod_eq_of_lt hf

theorem position_succ : ((f + i) % n + 1) % n = (f + (i + 1)) % n := by
  rw [Nat.mod_add_mod, Nat.add_assoc]

theorem position_add : ((f + i) % n + j) % n = (f + (i + j)) % n := by
  rw [Nat.mod_add_mod, Nat.add_assoc]

/-- A position is the first one only when it is at distance zero, or a whole turn away. -/
theorem position_eq_first (hf : f < n) (hi : i < n) : (f + i) % n = f ↔ i = 0 := by
  constructor
  · intro h
    refine position_inj hi (by omega) (f := f) ?_
    rwa [position_zero hf]
  · rintro rfl
    exact position_zero hf

end Position

/-! ## Circular buffers -/

section Window

variable {α : Type} {n f i : Nat} {cells slots slots' : Nat → α} {v : α}

/-- What the cells hold, from the position `f` on. -/
def Window (n f : Nat) (cells slots : Nat → α) : Prop := ∀ i < n, cells ((f + i) % n) = slots i

namespace Window

theorem congr (h : Window n f cells slots) (hs : ∀ i < n, slots i = slots' i) : Window n f cells slots' := by
  intro i hi
  rw [h i hi]
  exact hs i hi

/-- The first cell. -/
theorem first (h : Window n f cells slots) (hf : f < n) : cells f = slots 0 := by
  have hc := h 0 (by omega)
  rwa [position_zero hf] at hc

/-- **Writing a cell.** -/
theorem write (slots' : Nat → α) (v : α) (h : Window n f cells slots) (hi : i < n) (hs : ∀ j < n, j ≠ i → slots' j = slots j)
    (hv : slots' i = v) : Window n f (Function.update cells ((f + i) % n) v) slots' := by
  intro j hj
  by_cases he : j = i
  · subst he
    rw [Function.update_self, hv]
  · rw [Function.update_of_ne, h j hj, hs j hj he]
    exact fun hp => he (position_inj hj hi hp)

/-- **Giving up the first cell.** It becomes the last one. -/
theorem turn (h : Window n f cells slots) (hs : ∀ i, i + 1 < n → slots' i = slots (i + 1))
    (hlast : slots' (n - 1) = slots 0) : Window n ((f + 1) % n) cells slots' := by
  intro i hi
  rw [position_add, Nat.add_comm 1 i]
  rcases Nat.lt_or_ge (i + 1) n with hlt | hge
  · rw [h (i + 1) hlt, hs i hlt]
  · -- the last cell of the new view is the one given up
    have hn : i + 1 = n := by omega
    obtain rfl : i = n - 1 := by omega
    rw [hlast, hn, ← h 0 (by omega), Nat.add_mod_right, Nat.add_zero]

end Window
end Window

/-! ## Circular lists -/

section Path

variable {ι : Type} {next next' : ι → ι} {b : ι} {l m : List ι}

/-- Each node of the list leads to the one behind it, and the last one to `b`. -/
def Path (next : ι → ι) : List ι → ι → Prop
  | [], _ => True
  | a :: l, b => next a = l.headD b ∧ Path next l b

theorem path_append : Path next (l ++ m) b ↔ Path next l (m.headD b) ∧ Path next m b := by
  induction l with
  | nil => simp [Path]
  | cons a l ih =>
      have hhead : (l ++ m).headD b = l.headD (m.headD b) := by cases l <;> rfl
      rw [List.cons_append, Path, Path, ih, hhead, and_assoc]

/-- Only the links of its own nodes matter to a path. -/
theorem Path.congr (hn : ∀ a ∈ l, next' a = next a) (h : Path next l b) : Path next' l b := by
  induction l with
  | nil => trivial
  | cons a l ih =>
      obtain ⟨ha, hl⟩ := h
      refine ⟨?_, ih (fun c hc => hn c (List.mem_cons_of_mem _ hc)) hl⟩
      rw [hn a (List.mem_cons_self ..), ha]

end Path

section Circle

variable {ι : Type} {next next' : ι → ι} {first a b c : ι} {l as bs : List ι}

/-- A path that begins where it ends. -/
def Circle (next : ι → ι) (first : ι) (l : List ι) : Prop := l.head? = some first ∧ Path next l first

namespace Circle

theorem single (h : next a = a) : Circle next a [a] := ⟨rfl, h, trivial⟩

theorem congr (hn : ∀ b ∈ l, next' b = next b) (h : Circle next first l) : Circle next' first l :=
  ⟨h.1, h.2.congr hn⟩

theorem cons (h : Circle next first l) : ∃ l', l = first :: l' := by
  obtain ⟨hhead, -⟩ := h
  cases l with
  | nil => simp at hhead
  | cons b l' =>
      simp only [List.head?_cons, Option.some.injEq] at hhead
      exact ⟨l', by rw [hhead]⟩

/-- Where a node leads. -/
theorem next_eq (h : Circle next first (as ++ b :: bs)) : next b = bs.headD first := by
  have hpath := h.2
  rw [path_append] at hpath
  exact hpath.2.1

/-- **Turning.** -/
theorem rotate (h : Circle next a (a :: b :: l)) : Circle next b (b :: l ++ [a]) := by
  obtain ⟨-, hab, hpath⟩ := h
  refine ⟨rfl, ?_⟩
  rw [path_append]
  exact ⟨hpath, hab, trivial⟩

/-- **A new node.** It stands behind `b`, which leads to it now, and leads to where `b` led. -/
theorem insert [DecidableEq ι] (h : Circle next first (as ++ b :: bs)) (hnd : (as ++ b :: bs).Nodup)
    (hc : c ∉ as ++ b :: bs) (hnc : next c = next b) :
    Circle (Function.update next b c) first (as ++ b :: c :: bs) := by
  obtain ⟨hhead, hpath⟩ := h
  rw [path_append, Path] at hpath
  obtain ⟨has, hb, hbs⟩ := hpath
  have hcb : c ≠ b := by
    rintro rfl
    simp at hc
  rw [List.nodup_append, List.nodup_cons] at hnd
  obtain ⟨-, ⟨hb_bs, -⟩, hdisj⟩ := hnd
  refine ⟨by cases as <;> simpa using hhead, ?_⟩
  rw [path_append, Path, Path]
  refine ⟨has.congr fun x hx => ?_, Function.update_self .., ?_, hbs.congr fun x hx => ?_⟩
  · exact Function.update_of_ne (hdisj x hx b (List.mem_cons_self ..)) _ _
  · rw [Function.update_of_ne hcb, hnc, hb]
  · refine Function.update_of_ne ?_ _ _
    rintro rfl
    exact hb_bs hx

end Circle

/-- The nodes a `do … while` loop meets from a node on until it is back at `first`, in at most so many turns. -/
def walk [DecidableEq ι] (next : ι → ι) (first : ι) : Nat → ι → List ι
  | 0, _ => []
  | fuel + 1, b => b :: if next b = first then [] else walk next first fuel (next b)

theorem walk_path [DecidableEq ι] (hfirst : first ∉ l) (h : Path next (a :: l) first) :
    ∀ fuel, l.length < fuel → walk next first fuel a = a :: l := by
  induction l generalizing a with
  | nil =>
      intro fuel hfuel
      cases fuel with
      | zero => simp at hfuel
      | succ fuel =>
          -- the last node leads back to the first one
          have ha : next a = first := h.1
          simp [walk, ha]
  | cons b l ih =>
      intro fuel hfuel
      have ha : next a = b := h.1
      have hne : b ≠ first := by
        rintro rfl
        simp at hfirst
      cases fuel with
      | zero => simp at hfuel
      | succ fuel =>
          have hrest : walk next first fuel b = b :: l := by
            apply ih (fun hm => hfirst (List.mem_cons_of_mem _ hm)) h.2
            simpa using hfuel
          simp [walk, ha, hne, hrest]

/-- **The walk.** It meets every node of the circle once, in their order. -/
theorem Circle.walk_eq [DecidableEq ι] (h : Circle next first l) (hnd : l.Nodup) {fuel : Nat}
    (hfuel : l.length ≤ fuel) : walk next first fuel first = l := by
  obtain ⟨l', rfl⟩ := h.cons
  rw [List.nodup_cons] at hnd
  apply walk_path hnd.1 h.2
  simpa using hfuel

end Circle
end Lib
