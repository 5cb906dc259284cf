import Mathlib.Tactic

/-!
# `Lib.Codec` — self-delimiting byte formats

A format writes a value and reads one value off the front of a byte sequence. Two laws: reading gives back
what was written and leaves what follows, and bytes appended behind a readable sequence do not change what is
read. Together they say that no proper prefix of a written value reads as a whole value (`whole_take`).
-/

namespace Lib

/-- Writer and reader of one kind of value. -/
structure Codec (α : Type) where
  enc : α → List UInt8
  dec : List UInt8 → Option (α × List UInt8)
  dec_enc : ∀ a rest, dec (enc a ++ rest) = some (a, rest)
  dec_append : ∀ xs a rest ys, dec xs = some (a, rest) → dec (xs ++ ys) = some (a, rest ++ ys)

namespace Codec

variable {α β : Type}

/-- Read a value that fills the whole sequence. -/
def whole (c : Codec α) (xs : List UInt8) : Option α :=
  match c.dec xs with
  | some (a, []) => some a
  | _ => none

theorem whole_enc (c : Codec α) (a : α) : c.whole (c.enc a) = some a := by
  have h := c.dec_enc a []
  rw [List.append_nil] at h
  simp only [whole, h]

/-- A proper prefix of a written value is not a value. -/
theorem whole_take (c : Codec α) (a : α) (n : Nat) (hn : n < (c.enc a).length) :
    c.whole ((c.enc a).take n) = none := by
  unfold whole
  split
  · rename_i a' hdec
    exfalso
    have hext := c.dec_append _ _ _ ((c.enc a).drop n) hdec
    have hall := c.dec_enc a []
    rw [List.append_nil] at hall
    rw [List.take_append_drop, hall] at hext
    have hrest : (c.enc a).drop n = [] := by
      have h := congrArg Prod.snd (Option.some.inj hext)
      exact h.symm
    have hlen := congrArg List.length hrest
    rw [List.length_drop, List.length_nil] at hlen
    omega
  · rfl

/-- One byte. -/
def byte : Codec UInt8 where
  enc b := [b]
  dec xs := match xs with
    | [] => none
    | b :: rest => some (b, rest)
  dec_enc _ _ := rfl
  dec_append xs a rest ys h := by
    cases xs with
    | nil => cases h
    | cons b xs =>
        cases h
        rfl

/-- One value after the other. -/
def pair (c : Codec α) (d : Codec β) : Codec (α × β) where
  enc p := c.enc p.1 ++ d.enc p.2
  dec xs := (c.dec xs).bind fun p => (d.dec p.2).map fun q => ((p.1, q.1), q.2)
  dec_enc p rest := by
    rw [List.append_assoc, c.dec_enc]
    simp [d.dec_enc]
  dec_append xs a rest ys h := by
    simp only [Option.bind_eq_some_iff, Option.map_eq_some_iff] at h ⊢
    obtain ⟨p, hp, q, hq, he⟩ := h
    refine ⟨(p.1, p.2 ++ ys), c.dec_append _ _ _ _ hp, (q.1, q.2 ++ ys), d.dec_append _ _ _ _ hq, ?_⟩
    cases he
    rfl

/-- The same format for another type. -/
def iso (c : Codec α) (f : β → α) (g : α → β) (hgf : ∀ b, g (f b) = b) : Codec β where
  enc b := c.enc (f b)
  dec xs := (c.dec xs).map fun p => (g p.1, p.2)
  dec_enc b rest := by rw [c.dec_enc, Option.map_some, hgf]
  dec_append xs a rest ys h := by
    simp only [Option.map_eq_some_iff] at h ⊢
    obtain ⟨p, hp, he⟩ := h
    refine ⟨(p.1, p.2 ++ ys), c.dec_append _ _ _ _ hp, ?_⟩
    cases he
    rfl

/-- Fixed bytes. -/
def lit (bs : List UInt8) : Codec Unit where
  enc _ := bs
  dec xs := if xs.take bs.length = bs then some ((), xs.drop bs.length) else none
  dec_enc _ rest := by simp
  dec_append xs a rest ys h := by
    split at h
    · rename_i hpre
      cases h
      have hlen : bs.length ≤ xs.length := by
        rw [← hpre, List.length_take]
        exact Nat.min_le_right _ _
      rw [List.take_append_of_le_length hlen, if_pos hpre, List.drop_append_of_le_length hlen]
    · cases h

/-- One of two bytes. -/
def bool (no yes : UInt8) (h : no ≠ yes) : Codec Bool where
  enc b := [if b then yes else no]
  dec xs := match xs with
    | [] => none
    | b :: rest => if b = yes then some (true, rest) else if b = no then some (false, rest) else none
  dec_enc b rest := by
    cases b with
    | true => simp
    | false => simp [h]
  dec_append xs a rest ys hx := by
    cases xs with
    | nil => cases hx
    | cons b xs =>
        simp only [List.cons_append] at hx ⊢
        split at hx
        · rw [if_pos ‹_›]
          cases hx
          rfl
        · rw [if_neg ‹_›]
          split at hx
          · rw [if_pos ‹_›]
            cases hx
            rfl
          · cases hx

/-! ## Numbers -/

/-- Read a unary number. -/
def decUnary : List UInt8 → Option (Nat × List UInt8)
  | [] => none
  | b :: rest => if b = 0 then some (0, rest) else (decUnary rest).map fun p => (p.1 + 1, p.2)

/-- A number in unary. -/
def unary : Codec Nat where
  enc n := List.replicate n 1 ++ [0]
  dec := decUnary
  dec_enc n rest := by
    induction n with
    | zero => rfl
    | succ n ih =>
        rw [List.replicate_succ, List.cons_append, List.cons_append, decUnary, if_neg (by decide), ih]
        rfl
  dec_append xs := by
    induction xs with
    | nil =>
        intro a rest ys h
        cases h
    | cons b xs ih =>
        intro a rest ys h
        rw [decUnary] at h
        rw [List.cons_append, decUnary]
        split at h
        · cases h
          rw [if_pos ‹_›]
        · rw [if_neg ‹_›]
          simp only [Option.map_eq_some_iff] at h ⊢
          obtain ⟨p, hp, he⟩ := h
          refine ⟨(p.1, p.2 ++ ys), ih _ _ _ hp, ?_⟩
          cases he
          rfl

/-- A number below `bound` in one byte from `base` on; any other number behind the byte `0xC1`. -/
def header (base bound : Nat) (h : base + bound ≤ 0xC1) : Codec Nat where
  enc n := if n < bound then [UInt8.ofNat (base + n)] else 0xC1 :: unary.enc n
  dec xs := match xs with
    | [] => none
    | b :: rest =>
        if b = 0xC1 then unary.dec rest
        else if base ≤ b.toNat ∧ b.toNat < base + bound then some (b.toNat - base, rest) else none
  dec_enc n rest := by
    by_cases hn : n < bound
    · have hb : (UInt8.ofNat (base + n)).toNat = base + n := by
        rw [UInt8.toNat_ofNat']
        exact Nat.mod_eq_of_lt (by omega)
      have hne : UInt8.ofNat (base + n) ≠ 0xC1 := by
        intro he
        have := congrArg UInt8.toNat he
        rw [hb] at this
        have h1 : (0xC1 : UInt8).toNat = 0xC1 := rfl
        omega
      simp only [if_pos hn, List.cons_append, List.nil_append, if_neg hne, hb]
      rw [if_pos (by omega)]
      congr 2
      omega
    · simp only [if_neg hn, List.cons_append, if_true]
      exact unary.dec_enc n rest
  dec_append xs a rest ys hx := by
    cases xs with
    | nil => cases hx
    | cons b xs =>
        simp only [List.cons_append] at hx ⊢
        split at hx
        · rw [if_pos ‹_›]
          exact unary.dec_append _ _ _ _ hx
        · rw [if_neg ‹_›]
          split at hx
          · rw [if_pos ‹_›]
            cases hx
            rfl
          · cases hx

/-- A number below 256 in the byte behind `mark`; any other number behind the byte `0xC1`. -/
def marked (mark : UInt8) (h : mark ≠ 0xC1) : Codec Nat where
  enc n := if n < 256 then [mark, UInt8.ofNat n] else 0xC1 :: unary.enc n
  dec xs := match xs with
    | [] => none
    | b :: rest =>
        if b = 0xC1 then unary.dec rest
        else if b = mark then (byte.dec rest).map fun p => (p.1.toNat, p.2) else none
  dec_enc n rest := by
    by_cases hn : n < 256
    · have hb : (UInt8.ofNat n).toNat = n := by
        rw [UInt8.toNat_ofNat']
        exact Nat.mod_eq_of_lt hn
      simp only [if_pos hn, List.cons_append, List.nil_append, if_neg h, if_true, byte, Option.map_some, hb]
    · simp only [if_neg hn, List.cons_append, if_true]
      exact unary.dec_enc n rest
  dec_append xs a rest ys hx := by
    cases xs with
    | nil => cases hx
    | cons b xs =>
        simp only [List.cons_append] at hx ⊢
        split at hx
        · rw [if_pos ‹_›]
          exact unary.dec_append _ _ _ _ hx
        · rw [if_neg ‹_›]
          split at hx
          · rw [if_pos ‹_›]
            simp only [Option.map_eq_some_iff] at hx ⊢
            obtain ⟨p, hp, he⟩ := hx
            refine ⟨(p.1, p.2 ++ ys), byte.dec_append _ _ _ _ hp, ?_⟩
            cases he
            rfl
          · cases hx

/-! ## Sequences -/

/-- Read a given number of values. -/
def decMany (c : Codec α) : Nat → List UInt8 → Option (List α × List UInt8)
  | 0, xs => some ([], xs)
  | n + 1, xs => (c.dec xs).bind fun p => (decMany c n p.2).map fun q => (p.1 :: q.1, q.2)

theorem decMany_enc (c : Codec α) (as : List α) (rest : List UInt8) :
    decMany c as.length (as.flatMap c.enc ++ rest) = some (as, rest) := by
  induction as with
  | nil => rfl
  | cons a as ih =>
      rw [List.length_cons, decMany, List.flatMap_cons, List.append_assoc, c.dec_enc]
      simp [ih]

theorem decMany_append (c : Codec α) (n : Nat) :
    ∀ xs as rest ys, decMany c n xs = some (as, rest) →
      decMany c n (xs ++ ys) = some (as, rest ++ ys) := by
  induction n with
  | zero =>
      intro xs as rest ys h
      cases h
      rfl
  | succ n ih =>
      intro xs as rest ys h
      simp only [decMany, Option.bind_eq_some_iff, Option.map_eq_some_iff] at h ⊢
      obtain ⟨p, hp, q, hq, he⟩ := h
      refine ⟨(p.1, p.2 ++ ys), c.dec_append _ _ _ _ hp, (q.1, q.2 ++ ys), ih _ _ _ _ hq, ?_⟩
      cases he
      rfl

/-- A length, then that many values. -/
def list (len : Codec Nat) (c : Codec α) : Codec (List α) where
  enc as := len.enc as.length ++ as.flatMap c.enc
  dec xs := (len.dec xs).bind fun p => decMany c p.1 p.2
  dec_enc as rest := by
    rw [List.append_assoc, len.dec_enc]
    exact decMany_enc c as rest
  dec_append xs as rest ys h := by
    simp only [Option.bind_eq_some_iff] at h ⊢
    obtain ⟨p, hp, hm⟩ := h
    exact ⟨(p.1, p.2 ++ ys), len.dec_append _ _ _ _ hp, decMany_append c _ _ _ _ _ hm⟩

end Codec
end Lib
