import MqttServer.Common.Mbuf
import MqttServer.Codec.Cursor

/-!
# `Common.MbufRun` — `CMbuf` under any calls

`Common.Mbuf` has the buffer as the broker uses it. Here it takes `read_ptr(n)`, `write_ptr(n)`, `copy(buf, len)` and `reset()` with
whatever 32-bit arguments, and beside it goes the queue of the bytes written and not yet read. `Keeps` is what one call is to
keep, `Fits` when it does (`keeps_iff`); along calls that fit the buffer is that queue (`unread_eq_queue`).
-/

namespace MqttServer

namespace Mbuf

/-- `reset()`. -/
def reset (m : Mbuf) : Mbuf := { m with readPos := 0, writePos := 0 }

/-- `copy(buf, len)`, with the `int` that it takes: `len` is added as a `uint32_t` and handed to `memcpy` as a `size_t`. What would be
    stored behind the array is not a part of the buffer. A negative length that gets past the test is a `memcpy` of nearly `2^64`
    bytes, which does not return; the result here only says that it was not refused. -/
def copyFrom (m : Mbuf) (buf : Nat → UInt8) (len : Int32) : Int × Mbuf :=
  if (m.writePos + len.toUInt32.toNat) % 2 ^ 32 > m.data.length then (-1, m)
  else
    (0, { m.fill ((List.range (min (Cursor.sizeT len.toInt) (m.data.length - m.writePos))).map buf) with
          writePos := (m.writePos + len.toUInt32.toNat) % 2 ^ 32 })

/-- The `n` bytes from `write_ptr()` on. -/
def ahead (m : Mbuf) (n : Nat) : ByteStr := (List.range n).map fun i => m.data.getD (m.writePos + i) 0

end Mbuf

/-- The calls. -/
inductive MbufOp where
  | readPtr (n : UInt32)
  | writePtr (n : UInt32)
  | copy (buf : Nat → UInt8) (len : Int32)
  | reset

/-- A buffer, and the bytes that were written and not yet read. -/
structure Tallied where
  mbuf : Mbuf
  queue : ByteStr

namespace Tallied

/-- From a buffer in order. -/
def ofBuf (b : Buf) : Tallied := { mbuf := b.1, queue := b.unread }

/-- The sum that the check of a call makes, before it is narrowed to 32 bits. -/
def checkedSum (s : Tallied) : MbufOp → Nat
  | .readPtr n => s.mbuf.readPos + n.toNat
  | .writePtr n => s.mbuf.writePos + n.toNat
  | .copy _ len => s.mbuf.writePos + len.toUInt32.toNat
  | .reset => 0

/-- A call is turned away. -/
def Refuses (s : Tallied) (op : MbufOp) : Prop := s.checkedSum op % 2 ^ 32 > s.mbuf.data.length

instance (s : Tallied) (op : MbufOp) : Decidable (s.Refuses op) := inferInstanceAs (Decidable (_ > _))

/-- The buffer behind a call. -/
def mbufAfter (s : Tallied) : MbufOp → Mbuf
  | .readPtr n => s.mbuf.readPtr n.toNat
  | .writePtr n => s.mbuf.writePtr n.toNat
  | .copy buf len => (s.mbuf.copyFrom buf len).2
  | .reset => s.mbuf.reset

/-- The queue behind a call that is not turned away. -/
def queueAfter (s : Tallied) : MbufOp → ByteStr
  | .readPtr n => s.queue.drop n.toNat
  | .writePtr n => s.queue ++ s.mbuf.ahead n.toNat
  | .copy buf len => s.queue ++ (List.range (Cursor.sizeT len.toInt)).map buf
  | .reset => []

/-- A call. -/
def step (s : Tallied) (op : MbufOp) : Tallied :=
  { mbuf := s.mbufAfter op, queue := if s.Refuses op then s.queue else s.queueAfter op }

/-- **What a call is to keep**: the cursors are in order and in the array, the check has not wrapped around, `length()` is the number of
    bytes written and not yet read, and a copy of more bytes than there is room for answers `-1` and changes nothing. -/
structure Keeps (s : Tallied) (op : MbufOp) : Prop where
  ordered : (s.step op).mbuf.readPos ≤ (s.step op).mbuf.writePos
  inside : (s.step op).mbuf.writePos ≤ (s.step op).mbuf.data.length
  checked : s.checkedSum op < 2 ^ 32
  counted : (s.step op).mbuf.length = (s.step op).queue.length
  refused : ∀ buf len, op = .copy buf len → s.mbuf.data.length < s.mbuf.writePos + Cursor.sizeT len.toInt →
    s.mbuf.copyFrom buf len = (-1, s.mbuf)

/-- When it keeps it. -/
def Fits (s : Tallied) : MbufOp → Prop
  | .readPtr n => s.mbuf.readPos + n.toNat < 2 ^ 32 ∧
      (s.mbuf.readPos + n.toNat ≤ s.mbuf.writePos ∨ s.mbuf.data.length < s.mbuf.readPos + n.toNat)
  | .writePtr n => s.mbuf.writePos + n.toNat < 2 ^ 32
  | .copy _ len => s.mbuf.writePos + len.toUInt32.toNat < 2 ^ 32 ∧
      (0 ≤ len.toInt ∨ s.mbuf.data.length < s.mbuf.writePos + len.toUInt32.toNat)
  | .reset => True

/-- The buffer in order, with as many bytes as the queue has. -/
structure Matched (s : Tallied) : Prop where
  wf : s.mbuf.WF
  count : s.mbuf.length = s.queue.length

theorem ofBuf_matched (b : Buf) : (ofBuf b).Matched := ⟨b.2, b.length_unread.symm⟩

section Steps

variable {s : Tallied} {op : MbufOp}

/-- Where the check does not wrap around, it says what it is meant to say. -/
theorem refuses_iff (h : s.checkedSum op < 2 ^ 32) : s.Refuses op ↔ s.mbuf.data.length < s.checkedSum op := by
  unfold Refuses
  rw [Nat.mod_eq_of_lt h]

theorem readPtr_after (n : UInt32) : s.mbufAfter (.readPtr n) =
    if s.Refuses (.readPtr n) then s.mbuf else { s.mbuf with readPos := s.checkedSum (.readPtr n) % 2 ^ 32 } := rfl

theorem writePtr_after (n : UInt32) : s.mbufAfter (.writePtr n) =
    if s.Refuses (.writePtr n) then s.mbuf else { s.mbuf with writePos := s.checkedSum (.writePtr n) % 2 ^ 32 } := rfl

theorem copyFrom_refused {buf : Nat → UInt8} {len : Int32} (h : s.Refuses (.copy buf len)) :
    s.mbuf.copyFrom buf len = (-1, s.mbuf) := if_pos h

theorem copyFrom_accepted {buf : Nat → UInt8} {len : Int32} (h : ¬ s.Refuses (.copy buf len)) : s.mbuf.copyFrom buf len =
    (0, { s.mbuf.fill ((List.range (min (Cursor.sizeT len.toInt) (s.mbuf.data.length - s.mbuf.writePos))).map buf) with
          writePos := s.checkedSum (.copy buf len) % 2 ^ 32 }) := if_neg h

theorem reset_accepted : ¬ s.Refuses .reset := by
  have hsum : s.checkedSum .reset = 0 := rfl
  unfold Refuses
  rw [hsum, Nat.zero_mod]
  exact Nat.not_lt_zero _

theorem refused_after (h : s.Refuses op) : s.mbufAfter op = s.mbuf := by
  cases op with
  | readPtr n => rw [readPtr_after, if_pos h]
  | writePtr n => rw [writePtr_after, if_pos h]
  | copy buf len => exact congrArg Prod.snd (copyFrom_refused h)
  | reset => exact absurd h reset_accepted

theorem step_refused (h : s.Refuses op) : s.step op = s := by
  unfold step
  rw [if_pos h, refused_after h]

theorem step_accepted (h : ¬ s.Refuses op) : s.step op = { mbuf := s.mbufAfter op, queue := s.queueAfter op } := by
  unfold step
  rw [if_neg h]

/-- The buffer has a size that a `uint32_t` holds. -/
theorem Matched.bounds (h : s.Matched) :
    s.mbuf.readPos ≤ s.mbuf.writePos ∧ s.mbuf.writePos ≤ s.mbuf.data.length ∧ s.mbuf.data.length < 2 ^ 32 ∧
      s.queue.length = s.mbuf.writePos - s.mbuf.readPos :=
  ⟨h.wf.ordered, h.wf.inside, h.wf.sized, by rw [← h.count, Mbuf.length_eq h.wf]⟩

/-- A call that is turned away keeps what there is. -/
theorem keeps_of_refuses (h : s.Matched) (hrefuses : s.Refuses op) (hsum : s.checkedSum op < 2 ^ 32) : s.Keeps op := by
  have hstep := step_refused hrefuses
  obtain ⟨hordered, hinside, -, -⟩ := h.bounds
  refine ⟨?_, ?_, hsum, ?_, ?_⟩
  · rw [hstep]
    exact hordered
  · rw [hstep]
    exact hinside
  · rw [hstep]
    exact h.count
  · rintro buf len rfl -
    exact copyFrom_refused hrefuses

theorem readPtr_keeps_iff (h : s.Matched) (n : UInt32) : s.Keeps (.readPtr n) ↔ s.Fits (.readPtr n) := by
  obtain ⟨hordered, hinside, hsized, hcount⟩ := h.bounds
  have hafter := @readPtr_after s n
  show _ ↔ s.checkedSum (.readPtr n) < 2 ^ 32 ∧
    (s.checkedSum (.readPtr n) ≤ s.mbuf.writePos ∨ s.mbuf.data.length < s.checkedSum (.readPtr n))
  have hsum : s.checkedSum (.readPtr n) = s.mbuf.readPos + n.toNat := rfl
  by_cases hwrap : s.checkedSum (.readPtr n) < 2 ^ 32
  · by_cases hrefuses : s.Refuses (.readPtr n)
    · have hlarge := (refuses_iff hwrap).mp hrefuses
      exact ⟨fun _ => ⟨hwrap, Or.inr hlarge⟩, fun _ => keeps_of_refuses h hrefuses hwrap⟩
    · rw [if_neg hrefuses, Nat.mod_eq_of_lt hwrap] at hafter
      have hstep := step_accepted hrefuses
      rw [hafter] at hstep
      constructor
      · intro hk
        have hread := hk.ordered
        rw [hstep] at hread
        exact ⟨hwrap, Or.inl hread⟩
      · rintro ⟨-, hle | hlarge⟩
        · refine ⟨?_, ?_, hwrap, ?_, fun _ _ hop => by cases hop⟩
          · rw [hstep]
            exact hle
          · rw [hstep]
            exact hinside
          · have hwf : (s.step (.readPtr n)).mbuf.WF := by
              rw [hstep]
              exact ⟨hle, hinside, hsized⟩
            rw [Mbuf.length_eq hwf, hstep]
            show s.mbuf.writePos - s.checkedSum (.readPtr n) = (s.queue.drop n.toNat).length
            rw [List.length_drop, hcount, hsum]
            omega
        · exact absurd ((refuses_iff hwrap).mpr hlarge) hrefuses
  · exact ⟨fun hk => absurd hk.checked hwrap, fun hf => absurd hf.1 hwrap⟩

theorem writePtr_keeps_iff (h : s.Matched) (n : UInt32) : s.Keeps (.writePtr n) ↔ s.Fits (.writePtr n) := by
  obtain ⟨hordered, hinside, hsized, hcount⟩ := h.bounds
  have hafter := @writePtr_after s n
  have hsum : s.checkedSum (.writePtr n) = s.mbuf.writePos + n.toNat := rfl
  show _ ↔ s.checkedSum (.writePtr n) < 2 ^ 32
  refine ⟨fun hk => hk.checked, fun hwrap => ?_⟩
  by_cases hrefuses : s.Refuses (.writePtr n)
  · exact keeps_of_refuses h hrefuses hwrap
  · have hroom := Nat.not_lt.mp (mt (refuses_iff hwrap).mpr hrefuses)
    rw [if_neg hrefuses, Nat.mod_eq_of_lt hwrap] at hafter
    have hstep := step_accepted hrefuses
    rw [hafter] at hstep
    have hwf : (s.step (.writePtr n)).mbuf.WF := by
      rw [hstep]
      exact ⟨Nat.le_trans hordered (hsum ▸ Nat.le_add_right _ _), hroom, hsized⟩
    refine ⟨hwf.ordered, hwf.inside, hwrap, ?_, fun _ _ hop => by cases hop⟩
    rw [Mbuf.length_eq hwf, hstep]
    show s.checkedSum (.writePtr n) - s.mbuf.readPos = (s.queue ++ s.mbuf.ahead n.toNat).length
    unfold Mbuf.ahead
    rw [List.length_append, List.length_map, List.length_range, hcount, hsum]
    omega

/-- An `int` as a `uint32_t`. -/
theorem toUInt32_cases (len : Int32) : 0 ≤ len.toInt ∧ (len.toUInt32.toNat : Int) = len.toInt ∧ len.toUInt32.toNat < 2 ^ 31 ∨
    len.toInt < 0 ∧ -2 ^ 31 ≤ len.toInt := by
  have hint : len.toInt = if 2 * len.toUInt32.toNat < 2 ^ 32 then (len.toUInt32.toNat : Int)
      else (len.toUInt32.toNat : Int) - (2 ^ 32 : Nat) := BitVec.toInt_eq_toNat_cond len.toBitVec
  have hlow := len.le_toInt
  by_cases hsmall : 2 * len.toUInt32.toNat < 2 ^ 32
  · rw [if_pos hsmall] at hint
    exact Or.inl ⟨by omega, hint.symm, by omega⟩
  · rw [if_neg hsmall] at hint
    have hlt := len.toUInt32.toNat_lt
    norm_num at hint hlt hlow ⊢
    exact Or.inr ⟨by omega, by omega⟩

/-- The `size_t` of a length that is not negative. -/
theorem sizeT_of_nonneg {len : Int32} (hlen : (len.toUInt32.toNat : Int) = len.toInt) (hsmall : len.toUInt32.toNat < 2 ^ 31) :
    Cursor.sizeT len.toInt = len.toUInt32.toNat := by
  rw [← hlen]
  exact Cursor.sizeT_natCast (Nat.lt_trans hsmall (by decide))

/-- A copy for which there is room is the copy of `Common.Mbuf`. -/
theorem copyFrom_room (h : s.Matched) {buf : Nat → UInt8} {len : Int32} (hlen : (len.toUInt32.toNat : Int) = len.toInt)
    (hsmall : len.toUInt32.toNat < 2 ^ 31) (hroom : s.mbuf.writePos + len.toUInt32.toNat ≤ s.mbuf.data.length) :
    s.mbuf.copyFrom buf len = (0, s.mbuf.copy ((List.range len.toUInt32.toNat).map buf)) := by
  obtain ⟨hordered, hinside, hsized, -⟩ := h.bounds
  have hsum : s.checkedSum (.copy buf len) = s.mbuf.writePos + len.toUInt32.toNat := rfl
  have hwrap : s.checkedSum (.copy buf len) < 2 ^ 32 := by omega
  have haccepted : ¬ s.Refuses (.copy buf len) := fun hr => Nat.not_lt.mpr hroom ((refuses_iff hwrap).mp hr)
  have hmin : min (Cursor.sizeT len.toInt) (s.mbuf.data.length - s.mbuf.writePos) = len.toUInt32.toNat := by
    rw [sizeT_of_nonneg hlen hsmall]
    omega
  have hlength : ((List.range len.toUInt32.toNat).map buf).length = len.toUInt32.toNat := by
    rw [List.length_map, List.length_range]
  rw [copyFrom_accepted haccepted, Nat.mod_eq_of_lt hwrap, hmin, Mbuf.copy_eq h.wf (by rw [hlength]; exact hroom), hlength]
  rfl

theorem copy_keeps_iff (h : s.Matched) (buf : Nat → UInt8) (len : Int32) : s.Keeps (.copy buf len) ↔ s.Fits (.copy buf len) := by
  obtain ⟨hordered, hinside, hsized, hcount⟩ := h.bounds
  have hsum : s.checkedSum (.copy buf len) = s.mbuf.writePos + len.toUInt32.toNat := rfl
  show _ ↔ s.checkedSum (.copy buf len) < 2 ^ 32 ∧ (0 ≤ len.toInt ∨ s.mbuf.data.length < s.checkedSum (.copy buf len))
  by_cases hwrap : s.checkedSum (.copy buf len) < 2 ^ 32
  · by_cases hrefuses : s.Refuses (.copy buf len)
    · have hlarge := (refuses_iff hwrap).mp hrefuses
      exact ⟨fun _ => ⟨hwrap, Or.inr hlarge⟩, fun _ => keeps_of_refuses h hrefuses hwrap⟩
    · have hroom := Nat.not_lt.mp (mt (refuses_iff hwrap).mpr hrefuses)
      rcases toUInt32_cases len with ⟨hpos, hlen, hsmall⟩ | ⟨hneg, hlow⟩
      · -- as many bytes as the check has counted
        refine ⟨fun _ => ⟨hwrap, Or.inl hpos⟩, fun _ => ?_⟩
        obtain ⟨bytes, hbytes⟩ : ∃ bytes, bytes = (List.range len.toUInt32.toNat).map buf := ⟨_, rfl⟩
        have hlength : bytes.length = len.toUInt32.toNat := by rw [hbytes, List.length_map, List.length_range]
        have hfit : s.mbuf.writePos + bytes.length ≤ s.mbuf.data.length := by
          rw [hlength]
          exact hroom
        have hafter : s.mbufAfter (.copy buf len) = s.mbuf.copy bytes := by
          rw [hbytes]
          exact congrArg Prod.snd (copyFrom_room h hlen hsmall hroom)
        have hstep := step_accepted hrefuses
        rw [hafter] at hstep
        have hwf : (s.step (.copy buf len)).mbuf.WF := by
          rw [hstep]
          exact Mbuf.copy_wf h.wf hfit
        refine ⟨hwf.ordered, hwf.inside, hwrap, ?_, ?_⟩
        · rw [Mbuf.length_eq hwf, hstep]
          show (s.mbuf.copy bytes).writePos - (s.mbuf.copy bytes).readPos =
            (s.queue ++ (List.range (Cursor.sizeT len.toInt)).map buf).length
          rw [Mbuf.copy_eq h.wf hfit, sizeT_of_nonneg hlen hsmall, ← hbytes, List.length_append, hcount]
          show s.mbuf.writePos + bytes.length - s.mbuf.readPos = _
          omega
        · rintro _ _ ⟨⟩ hlarge
          rw [sizeT_of_nonneg hlen hsmall] at hlarge
          exact absurd hroom (Nat.not_le.mpr hlarge)
      · -- `memcpy` is given more than any array holds
        have hhuge := Cursor.sizeT_of_neg hneg hlow
        constructor
        · intro hk
          have hcopy := hk.refused buf len rfl (by omega)
          rw [copyFrom_accepted hrefuses] at hcopy
          have hanswer : (0 : Int) = -1 := congrArg Prod.fst hcopy
          exact absurd hanswer (by decide)
        · rintro ⟨-, hpos | hlarge⟩
          · exact absurd hneg (Int.not_lt.mpr hpos)
          · exact absurd ((refuses_iff hwrap).mpr hlarge) hrefuses
  · exact ⟨fun hk => absurd hk.checked hwrap, fun hf => absurd hf.1 hwrap⟩

theorem reset_keeps (h : s.Matched) : s.Keeps .reset := by
  have hsum : s.checkedSum .reset = 0 := rfl
  have hstep : s.step .reset = { mbuf := s.mbuf.reset, queue := [] } := step_accepted reset_accepted
  have hwf : (s.step .reset).mbuf.WF := by
    rw [hstep]
    exact ⟨Nat.le_refl _, Nat.zero_le _, h.wf.sized⟩
  refine ⟨hwf.ordered, hwf.inside, ?_, ?_, fun _ _ hop => by cases hop⟩
  · rw [hsum]
    exact Nat.two_pow_pos 32
  · rw [Mbuf.length_eq hwf, hstep]
    rfl

/-- **Each call keeps the invariant exactly when it fits.** -/
theorem keeps_iff (h : s.Matched) (op : MbufOp) : s.Keeps op ↔ s.Fits op := by
  cases op with
  | readPtr n => exact readPtr_keeps_iff h n
  | writePtr n => exact writePtr_keeps_iff h n
  | copy buf len => exact copy_keeps_iff h buf len
  | reset => exact ⟨fun _ => trivial, fun _ => reset_keeps h⟩

/-- The array is as large as before. -/
theorem step_sized (h : s.Matched) (op : MbufOp) : (s.step op).mbuf.data.length < 2 ^ 32 := by
  obtain ⟨-, hinside, hsized, -⟩ := h.bounds
  cases op with
  | readPtr n =>
      show (s.mbufAfter (.readPtr n)).data.length < 2 ^ 32
      rw [readPtr_after]
      split
      · exact hsized
      · exact hsized
  | writePtr n =>
      show (s.mbufAfter (.writePtr n)).data.length < 2 ^ 32
      rw [writePtr_after]
      split
      · exact hsized
      · exact hsized
  | copy buf len =>
      show (s.mbuf.copyFrom buf len).2.data.length < 2 ^ 32
      by_cases hrefuses : s.Refuses (.copy buf len)
      · rw [copyFrom_refused hrefuses]
        exact hsized
      · rw [copyFrom_accepted hrefuses]
        refine (Mbuf.fill_wf h.wf ?_).sized
        rw [List.length_map, List.length_range]
        omega
  | reset => exact hsized

theorem step_matched (h : s.Matched) {op : MbufOp} (hk : s.Keeps op) : (s.step op).Matched :=
  ⟨⟨hk.ordered, hk.inside, step_sized h op⟩, hk.counted⟩

end Steps

/-! ## Any calls in any order -/

/-- **The invariant over any calls**: on any buffer in order (a new one, say) it holds behind every call of a sequence exactly when
    every call of it fits. -/
theorem mbuf_kept_iff (b : Buf) (ops : List MbufOp) :
    Lib.Along step Keeps (ofBuf b) ops ↔ Lib.Along step Fits (ofBuf b) ops := by
  have hstep : ∀ (s : Tallied) (op : MbufOp), s.Matched → True → (s.Keeps op ↔ s.Fits op) ∧ (s.Fits op → (s.step op).Matched) :=
    fun s op h _ => ⟨keeps_iff h op, fun hf => step_matched h ((keeps_iff h op).mpr hf)⟩
  exact Lib.along_iff hstep ops _ (ofBuf_matched b) (Lib.along_of_forall (fun _ _ => trivial) ops _)

/-- A buffer of ten bytes with two of them written: a read of five leaves the cursors crossed; `write_ptr` wraps around to one byte
    less; and `copy` with `-1` is not refused, but runs `memcpy` over all of the memory. -/
theorem not_mbuf_kept :
    ¬ Lib.Along step Keeps (ofBuf (.make 10 0 [])) [.copy (fun _ => 7) 2, .readPtr 5] ∧
      ¬ Lib.Along step Keeps (ofBuf (.make 10 0 [])) [.copy (fun _ => 7) 2, .writePtr 4294967295] ∧
      ¬ Lib.Along step Keeps (ofBuf (.make 10 0 [])) [.copy (fun _ => 7) 2, .copy (fun _ => 7) (-1)] := by
  refine ⟨fun h => ?_, fun h => ?_, fun h => ?_⟩
  · have hcrossed := h.2.1.ordered
    exact absurd hcrossed (by decide)
  · have hchecked := h.2.1.checked
    exact absurd hchecked (by decide)
  · have hanswer := congrArg Prod.fst (h.2.1.refused (fun _ => 7) (-1) rfl (by decide))
    exact absurd hanswer (by decide)

/-! ## The buffer as a queue -/

section Queue

variable {m : Mbuf}

/-- Where the cursor is put behind bytes that stand in the array, these are to be read. -/
theorem writePtr_unread (h : m.WF) {n : Nat} (hroom : m.writePos + n ≤ m.data.length) :
    (m.writePtr n).unread = m.unread ++ m.ahead n := by
  have hordered := h.ordered
  have hsized := h.sized
  have hafter : m.writePtr n = { m with writePos := m.writePos + n } := by
    unfold Mbuf.writePtr
    rw [Nat.mod_eq_of_lt (by omega), if_neg (by omega)]
  have hwf : (m.writePtr n).WF := by
    rw [hafter]
    exact ⟨Nat.le_trans hordered (Nat.le_add_right _ _), hroom, hsized⟩
  have hlength : (m.writePtr n).length = m.length + n := by
    rw [Mbuf.length_eq hwf, Mbuf.length_eq h, hafter]
    show m.writePos + n - m.readPos = _
    omega
  have hfrom : m.readPos + m.length = m.writePos := by
    rw [Mbuf.length_eq h]
    omega
  unfold Mbuf.unread
  rw [hlength, List.take_add, hafter]
  show _ ++ ((m.data.drop m.readPos).drop m.length).take n = _
  rw [List.drop_drop, hfrom, Mbuf.ahead, range_getD hroom]

theorem copy_unread (h : m.WF) {bytes : ByteStr} (hroom : m.writePos + bytes.length ≤ m.data.length) :
    (m.copy bytes).unread = m.unread ++ bytes := by
  have hordered := h.ordered
  have hinside := h.inside
  have hafter := Mbuf.copy_eq h hroom
  have hlength : (m.copy bytes).length = m.length + bytes.length := by
    rw [Mbuf.length_eq (Mbuf.copy_wf h hroom), Mbuf.length_eq h, hafter]
    show m.writePos + bytes.length - m.readPos = _
    omega
  have hfront : (m.data.take m.writePos).length = m.writePos := by
    rw [List.length_take]
    omega
  have hfrom : m.length = m.writePos - m.readPos := Mbuf.length_eq h
  unfold Mbuf.unread
  rw [hlength, List.take_add, hafter]
  show ((Pkt.store m.data m.writePos bytes).drop m.readPos).take m.length ++
    (((Pkt.store m.data m.writePos bytes).drop m.readPos).drop m.length).take bytes.length = _
  unfold Pkt.store
  rw [List.drop_drop, hfrom, Nat.add_sub_cancel' hordered, List.append_assoc, List.drop_append_of_le_length (by omega),
    List.take_append_of_le_length (by rw [List.length_drop]; omega), List.drop_left' hfront, List.take_left, List.drop_take,
    List.take_take, Nat.min_self]

/-- One call that fits. -/
theorem step_unread {s : Tallied} {op : MbufOp} (h : s.Matched) (hqueue : s.mbuf.unread = s.queue) (hfits : s.Fits op) :
    (s.step op).mbuf.unread = (s.step op).queue := by
  obtain ⟨hordered, hinside, hsized, hcount⟩ := h.bounds
  by_cases hrefuses : s.Refuses op
  · rw [step_refused hrefuses]
    exact hqueue
  · rw [step_accepted hrefuses]
    cases op with
    | readPtr n =>
        obtain ⟨hwrap, hle | hlarge⟩ := hfits
        · have hread : n.toNat ≤ s.mbuf.length := by
            rw [Mbuf.length_eq h.wf]
            omega
          show (s.mbuf.readPtr n.toNat).unread = s.queue.drop n.toNat
          rw [Mbuf.readPtr_unread h.wf hread, hqueue]
        · exact absurd ((@refuses_iff s (.readPtr n) hwrap).mpr hlarge) hrefuses
    | writePtr n =>
        have hroom := Nat.not_lt.mp (mt (@refuses_iff s (.writePtr n) hfits).mpr hrefuses)
        show (s.mbuf.writePtr n.toNat).unread = s.queue ++ s.mbuf.ahead n.toNat
        rw [writePtr_unread h.wf hroom, hqueue]
    | copy buf len =>
        obtain ⟨hwrap, hpos | hlarge⟩ := hfits
        · have hroom := Nat.not_lt.mp (mt (@refuses_iff s (.copy buf len) hwrap).mpr hrefuses)
          rcases toUInt32_cases len with ⟨-, hlen, hsmall⟩ | ⟨hneg, -⟩
          · show (s.mbuf.copyFrom buf len).2.unread = s.queue ++ (List.range (Cursor.sizeT len.toInt)).map buf
            rw [copyFrom_room h hlen hsmall hroom, sizeT_of_nonneg hlen hsmall, ← hqueue]
            refine copy_unread h.wf ?_
            rw [List.length_map, List.length_range]
            exact hroom
          · exact absurd hneg (Int.not_lt.mpr hpos)
        · exact absurd ((@refuses_iff s (.copy buf len) hwrap).mpr hlarge) hrefuses
    | reset =>
        show s.mbuf.reset.unread = []
        have hwf : s.mbuf.reset.WF := ⟨Nat.le_refl _, Nat.zero_le _, hsized⟩
        unfold Mbuf.unread
        rw [Mbuf.length_eq hwf]
        exact List.take_zero

/-- **Behind calls that fit, the bytes at `read_ptr()` are those written and not yet read**, in order. -/
theorem unread_eq_queue (b : Buf) (ops : List MbufOp) (h : Lib.Along step Fits (ofBuf b) ops) :
    (Lib.run step (ofBuf b) ops).mbuf.unread = (Lib.run step (ofBuf b) ops).queue := by
  have hstep : ∀ (s : Tallied) (op : MbufOp), (s.Matched ∧ s.mbuf.unread = s.queue) → s.Fits op →
      (s.step op).Matched ∧ (s.step op).mbuf.unread = (s.step op).queue := by
    rintro s op ⟨hm, hqueue⟩ hfits
    exact ⟨step_matched hm ((keeps_iff hm op).mpr hfits), step_unread hm hqueue hfits⟩
  exact (Lib.run_invariant hstep ops _ ⟨ofBuf_matched b, rfl⟩ h).2

/-- The read of bytes that are there, as the broker makes it: the call fits, and the buffer is `Buf.skip`. -/
theorem skip_fits (b : Buf) {n : UInt32} (hn : n.toNat ≤ b.1.length) :
    (ofBuf b).Fits (.readPtr n) ∧ (ofBuf b).step (.readPtr n) = ofBuf (b.skip n.toNat hn) := by
  obtain ⟨hordered, hinside, hsized, -⟩ := (ofBuf_matched b).bounds
  have hle : b.1.readPos + n.toNat ≤ b.1.writePos := by
    rw [Mbuf.length_eq b.2] at hn
    have hb : b.1.readPos ≤ b.1.writePos := hordered
    omega
  have hroom : b.1.writePos ≤ b.1.data.length := hinside
  have hmax : b.1.data.length < 2 ^ 32 := hsized
  have hwrap : (ofBuf b).checkedSum (.readPtr n) < 2 ^ 32 := by
    show b.1.readPos + n.toNat < 2 ^ 32
    omega
  have haccepted : ¬ (ofBuf b).Refuses (.readPtr n) := fun hr => by
    have hlarge : b.1.data.length < b.1.readPos + n.toNat := (refuses_iff hwrap).mp hr
    omega
  refine ⟨⟨hwrap, Or.inl hle⟩, ?_⟩
  rw [step_accepted haccepted]
  unfold ofBuf
  rw [Buf.skip_unread]
  rfl

end Queue
end Tallied
end MqttServer
