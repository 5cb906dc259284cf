import MqttServer.Codec.Pkt

/-!
# `Common.Mbuf` — the message buffer `CMbuf`

A `CMbuf` owns an array, a read cursor and a write cursor. One buffer is shared, by pointer, by the output
queues of connections, the pending queues of sessions and the retained slot of a topic, so the cursors are
shared too.

The arithmetic of the bound checks is the source's, modulo `2 ^ 32`. `Buf` is a buffer whose cursors are in
order; the operations the broker performs stay inside it.
-/

namespace MqttServer

/-- `MSG_DATA` and `MSG_PUBLISH`. -/
inductive MsgType where
  | data | publish
deriving DecidableEq, Repr

/-- `CMbuf`; `data` is the whole array `m_data`, and `memDb` says whether `m_mem_db` is set. -/
structure Mbuf where
  data : ByteStr
  readPos : Nat
  writePos : Nat
  msgId : Nat
  msgType : MsgType
  time : Nat
  memDb : Bool
deriving DecidableEq, Repr

namespace Mbuf

/-- `CMbuf(size)`. The array starts with unspecified content, which nothing reads before it is written. -/
def create (size time : Nat) : Mbuf :=
  { data := List.replicate size 0, readPos := 0, writePos := 0, msgId := 0, msgType := .data
    time := time, memDb := false }

/-- `length()`. -/
def length (m : Mbuf) : Nat := (2 ^ 32 + m.writePos - m.readPos) % 2 ^ 32

/-- `read_ptr(n)`: the check is against the size of the array. -/
def readPtr (m : Mbuf) (n : Nat) : Mbuf :=
  if (m.readPos + n) % 2 ^ 32 > m.data.length then m
  else { m with readPos := (m.readPos + n) % 2 ^ 32 }

/-- `write_ptr(n)`. -/
def writePtr (m : Mbuf) (n : Nat) : Mbuf :=
  if (m.writePos + n) % 2 ^ 32 > m.data.length then m
  else { m with writePos := (m.writePos + n) % 2 ^ 32 }

/-- What an encoder leaves in the array when it is given `write_ptr()`. -/
def fill (m : Mbuf) (bytes : ByteStr) : Mbuf :=
  { m with data := Pkt.store m.data m.writePos bytes }

/-- `copy(buf, len)`; a copy that does not fit changes nothing. -/
def copy (m : Mbuf) (bytes : ByteStr) : Mbuf :=
  if (m.writePos + bytes.length) % 2 ^ 32 > m.data.length then m
  else { m.fill bytes with writePos := (m.writePos + bytes.length) % 2 ^ 32 }

/-- The bytes `read_ptr()` points at, `length()` of them. -/
def unread (m : Mbuf) : ByteStr := (m.data.drop m.readPos).take m.length

/-- The cursors are in order and the array is one a `uint32_t` can size. -/
structure WF (m : Mbuf) : Prop where
  ordered : m.readPos ≤ m.writePos
  inside : m.writePos ≤ m.data.length
  sized : m.data.length < 2 ^ 32

/-! ## Well formed buffers -/

theorem create_wf {size time : Nat} (h : size < 2 ^ 32) : (create size time).WF :=
  ⟨Nat.le_refl _, Nat.zero_le _, by simpa [create] using h⟩

theorem length_eq {m : Mbuf} (h : m.WF) : m.length = m.writePos - m.readPos := by
  have h₁ := h.ordered
  have h₂ := h.inside
  have h₃ := h.sized
  unfold length
  omega

theorem unread_length {m : Mbuf} (h : m.WF) : m.unread.length = m.length := by
  have h₁ := h.inside
  have hl := length_eq h
  rw [unread, List.length_take, List.length_drop]
  omega

/-- Skipping bytes that are there moves the cursor over them. -/
theorem readPtr_eq {m : Mbuf} {n : Nat} (h : m.WF) (hn : n ≤ m.length) :
    m.readPtr n = { m with readPos := m.readPos + n } := by
  have h₁ := h.ordered
  have h₂ := h.inside
  have h₃ := h.sized
  rw [length_eq h] at hn
  have hmod : (m.readPos + n) % 2 ^ 32 = m.readPos + n := Nat.mod_eq_of_lt (by omega)
  rw [readPtr, hmod, if_neg (by omega)]

theorem readPtr_wf {m : Mbuf} {n : Nat} (h : m.WF) (hn : n ≤ m.length) : (m.readPtr n).WF := by
  have h₁ := h.ordered
  rw [readPtr_eq h hn]
  rw [length_eq h] at hn
  refine ⟨?_, h.inside, h.sized⟩
  show m.readPos + n ≤ m.writePos
  omega

theorem readPtr_unread {m : Mbuf} {n : Nat} (h : m.WF) (hn : n ≤ m.length) :
    (m.readPtr n).unread = m.unread.drop n := by
  have hwf := readPtr_wf h hn
  have hlen : (m.readPtr n).length = m.length - n := by
    rw [length_eq hwf, length_eq h, readPtr_eq h hn]
    show m.writePos - (m.readPos + n) = _
    omega
  rw [unread, hlen, unread, List.drop_take, List.drop_drop, readPtr_eq h hn]

/-- A copy that fits puts its bytes behind the unread ones. -/
theorem copy_eq {m : Mbuf} {bytes : ByteStr} (h : m.WF)
    (hfit : m.writePos + bytes.length ≤ m.data.length) :
    m.copy bytes = { m.fill bytes with writePos := m.writePos + bytes.length } := by
  have h₁ := h.sized
  have hmod : (m.writePos + bytes.length) % 2 ^ 32 = m.writePos + bytes.length :=
    Nat.mod_eq_of_lt (by omega)
  rw [copy, hmod, if_neg (by omega)]

theorem fill_wf {m : Mbuf} {bytes : ByteStr} (h : m.WF)
    (hfit : m.writePos + bytes.length ≤ m.data.length) : (m.fill bytes).WF := by
  have hlen : (m.fill bytes).data.length = m.data.length := by
    show (Pkt.store m.data m.writePos bytes).length = _
    simp only [Pkt.store, List.length_append, List.length_take, List.length_drop]
    omega
  refine ⟨h.ordered, ?_, ?_⟩
  · rw [hlen]
    exact h.inside
  · rw [hlen]
    exact h.sized

theorem copy_wf {m : Mbuf} {bytes : ByteStr} (h : m.WF)
    (hfit : m.writePos + bytes.length ≤ m.data.length) : (m.copy bytes).WF := by
  have hf := fill_wf h hfit
  have hlen : (m.fill bytes).data.length = m.data.length := by
    show (Pkt.store m.data m.writePos bytes).length = _
    simp only [Pkt.store, List.length_append, List.length_take, List.length_drop]
    omega
  rw [copy_eq h hfit]
  refine ⟨?_, ?_, hf.sized⟩
  · exact Nat.le_trans h.ordered (Nat.le_add_right _ _)
  · show m.writePos + bytes.length ≤ (m.fill bytes).data.length
    omega

/-- Copying into a fresh buffer makes the bytes its unread ones. -/
theorem create_copy_unread {size time : Nat} {bytes : ByteStr} (h : size < 2 ^ 32)
    (hfit : bytes.length ≤ size) : ((create size time).copy bytes).unread = bytes := by
  have hwf : (create size time).WF := create_wf h
  have hroom : (create size time).writePos + bytes.length ≤ (create size time).data.length := by
    simpa [create] using hfit
  have hlen : ((create size time).copy bytes).length = bytes.length := by
    rw [length_eq (copy_wf hwf hroom), copy_eq hwf hroom]
    simp [create, fill]
  rw [unread, hlen, copy_eq hwf hroom]
  simp [create, fill, Pkt.store]

end Mbuf

/-- A buffer whose cursors are in order. -/
abbrev Buf := { m : Mbuf // m.WF }

namespace Buf

/-- The bytes not yet read. -/
def unread (b : Buf) : ByteStr := b.1.unread

/-- `msg_id()`. -/
def msgId (b : Buf) : Nat := b.1.msgId

/-- `read_ptr(n)` for bytes that are there. -/
def skip (b : Buf) (n : Nat) (hn : n ≤ b.1.length) : Buf := ⟨b.1.readPtr n, Mbuf.readPtr_wf b.2 hn⟩

theorem length_unread (b : Buf) : b.unread.length = b.1.length := Mbuf.unread_length b.2

@[simp] theorem skip_unread (b : Buf) (n : Nat) (hn : n ≤ b.1.length) :
    (b.skip n hn).unread = b.unread.drop n := Mbuf.readPtr_unread b.2 hn

@[simp] theorem skip_msgId (b : Buf) (n : Nat) (hn : n ≤ b.1.length) :
    (b.skip n hn).msgId = b.msgId := by
  show (b.1.readPtr n).msgId = b.1.msgId
  rw [Mbuf.readPtr_eq b.2 hn]

/-- `make_shared<CMbuf>(size)` with `bytes` copied or encoded into it. -/
def make (size time : Nat) (bytes : ByteStr) : Buf :=
  if h : bytes.length ≤ size ∧ size < 2 ^ 32 then
    ⟨(Mbuf.create size time).copy bytes,
      Mbuf.copy_wf (Mbuf.create_wf h.2) (by simpa [Mbuf.create] using h.1)⟩
  else ⟨Mbuf.create 0 time, Mbuf.create_wf (by decide)⟩

/-- The setters `msg_id(…)`, `msg_type(…)` and the field `m_mem_db`. -/
def tag (b : Buf) (msgId : Nat) (msgType : MsgType) (memDb : Bool) : Buf :=
  ⟨{ b.1 with msgId, msgType, memDb }, ⟨b.2.ordered, b.2.inside, b.2.sized⟩⟩

@[simp] theorem tag_unread (b : Buf) (msgId : Nat) (msgType : MsgType) (memDb : Bool) :
    (b.tag msgId msgType memDb).unread = b.unread := rfl

@[simp] theorem tag_msgId (b : Buf) (msgId : Nat) (msgType : MsgType) (memDb : Bool) :
    (b.tag msgId msgType memDb).msgId = msgId := rfl

theorem make_unread {size time : Nat} {bytes : ByteStr} (hfit : bytes.length ≤ size)
    (h : size < 2 ^ 32) : (make size time bytes).unread = bytes := by
  unfold make unread
  rw [dif_pos ⟨hfit, h⟩]
  exact Mbuf.create_copy_unread h hfit

end Buf
end MqttServer
