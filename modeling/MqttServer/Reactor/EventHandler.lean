import MqttServer.Common.Mbuf

/-!
# `Reactor.EventHandler` — the output side of `CEventHandler`

`put`, `nonblk_send`, `send` and `handle_output` of `reactor/event_handler.cpp`. A connection owns a queue of
buffers it could not write yet and an event mask; the buffers themselves are shared with the rest of the
broker, so every operation takes the store of all buffers and returns it.

One `::write` is an input: the value `errno` held before the call, which a successful call leaves in place,
and what the call did. `sent` is a ghost record of the bytes the socket took.
-/

namespace MqttServer

abbrev MbufId := Nat

/-- The values of `errno` the code distinguishes; `EWOULDBLOCK` and `EAGAIN` are one number on Linux. -/
inductive Errno where
  | none | again | intr | other
deriving DecidableEq, Repr

/-- `(my_errno == EWOULDBLOCK) || (my_errno == EAGAIN) || (my_errno == EINTR)`. -/
def Errno.blocking : Errno → Bool
  | again => true
  | intr => true
  | none => false
  | other => false

/-- The largest count one `::write` transfers on Linux. -/
def maxRwCount : Nat := 0x7ffff000

/-- What a `::write` did: take at most so many bytes, or fail. -/
inductive WriteOut where
  | wrote (n : Nat)
  | failed (e : Errno)
deriving DecidableEq, Repr

/-- One `::write`: `errno` before the call, and the outcome. -/
structure WriteCall where
  errnoBefore : Errno
  out : WriteOut
deriving DecidableEq, Repr

namespace WriteCall

/-- The number of bytes taken out of `len`. -/
def taken (w : WriteCall) (len : Nat) : Nat :=
  match w.out with
  | .wrote n => min (min n len) maxRwCount
  | .failed _ => 0

/-- `errno` after the call: only a failure sets it. -/
def errnoAfter (w : WriteCall) : Errno :=
  match w.out with
  | .wrote _ => w.errnoBefore
  | .failed e => e

theorem taken_le (w : WriteCall) (len : Nat) : w.taken len ≤ len := by
  unfold taken
  cases w.out with
  | wrote n => exact Nat.le_trans (Nat.min_le_left _ _) (Nat.min_le_right _ _)
  | failed e => exact Nat.zero_le _

end WriteCall

/-- The store of all buffers. -/
abbrev Bufs := MbufId → Buf

/-- `EVENT_READ` and `EVENT_WRITE`. -/
def eventRead : Nat := 2
def eventWrite : Nat := 4

/-- `m_max_msg_in_buffer`. -/
def maxMsgInBuffer : Nat := 50

/-- The output state of a connection: `m_send_msg_queue`, `m_current_event_mask`, and the bytes its socket
    has taken. -/
structure EventHandler where
  sendMsgQueue : List MbufId
  currentEventMask : Nat
  sent : ByteStr
deriving DecidableEq, Repr

namespace EventHandler

/-- The state after `open()`: registered for reading. -/
def opened : EventHandler := { sendMsgQueue := [], currentEventMask := eventRead, sent := [] }

/-- `schedule_write()`, with `epoll_ctl` succeeding. -/
def scheduleWrite (h : EventHandler) : EventHandler :=
  if h.currentEventMask &&& eventWrite > 0 then h
  else { h with currentEventMask := h.currentEventMask ||| eventWrite }

/-- `cancel_schedule_write()`: the bit is flipped. -/
def cancelScheduleWrite (h : EventHandler) : EventHandler :=
  { h with currentEventMask := h.currentEventMask ^^^ eventWrite }

/-- What `send` reports and leaves behind. -/
structure SendResult where
  n : Int
  myErrno : Errno
  buf : Buf
  bytes : ByteStr

/-- `send(mbuf, my_errno)`. On a full write the source clears `errno` but not `my_errno`. -/
def send (b : Buf) (w : WriteCall) : SendResult :=
  let len := b.1.length
  let myErrno := w.errnoAfter
  match w.out with
  | .failed _ =>
      if myErrno.blocking then { n := 0, myErrno, buf := b, bytes := [] }
      else { n := -1, myErrno, buf := b, bytes := [] }
  | .wrote _ =>
      let n := w.taken len
      if n = 0 then { n := 0, myErrno, buf := b, bytes := [] }
      else if n < len then
        { n := n, myErrno := .again, buf := b.skip n (w.taken_le len), bytes := b.unread.take n }
      else { n := n, myErrno, buf := b, bytes := b.unread }

/-- What an output operation returns and leaves behind; `closing` marks the branch that has to call
    `handle_close()` before it returns. -/
structure Output where
  res : Int
  closing : Bool
  bufs : Bufs
  handler : EventHandler

/-- `nonblk_send(mbuf)`. -/
def nonblkSend (bufs : Bufs) (h : EventHandler) (m : MbufId) (w : WriteCall) : Output :=
  let r := send (bufs m) w
  let bufs' := Function.update bufs m r.buf
  let h' := { h with sent := h.sent ++ r.bytes }
  if r.n = -1 then { res := -1, closing := true, bufs := bufs', handler := h' }
  else if r.myErrno.blocking then
    { res := 0, closing := false, bufs := bufs'
      handler := { h' with sendMsgQueue := m :: h'.sendMsgQueue }.scheduleWrite }
  else { res := r.n, closing := false, bufs := bufs', handler := h' }

/-- `put(mbuf)`; the write is made only when nothing is queued. -/
def put (bufs : Bufs) (h : EventHandler) (m : MbufId) (w : WriteCall) : Output :=
  if h.sendMsgQueue.isEmpty then nonblkSend bufs h m w
  else if h.sendMsgQueue.length ≥ maxMsgInBuffer then
    { res := -1, closing := false, bufs := bufs, handler := h }
  else
    { res := 0, closing := false, bufs := bufs
      handler := { h with sendMsgQueue := h.sendMsgQueue ++ [m] }.scheduleWrite }

/-- The end of `handle_output`: no more write events once the queue is empty. -/
def afterOutput (h : EventHandler) : EventHandler :=
  if h.sendMsgQueue.isEmpty then h.cancelScheduleWrite else h

/-- `handle_output()`. When `nonblk_send` has closed the connection, the caller has to account for the
    members read afterwards. -/
def handleOutput (bufs : Bufs) (h : EventHandler) (w : WriteCall) : Output :=
  match h.sendMsgQueue with
  | [] => { res := 0, closing := false, bufs := bufs, handler := h.cancelScheduleWrite }
  | m :: rest =>
      let r := nonblkSend bufs { h with sendMsgQueue := rest } m w
      { r with res := 0, handler := r.handler.afterOutput }

/-- Only a `put` that returns `-1` closes the connection. -/
theorem put_closing {bufs : Bufs} {h : EventHandler} {m : MbufId} {w : WriteCall}
    (hc : (h.put bufs m w).closing = true) : (h.put bufs m w).res = -1 := by
  unfold put at hc ⊢
  split at hc
  · rename_i hq
    rw [if_pos hq]
    unfold nonblkSend at hc ⊢
    simp only at hc ⊢
    split at hc
    · rename_i hn
      rw [if_pos hn]
    · split at hc <;> cases hc
  · split at hc <;> cases hc

@[simp] theorem scheduleWrite_queue (h : EventHandler) :
    h.scheduleWrite.sendMsgQueue = h.sendMsgQueue := by
  unfold scheduleWrite
  split <;> rfl

@[simp] theorem scheduleWrite_sent (h : EventHandler) : h.scheduleWrite.sent = h.sent := by
  unfold scheduleWrite
  split <;> rfl

@[simp] theorem afterOutput_queue (h : EventHandler) :
    h.afterOutput.sendMsgQueue = h.sendMsgQueue := by
  unfold afterOutput
  split <;> rfl

@[simp] theorem afterOutput_sent (h : EventHandler) : h.afterOutput.sent = h.sent := by
  unfold afterOutput
  split <;> rfl

end EventHandler
end MqttServer
