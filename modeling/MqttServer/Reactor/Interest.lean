import MqttServer.Reactor.OutputStream

/-!
# `Reactor.Interest` — write interest and the send queue

`EVENT_WRITE` is set by `schedule_write` and toggled by `cancel_schedule_write`, which flips the bit. `handle_output`
is called while it is registered, and then the queue is not empty: so the flip after the last buffer clears it, and a
connection waits for the socket just when it has something to write (`run_write_interest`).
-/

namespace MqttServer

open EventHandler

namespace EventHandler

/-- The mask is for reading, and for writing too just when something is queued; the queue is within its limit. -/
structure Interested (h : EventHandler) : Prop where
  mask : h.currentEventMask = if h.sendMsgQueue = [] then eventRead else eventRead ||| eventWrite
  bound : h.sendMsgQueue.length ≤ maxMsgInBuffer

variable {bufs : Bufs} {h : EventHandler} {m : MbufId} {w : WriteCall}

theorem Interested.opened : Interested EventHandler.opened where
  mask := rfl
  bound := Nat.zero_le _

/-- `schedule_write` on a queue that is not empty. -/
theorem scheduleWrite_mask (hm : h.currentEventMask = eventRead ∨ h.currentEventMask = eventRead ||| eventWrite) :
    h.scheduleWrite.currentEventMask = eventRead ||| eventWrite := by
  unfold scheduleWrite
  rcases hm with hm | hm
  · rw [hm]
    rfl
  · rw [hm]
    exact hm

theorem Interested.cases (hi : Interested h) :
    h.currentEventMask = eventRead ∨ h.currentEventMask = eventRead ||| eventWrite := by
  rw [hi.mask]
  split
  · exact Or.inl rfl
  · exact Or.inr rfl

/-- `nonblk_send` sets the bit when it puts the buffer back, and else leaves the mask alone. -/
theorem nonblkSend_mask (hw : w.NonFatal)
    (hm : h.currentEventMask = eventRead ∨ h.currentEventMask = eventRead ||| eventWrite) :
    (nonblkSend bufs h m w).handler.currentEventMask =
      if (send (bufs m) w).myErrno.blocking then eventRead ||| eventWrite else h.currentEventMask := by
  have hn := (send_cases (b := bufs m) hw).1
  have hne : (send (bufs m) w).n ≠ -1 := by omega
  unfold nonblkSend
  simp only [hne, if_false]
  split
  · exact scheduleWrite_mask hm
  · rfl

theorem Interested.put (hi : Interested h) (hw : h.sendMsgQueue = [] → w.NonFatal) :
    Interested (h.put bufs m w).handler := by
  unfold EventHandler.put
  by_cases hq : h.sendMsgQueue = []
  · rw [if_pos (List.isEmpty_iff.mpr hq)]
    obtain ⟨-, -, -, hqueue⟩ := nonblkSend_eq bufs h m (hw hq)
    constructor
    case mask =>
      rw [nonblkSend_mask (hw hq) hi.cases, hqueue, hi.mask, hq, if_pos rfl]
      cases (send (bufs m) w).myErrno.blocking with
      | true => rfl
      | false => rfl
    case bound =>
      rw [hqueue, hq]
      split
      · exact Nat.succ_le_of_lt (by decide)
      · exact Nat.zero_le _
  · rw [if_neg fun he => hq (List.isEmpty_iff.mp he)]
    split
    · exact hi
    · rename_i hroom
      constructor
      case mask =>
        have hne : h.sendMsgQueue ++ [m] ≠ [] := List.append_ne_nil_of_right_ne_nil _ (List.cons_ne_nil _ _)
        rw [scheduleWrite_queue, if_neg hne]
        exact scheduleWrite_mask hi.cases
      case bound =>
        rw [scheduleWrite_queue, List.length_append, List.length_singleton]
        exact Nat.lt_of_not_le hroom

theorem Interested.handleOutput (hi : Interested h) (hon : h.currentEventMask &&& eventWrite ≠ 0)
    (hw : h.sendMsgQueue ≠ [] → w.NonFatal) : Interested (h.handleOutput bufs w).handler := by
  -- the event was asked for, so there is a first buffer
  have hne : h.sendMsgQueue ≠ [] := by
    intro hq
    rw [hi.mask, if_pos hq] at hon
    exact hon rfl
  obtain ⟨m, rest, hq⟩ := List.exists_cons_of_ne_nil hne
  have hmask : h.currentEventMask = eventRead ||| eventWrite := by rw [hi.mask, if_neg hne]
  have hbound : rest.length + 1 ≤ maxMsgInBuffer := by
    have hlen := hi.bound
    rwa [hq] at hlen
  obtain ⟨-, -, -, hqueue⟩ := nonblkSend_eq bufs { h with sendMsgQueue := rest } m (hw hne)
  have hsent : (nonblkSend bufs { h with sendMsgQueue := rest } m w).handler.currentEventMask =
      eventRead ||| eventWrite := by
    have hafter : (nonblkSend bufs { h with sendMsgQueue := rest } m w).handler.currentEventMask = _ :=
      nonblkSend_mask (hw hne) (Or.inr hmask)
    rw [hafter]
    split
    · rfl
    · exact hmask
  unfold EventHandler.handleOutput
  rw [hq]
  simp only
  constructor
  case mask =>
    rw [afterOutput_queue]
    unfold afterOutput
    by_cases he : (nonblkSend bufs { h with sendMsgQueue := rest } m w).handler.sendMsgQueue = []
    · rw [if_pos he, if_pos (List.isEmpty_iff.mpr he)]
      show (nonblkSend bufs { h with sendMsgQueue := rest } m w).handler.currentEventMask ^^^ eventWrite = eventRead
      rw [hsent]
      rfl
    · rw [if_neg he, if_neg fun hn => he (List.isEmpty_iff.mp hn)]
      exact hsent
  case bound =>
    rw [afterOutput_queue, hqueue]
    split
    · exact hbound
    · exact Nat.le_of_succ_le hbound

end EventHandler

/-- The `::write` of a call does not fail hard, and `handle_output` is called only while `EVENT_WRITE` is
    registered. -/
def Sock.Polled (s : Sock) (op : OutOp) : Prop :=
  Sock.OnWrite (fun _ w => w.NonFatal) s op ∧
    ∀ w, op = .output w → s.handler.currentEventMask &&& eventWrite ≠ 0

theorem Sock.step_interested {s : Sock} {op : OutOp} (hi : s.handler.Interested) (hp : s.Polled op) :
    (s.step op).handler.Interested := by
  obtain ⟨hw, hon⟩ := hp
  cases op with
  | put m w =>
      refine hi.put fun hq => hw m w ?_
      show (if s.handler.sendMsgQueue.isEmpty then some (m, w) else none) = some (m, w)
      rw [hq]
      rfl
  | output w =>
      refine hi.handleOutput (hon w rfl) fun hq => ?_
      obtain ⟨m, rest, hq⟩ := List.exists_cons_of_ne_nil hq
      refine hw m w ?_
      show s.handler.sendMsgQueue.head?.map (·, w) = some (m, w)
      rw [hq]
      rfl

/-- **Write interest matches the queue.** On a connection that was opened, after any number of `put` and
    `handle_output` calls without a hard error, `EVENT_WRITE` is registered just when something is queued, `EVENT_READ`
    is registered, and the queue is within its limit. -/
theorem run_write_interest (bufs : Bufs) (ops : List OutOp) (h : Lib.Along Sock.step Sock.Polled (Sock.opened bufs) ops) :
    let handler := (Lib.run Sock.step (Sock.opened bufs) ops).handler
    (handler.currentEventMask &&& eventWrite ≠ 0 ↔ handler.sendMsgQueue ≠ []) ∧
      handler.currentEventMask &&& eventRead ≠ 0 ∧ handler.sendMsgQueue.length ≤ maxMsgInBuffer := by
  have hi : (Lib.run Sock.step (Sock.opened bufs) ops).handler.Interested :=
    Lib.run_invariant (I := fun s : Sock => s.handler.Interested) (fun _ _ => Sock.step_interested) ops _
      Interested.opened h
  intro handler
  refine ⟨?_, ?_, hi.bound⟩
  · rw [hi.mask]
    by_cases hq : handler.sendMsgQueue = []
    · rw [if_pos hq]
      exact ⟨fun hne => absurd rfl hne, fun hne => absurd hq hne⟩
    · rw [if_neg hq]
      exact ⟨fun _ => hq, fun _ => by decide⟩
  · rw [hi.mask]
    split <;> decide

/-- A message that is taken in two parts, with another one put in between. -/
theorem run_write_interest_partial :
    let s := Lib.run Sock.step (Sock.opened fun _ => connAckBuf)
      [.put 0 ⟨.none, .wrote 3⟩, .put 1 ⟨.none, .wrote 4⟩, .output ⟨.none, .wrote 4⟩]
    s.handler.sendMsgQueue = [1] ∧
      (s.handler.currentEventMask &&& eventWrite ≠ 0 ↔ s.handler.sendMsgQueue ≠ []) := by
  have hwrote : ∀ (e : Errno) (n : Nat), (⟨e, .wrote n⟩ : WriteCall).NonFatal := by
    intro e n e' he
    cases he
  refine ⟨by decide +kernel, (run_write_interest (fun _ => connAckBuf) _ ?_).1⟩
  refine ⟨⟨?_, ?_⟩, ⟨?_, ?_⟩, ⟨?_, ?_⟩, trivial⟩
  · intro m w h
    cases h
    exact hwrote _ _
  · intro w h
    cases h
  · intro m w h
    cases h
  · intro w h
    cases h
  · intro m w h
    cases h
    exact hwrote _ _
  · intro w _
    decide +kernel

end MqttServer
