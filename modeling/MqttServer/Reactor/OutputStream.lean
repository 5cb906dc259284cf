import MqttServer.Lib.Run
import MqttServer.Reactor.EventHandler

/-!
# `Reactor.OutputStream` — what reaches the socket of one connection

Runs of `put` and `handle_output` on one connection, with pairwise distinct buffers and any outcome of each
`::write` short of a hard error. The output is intact when the bytes the socket took, followed by what is
still unread in the send queue, are the accepted buffers one after the other.

`nonblk_send` decides by `my_errno` whether the message has to be queued again, and after a write that took
everything `my_errno` is whatever `errno` was before the call. `Told` is the condition on a `::write` under
which that decision is right, and `run_intact_iff` says that the output is intact at every point of a run
exactly when every `::write` of the run is such a call.
-/

namespace MqttServer

open EventHandler

/-- The unread bytes of some buffers, in order. -/
def unreadAll (bufs : Bufs) (ms : List MbufId) : ByteStr := ms.flatMap fun m => (bufs m).unread

namespace WriteCall

/-- The call does not fail hard. -/
def NonFatal (w : WriteCall) : Prop := ∀ e, w.out = .failed e → e.blocking = true

/-- `errno` tells what a successful call did with the `len > 0` bytes it was given: it is not one of the
    blocking values when all were taken, and it is one when none was. -/
def Told (w : WriteCall) (len : Nat) : Prop :=
  ∀ n, w.out = .wrote n → len ≠ 0 →
    (w.taken len = len → w.errnoBefore.blocking = false) ∧
    (w.taken len = 0 → w.errnoBefore.blocking = true)

end WriteCall

/-! ## One `nonblk_send` -/

theorem unreadAll_update {bufs : Bufs} {m : MbufId} {b : Buf} {ms : List MbufId} (hm : m ∉ ms) :
    unreadAll (Function.update bufs m b) ms = unreadAll bufs ms := by
  unfold unreadAll
  apply List.flatMap_congr
  intro m' hm'
  have hne : m' ≠ m := by
    rintro rfl
    exact hm hm'
  rw [Function.update_of_ne hne]

theorem unreadAll_cons_update {bufs : Bufs} {m : MbufId} {b : Buf} {ms : List MbufId} (hm : m ∉ ms) :
    unreadAll (Function.update bufs m b) (m :: ms) = b.unread ++ unreadAll bufs ms := by
  rw [← unreadAll_update hm]
  unfold unreadAll
  rw [List.flatMap_cons, Function.update_self]

/-- The three things `send` can do short of a hard error: leave a rest and say so, write everything, or
    write nothing of a message that has bytes. In the last two `my_errno` is the old `errno`. -/
theorem send_cases {b : Buf} {w : WriteCall} (hw : w.NonFatal) :
    0 ≤ (send b w).n ∧
    (((send b w).myErrno.blocking = true ∧ (send b w).bytes ++ (send b w).buf.unread = b.unread ∧
        w.Told b.1.length) ∨
     ((send b w).myErrno = w.errnoBefore ∧ (send b w).bytes = b.unread ∧ (send b w).buf = b ∧
        (w.Told b.1.length ↔ (b.unread = [] ∨ w.errnoBefore.blocking = false))) ∨
     ((send b w).myErrno.blocking = false ∧ (send b w).bytes = [] ∧ b.unread ≠ [] ∧
        ¬ w.Told b.1.length)) := by
  have hlen : b.unread.length = b.1.length := b.length_unread
  unfold send
  cases hout : w.out with
  | failed e =>
      have he : e.blocking = true := hw e hout
      have hafter : w.errnoAfter = e := by simp only [WriteCall.errnoAfter, hout]
      simp only [hafter, he, if_true]
      refine ⟨le_refl _, Or.inl ⟨trivial, rfl, ?_⟩⟩
      intro n hn
      rw [hout] at hn
      cases hn
  | wrote n =>
      have hafter : w.errnoAfter = w.errnoBefore := by simp only [WriteCall.errnoAfter, hout]
      have hempty : b.unread = [] ↔ b.1.length = 0 := by rw [← hlen, List.length_eq_zero_iff]
      have htold : w.Told b.1.length ↔ (b.1.length ≠ 0 →
          (w.taken b.1.length = b.1.length → w.errnoBefore.blocking = false) ∧
          (w.taken b.1.length = 0 → w.errnoBefore.blocking = true)) :=
        ⟨fun h => h n hout, fun h _ _ => h⟩
      simp only [hafter]
      by_cases hzero : w.taken b.1.length = 0
      · simp only [hzero, if_true]
        refine ⟨le_refl _, ?_⟩
        by_cases hb : b.1.length = 0
        · refine Or.inr (Or.inl ⟨trivial, (hempty.mpr hb).symm, trivial, ?_⟩)
          rw [htold]
          exact ⟨fun _ => Or.inl (hempty.mpr hb), fun _ h => absurd hb h⟩
        · -- nothing was written: the code asks `errno`, which an earlier call has set
          cases hblock : w.errnoBefore.blocking with
          | true =>
              refine Or.inl ⟨rfl, rfl, ?_⟩
              rw [htold]
              exact fun _ => ⟨fun h => absurd (h.symm.trans hzero) hb, fun _ => hblock⟩
          | false =>
              refine Or.inr (Or.inr ⟨rfl, trivial, fun h => hb (hempty.mp h), ?_⟩)
              rw [htold]
              intro h
              exact absurd ((h hb).2 hzero) (by simp [hblock])
      · simp only [hzero, if_false]
        have hle := w.taken_le b.1.length
        by_cases hlt : w.taken b.1.length < b.1.length
        · simp only [hlt, if_true]
          refine ⟨by positivity, Or.inl ⟨rfl, ?_, ?_⟩⟩
          · rw [Buf.skip_unread, List.take_append_drop]
          · rw [htold]
            exact fun _ => ⟨fun h => absurd h (by omega), fun h => absurd h hzero⟩
        · simp only [hlt, if_false]
          have hfull : w.taken b.1.length = b.1.length := by omega
          refine ⟨by positivity, Or.inr (Or.inl ⟨trivial, trivial, trivial, ?_⟩)⟩
          rw [htold, hempty]
          constructor
          · intro h
            by_cases hb : b.1.length = 0
            · exact Or.inl hb
            · exact Or.inr ((h hb).1 hfull)
          · rintro (hb | hblock) hne
            · exact absurd hb hne
            · exact ⟨fun _ => hblock, fun h => absurd h hzero⟩

/-- Where `nonblk_send` leaves things short of a hard error. -/
theorem nonblkSend_eq (bufs : Bufs) (h : EventHandler) (m : MbufId) {w : WriteCall} (hw : w.NonFatal) :
    0 ≤ (nonblkSend bufs h m w).res ∧
    (nonblkSend bufs h m w).bufs = Function.update bufs m (send (bufs m) w).buf ∧
    (nonblkSend bufs h m w).handler.sent = h.sent ++ (send (bufs m) w).bytes ∧
    (nonblkSend bufs h m w).handler.sendMsgQueue =
      if (send (bufs m) w).myErrno.blocking then m :: h.sendMsgQueue else h.sendMsgQueue := by
  have hn := (send_cases (b := bufs m) hw).1
  have hne : (send (bufs m) w).n ≠ -1 := by omega
  unfold nonblkSend
  simp only [hne, if_false]
  split
  · exact ⟨le_refl _, rfl, by simp, by simp⟩
  · exact ⟨hn, rfl, rfl, rfl⟩

/-- **One send keeps the stream** exactly when `errno` tells what the call did. -/
theorem nonblkSend_intact_iff (bufs : Bufs) (h : EventHandler) (m : MbufId) {w : WriteCall}
    (hw : w.NonFatal) (hm : m ∉ h.sendMsgQueue) :
    (nonblkSend bufs h m w).handler.sent ++
        unreadAll (nonblkSend bufs h m w).bufs (nonblkSend bufs h m w).handler.sendMsgQueue =
      h.sent ++ ((bufs m).unread ++ unreadAll bufs h.sendMsgQueue) ↔
    w.Told (bufs m).1.length := by
  obtain ⟨-, hbufs, hsent, hqueue⟩ := nonblkSend_eq bufs h m hw
  rw [hbufs, hsent, hqueue, List.append_assoc, List.append_cancel_left_eq]
  rcases (send_cases (b := bufs m) hw).2 with
    ⟨herr, hrest, htold⟩ | ⟨herr, hall, hbuf, htold⟩ | ⟨herr, hnone, hne, htold⟩
  · rw [if_pos herr, unreadAll_cons_update hm, ← List.append_assoc, hrest]
    exact ⟨fun _ => htold, fun _ => rfl⟩
  · rw [herr, hall, hbuf, htold, List.append_cancel_left_eq]
    cases hblock : w.errnoBefore.blocking with
    | true =>
        -- everything was written and the buffer goes back to the queue
        rw [if_pos rfl, unreadAll_cons_update hm]
        constructor
        · intro heq
          left
          have hl := congrArg List.length heq
          rw [List.length_append] at hl
          exact List.length_eq_zero_iff.mp (by omega)
        · rintro (hempty | hfalse)
          · rw [hempty, List.nil_append]
          · cases hfalse
    | false =>
        rw [if_neg (by simp), unreadAll_update hm]
        exact ⟨fun _ => Or.inr rfl, fun _ => rfl⟩
  · rw [herr, hnone, if_neg (by simp), unreadAll_update hm, List.nil_append]
    constructor
    · intro heq
      have hl := congrArg List.length heq
      rw [List.length_append] at hl
      exact absurd (List.length_eq_zero_iff.mp (by omega)) hne
    · exact fun h => absurd h htold

/-! ## Runs -/

/-- A call on the connection: `put` of a buffer, or a write-ready event. The `::write` is used only when the
    call makes one. -/
inductive OutOp where
  | put (m : MbufId) (w : WriteCall)
  | output (w : WriteCall)

/-- A connection with the store of buffers; `puts` are all buffers ever passed to `put`, and `accepted` those
    for which it returned a value `≥ 0`. -/
structure Sock where
  bufs : Bufs
  handler : EventHandler
  puts : List MbufId
  accepted : List MbufId

namespace Sock

/-- A freshly opened connection. -/
def opened (bufs : Bufs) : Sock := { bufs, handler := EventHandler.opened, puts := [], accepted := [] }

/-- One call. -/
def step (s : Sock) : OutOp → Sock
  | .put m w =>
      let r := EventHandler.put s.bufs s.handler m w
      { bufs := r.bufs, handler := r.handler, puts := s.puts ++ [m]
        accepted := if 0 ≤ r.res then s.accepted ++ [m] else s.accepted }
  | .output w =>
      let r := EventHandler.handleOutput s.bufs s.handler w
      { s with bufs := r.bufs, handler := r.handler }

/-- The `::write` a call makes, with the buffer it is given. -/
def writes (s : Sock) : OutOp → Option (MbufId × WriteCall)
  | .put m w => if s.handler.sendMsgQueue.isEmpty then some (m, w) else none
  | .output w => s.handler.sendMsgQueue.head?.map (·, w)

/-- The `::write` of a call, if any, meets `P`. -/
def OnWrite (P : Buf → WriteCall → Prop) (s : Sock) (op : OutOp) : Prop :=
  ∀ m w, s.writes op = some (m, w) → P (s.bufs m) w

/-- The bytes written, followed by the unread bytes of the queue, are the accepted buffers in order; `bufs`
    holds the buffers as they were put. -/
def Intact (bufs : Bufs) (s : Sock) : Prop :=
  s.handler.sent ++ unreadAll s.bufs s.handler.sendMsgQueue = unreadAll bufs s.accepted

end Sock

/-- The buffers put in a run. -/
def OutOp.putBufs : List OutOp → List MbufId
  | [] => []
  | .put m _ :: ops => m :: putBufs ops
  | .output _ :: ops => putBufs ops

namespace Sock

/-- What a run with distinct buffers maintains: the output is intact, what is queued was put once, and a
    buffer not put yet is as it was at the start. -/
structure Ordered (bufs : Bufs) (s : Sock) : Prop where
  intact : s.Intact bufs
  queued : ∀ m ∈ s.handler.sendMsgQueue, m ∈ s.puts
  nodup : s.handler.sendMsgQueue.Nodup
  untouched : ∀ m, m ∉ s.puts → s.bufs m = bufs m

variable {bufs : Bufs} {s : Sock}

theorem onWrite_some {P : Buf → WriteCall → Prop} {op : OutOp} {m : MbufId} {w : WriteCall}
    (h : s.writes op = some (m, w)) : s.OnWrite P op ↔ P (s.bufs m) w := by
  constructor
  · exact fun hP => hP m w h
  · intro hP m' w' h'
    rw [h] at h'
    cases h'
    exact hP

theorem onWrite_none {P : Buf → WriteCall → Prop} {op : OutOp} (h : s.writes op = none) :
    s.OnWrite P op := by
  intro m w h'
  rw [h] at h'
  cases h'

/-- A `put` that finds the queue empty. -/
theorem step_put_send {m : MbufId} {w : WriteCall} (hq : s.handler.sendMsgQueue = []) (hw : w.NonFatal) :
    s.step (.put m w) =
      { bufs := (nonblkSend s.bufs s.handler m w).bufs
        handler := (nonblkSend s.bufs s.handler m w).handler
        puts := s.puts ++ [m], accepted := s.accepted ++ [m] } := by
  have hres := (nonblkSend_eq s.bufs s.handler m hw).1
  simp only [step, EventHandler.put, hq, List.isEmpty_nil, if_true, hres]

/-- A `put` behind queued buffers makes no `::write`; it is refused when the queue is full. -/
theorem step_put_queue {m : MbufId} {w : WriteCall} (hq : s.handler.sendMsgQueue ≠ []) :
    (s.step (.put m w)).bufs = s.bufs ∧ (s.step (.put m w)).handler.sent = s.handler.sent ∧
    (s.step (.put m w)).puts = s.puts ++ [m] ∧
    (((s.step (.put m w)).handler.sendMsgQueue = s.handler.sendMsgQueue ∧
        (s.step (.put m w)).accepted = s.accepted) ∨
     ((s.step (.put m w)).handler.sendMsgQueue = s.handler.sendMsgQueue ++ [m] ∧
        (s.step (.put m w)).accepted = s.accepted ++ [m])) := by
  have hempty : s.handler.sendMsgQueue.isEmpty = false := by
    simpa using hq
  unfold step EventHandler.put
  rw [hempty]
  by_cases hfull : s.handler.sendMsgQueue.length ≥ maxMsgInBuffer
  · simp [hfull]
  · simp [hfull]

/-- A write-ready event with buffers queued. -/
theorem step_output_send {m : MbufId} {rest : List MbufId} {w : WriteCall}
    (hq : s.handler.sendMsgQueue = m :: rest) :
    s.step (.output w) =
      { s with
        bufs := (nonblkSend s.bufs { s.handler with sendMsgQueue := rest } m w).bufs
        handler := (nonblkSend s.bufs { s.handler with sendMsgQueue := rest } m w).handler.afterOutput } := by
  simp only [step, EventHandler.handleOutput, hq]

/-- **Step lemma.** One call keeps the output intact exactly when its `::write` was told. -/
theorem step_intact_iff (hs : s.Ordered bufs) {op : OutOp} (hfresh : ∀ m ∈ OutOp.putBufs [op], m ∉ s.puts)
    (hw : s.OnWrite (fun _ w => w.NonFatal) op) :
    (s.step op).Intact bufs ↔ s.OnWrite (fun b w => w.Told b.1.length) op := by
  have hintact := hs.intact
  unfold Intact at hintact ⊢
  cases op with
  | put m w =>
      have hm : m ∉ s.puts := hfresh m (by simp [OutOp.putBufs])
      have hbuf : s.bufs m = bufs m := hs.untouched m hm
      -- only a put on an empty queue writes to the socket
      by_cases hq : s.handler.sendMsgQueue = []
      · have hwr : s.writes (.put m w) = some (m, w) := by simp [writes, hq]
        have hnf : w.NonFatal := hw m w hwr
        have hone := nonblkSend_intact_iff s.bufs s.handler m hnf (by simp [hq])
        rw [step_put_send hq hnf, onWrite_some hwr]
        simp only [unreadAll, hq, List.flatMap_nil, List.append_nil, List.flatMap_append,
          List.flatMap_cons] at hintact hone ⊢
        rw [← hintact, ← hbuf]
        exact hone
      · have hwr : s.writes (.put m w) = none := by simp [writes, hq]
        obtain ⟨hbufs, hsent, -, ⟨hqueue, hacc⟩ | ⟨hqueue, hacc⟩⟩ := step_put_queue (m := m) (w := w) hq
        · rw [hbufs, hsent, hqueue, hacc]
          exact ⟨fun _ => onWrite_none hwr, fun _ => hintact⟩
        · rw [hbufs, hsent, hqueue, hacc]
          refine ⟨fun _ => onWrite_none hwr, fun _ => ?_⟩
          simp only [unreadAll, List.flatMap_append, List.flatMap_cons, List.flatMap_nil,
            List.append_nil] at hintact ⊢
          rw [← List.append_assoc, hintact, hbuf]
  | output w =>
      cases hq : s.handler.sendMsgQueue with
      | nil =>
          have hwr : s.writes (.output w) = none := by simp [writes, hq]
          have hstep : (s.step (.output w)).handler = s.handler.cancelScheduleWrite ∧
              (s.step (.output w)).bufs = s.bufs ∧ (s.step (.output w)).accepted = s.accepted := by
            simp [step, EventHandler.handleOutput, hq]
          rw [hstep.1, hstep.2.1, hstep.2.2]
          exact ⟨fun _ => onWrite_none hwr, fun _ => hintact⟩
      | cons m rest =>
          have hwr : s.writes (.output w) = some (m, w) := by simp [writes, hq]
          have hnf : w.NonFatal := hw m w hwr
          have hnd : m ∉ rest := by
            have := hs.nodup
            rw [hq, List.nodup_cons] at this
            exact this.1
          have hone := nonblkSend_intact_iff s.bufs { s.handler with sendMsgQueue := rest } m hnf hnd
          rw [hq] at hintact
          rw [step_output_send hq, onWrite_some hwr]
          simp only [afterOutput_sent, afterOutput_queue]
          rw [← hintact]
          exact hone

/-- One call keeps the rest of the invariant whatever its `::write` did. -/
theorem step_ordered (hs : s.Ordered bufs) {op : OutOp} (hfresh : ∀ m ∈ OutOp.putBufs [op], m ∉ s.puts)
    (hw : s.OnWrite (fun _ w => w.NonFatal) op) (hi : (s.step op).Intact bufs) :
    (s.step op).Ordered bufs := by
  cases op with
  | put m w =>
      have hm : m ∉ s.puts := hfresh m (by simp [OutOp.putBufs])
      by_cases hq : s.handler.sendMsgQueue = []
      · -- nothing waits: the buffer goes to the socket, and what is left of it is the queue
        have hnf : w.NonFatal := hw m w (by simp [writes, hq])
        obtain ⟨-, hbufs, -, hqueue⟩ := nonblkSend_eq s.bufs s.handler m hnf
        rw [hq] at hqueue
        rw [step_put_send hq hnf] at hi ⊢
        refine ⟨hi, ?_, ?_, ?_⟩
        · simp only [hqueue]
          split <;> simp
        · simp only [hqueue]
          split <;> simp
        · intro m' hm'
          have hne : m' ≠ m := by
            rintro rfl
            exact hm' (by simp)
          simp only [hbufs]
          rw [Function.update_of_ne hne]
          exact hs.untouched m' (fun h => hm' (by simp [h]))
      · -- something waits: the buffer joins the end, unless the queue is full
        obtain ⟨hbufs, -, hputs, ⟨hqueue, -⟩ | ⟨hqueue, -⟩⟩ := step_put_queue (m := m) (w := w) hq
        · refine ⟨hi, ?_, ?_, ?_⟩
          · rw [hqueue, hputs]
            exact fun m' h => List.mem_append_left _ (hs.queued m' h)
          · rw [hqueue]
            exact hs.nodup
          · rw [hbufs, hputs]
            exact fun m' h => hs.untouched m' (fun h' => h (List.mem_append_left _ h'))
        · refine ⟨hi, ?_, ?_, ?_⟩
          · rw [hqueue, hputs]
            intro m' h
            rcases List.mem_append.mp h with h | h
            · exact List.mem_append_left _ (hs.queued m' h)
            · exact List.mem_append_right _ h
          · rw [hqueue, List.nodup_append]
            refine ⟨hs.nodup, List.nodup_singleton m, ?_⟩
            rintro a ha b hb rfl
            rw [List.mem_singleton] at hb
            exact hm (hb ▸ hs.queued a ha)
          · rw [hbufs, hputs]
            exact fun m' h => hs.untouched m' (fun h' => h (List.mem_append_left _ h'))
  | output w =>
      cases hq : s.handler.sendMsgQueue with
      | nil =>
          have hstep : s.step (.output w) = { s with handler := s.handler.cancelScheduleWrite } := by
            simp [step, EventHandler.handleOutput, hq]
          rw [hstep] at hi ⊢
          exact ⟨hi, hs.queued, hs.nodup, hs.untouched⟩
      | cons m rest =>
          have hnf : w.NonFatal := hw m w (by simp [writes, hq])
          have hnd := hs.nodup
          have hqd := hs.queued
          rw [hq] at hnd hqd
          obtain ⟨-, hbufs, -, hqueue⟩ := nonblkSend_eq s.bufs { s.handler with sendMsgQueue := rest } m hnf
          rw [step_output_send hq] at hi ⊢
          refine ⟨hi, ?_, ?_, ?_⟩
          · simp only [afterOutput_queue, hqueue]
            split
            · exact hqd
            · exact fun m' h => hqd m' (List.mem_cons_of_mem _ h)
          · simp only [afterOutput_queue, hqueue]
            split
            · exact hnd
            · exact hnd.of_cons
          · intro m' hm'
            have hne : m' ≠ m := by
              rintro rfl
              exact hm' (hqd _ (List.mem_cons_self))
            simp only [hbufs]
            rw [Function.update_of_ne hne]
            exact hs.untouched m' hm'

theorem step_puts (s : Sock) (op : OutOp) : (s.step op).puts = s.puts ++ OutOp.putBufs [op] := by
  cases op with
  | put m w => rfl
  | output w => simp [step, OutOp.putBufs]

end Sock

/-- **Run lemma.** From an ordered state, the output is intact after every part of a run exactly when every
    `::write` of the run was told. -/
theorem run_intact_iff_of_ordered (bufs : Bufs) (ops : List OutOp) :
    ∀ s : Sock, s.Ordered bufs → (s.puts ++ OutOp.putBufs ops).Nodup →
      Lib.Along Sock.step (Sock.OnWrite fun _ w => w.NonFatal) s ops →
      ((∀ n, (Lib.run Sock.step s (ops.take n)).Intact bufs) ↔
        Lib.Along Sock.step (Sock.OnWrite fun b w => w.Told b.1.length) s ops) := by
  induction ops with
  | nil =>
      intro s hs _ _
      exact ⟨fun _ => trivial, fun _ n => by rw [List.take_nil]; exact hs.intact⟩
  | cons op ops ih =>
      intro s hs hnd hw
      have hputs : OutOp.putBufs (op :: ops) = OutOp.putBufs [op] ++ OutOp.putBufs ops := by
        cases op <;> rfl
      rw [hputs, ← List.append_assoc, ← Sock.step_puts] at hnd
      have hfresh : ∀ m ∈ OutOp.putBufs [op], m ∉ s.puts := by
        intro m hm hm'
        have h := (List.nodup_append.mp hnd).1
        rw [Sock.step_puts, List.nodup_append] at h
        exact h.2.2 m hm' m hm rfl
      have hone := Sock.step_intact_iff hs hfresh hw.1
      constructor
      · intro h
        have hi : (s.step op).Intact bufs := h 1
        refine ⟨hone.mp hi, ?_⟩
        exact (ih _ (Sock.step_ordered hs hfresh hw.1 hi) hnd hw.2).mp (fun n => h (n + 1))
      · rintro ⟨htold, hrest⟩ n
        have hi : (s.step op).Intact bufs := hone.mpr htold
        cases n with
        | zero => exact hs.intact
        | succ n => exact (ih _ (Sock.step_ordered hs hfresh hw.1 hi) hnd hw.2).mpr hrest n

/-- **Output stream integrity.** On a fresh connection, for distinct buffers and no hard error, the bytes
    written followed by the unread bytes of the queue are the accepted buffers in order at every point of the
    run, exactly when every `::write` of a non-empty message that takes it whole finds `errno` not blocking,
    and every one that takes nothing finds it blocking. -/
theorem run_intact_iff (bufs : Bufs) (ops : List OutOp) (hnd : (OutOp.putBufs ops).Nodup)
    (hw : Lib.Along Sock.step (Sock.OnWrite fun _ w => w.NonFatal) (Sock.opened bufs) ops) :
    (∀ n, (Lib.run Sock.step (Sock.opened bufs) (ops.take n)).Intact bufs) ↔
      Lib.Along Sock.step (Sock.OnWrite fun b w => w.Told b.1.length) (Sock.opened bufs) ops := by
  refine run_intact_iff_of_ordered bufs ops (Sock.opened bufs) ?_ hnd hw
  exact ⟨rfl, fun m hm => absurd hm List.not_mem_nil, List.nodup_nil, fun _ _ => rfl⟩

/-- A CONNACK in a buffer of its own size. -/
def connAckBuf : Buf :=
  ⟨{ data := [0x20, 0x02, 0x00, 0x00], readPos := 0, writePos := 4, msgId := 0, msgType := .data
     time := 0, memDb := false }, ⟨by decide, by decide, by decide⟩⟩

/-- Three bytes of the first message are taken, the second message is queued behind the rest, and two
    write-ready events take both. -/
def partialRun : List OutOp :=
  [.put 0 ⟨.none, .wrote 3⟩, .put 1 ⟨.none, .wrote 4⟩, .output ⟨.none, .wrote 4⟩, .output ⟨.none, .wrote 4⟩]

theorem run_intact_partial :
    (Lib.run Sock.step (Sock.opened fun _ => connAckBuf) partialRun).handler.sent =
      connAckBuf.unread ++ connAckBuf.unread ∧
    ∀ n, (Lib.run Sock.step (Sock.opened fun _ => connAckBuf) (partialRun.take n)).Intact
      fun _ => connAckBuf := by
  refine ⟨by decide +kernel, (run_intact_iff (fun _ => connAckBuf) partialRun (by decide) ?_).mpr ?_⟩
  · have hall : ∀ (w : WriteCall) (n : Nat), w.out = .wrote n → w.NonFatal := by
      intro w n hn e he
      rw [hn] at he
      cases he
    refine ⟨?_, ?_, ?_, ?_, trivial⟩ <;> intro m w h <;> cases h
    · exact hall _ 3 rfl
    · exact hall _ 4 rfl
    · exact hall _ 4 rfl
  · have hall : ∀ (b : Buf) (w : WriteCall), w.errnoBefore = .none → w.taken b.1.length ≠ 0 →
        w.Told b.1.length := by
      intro b w he hn k _ _
      exact ⟨fun _ => by rw [he]; rfl, fun h => absurd h hn⟩
    refine ⟨?_, ?_, ?_, ?_, trivial⟩ <;> intro m w h <;> cases h
    · exact hall _ _ rfl (by decide)
    · exact hall _ _ rfl (by decide +kernel)
    · exact hall _ _ rfl (by decide +kernel)

/-- With `EAGAIN` left in `errno`, a message written whole is queued again: its bytes are sent and still
    pending. -/
theorem run_intact_stale_errno :
    (OutOp.putBufs [.put 0 ⟨.again, .wrote 4⟩]).Nodup ∧
    Lib.Along Sock.step (Sock.OnWrite fun _ w => w.NonFatal) (Sock.opened fun _ => connAckBuf)
      [.put 0 ⟨.again, .wrote 4⟩] ∧
    ¬ (Lib.run Sock.step (Sock.opened fun _ => connAckBuf) [.put 0 ⟨.again, .wrote 4⟩]).Intact
      fun _ => connAckBuf := by
  refine ⟨by decide, ⟨?_, trivial⟩, ?_⟩
  · intro m w h e he
    cases h
    cases he
  · unfold Sock.Intact
    decide +kernel

end MqttServer
