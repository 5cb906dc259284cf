import MqttServer.Correctness.Refine
import MqttServer.Reactor.OutputStream

/-!
# `Correctness.Output` — when a `put` returns, and what it leaves

A `put` on a live connection closes it exactly when nothing is queued and the write fails hard: whether that happens
is decided by the queue and the call alone, not by the buffer. Otherwise it leaves the tables as they are, and returns
`-1` when the queue is full. A sequence of `put`s on one connection ends in one of three ways, and which one follows
from the length of the queue, the lengths of the buffers and the outcomes of the writes (`Fate`).
-/

namespace MqttServer

open Lib Exec

variable {env : Env} {b b' : Broker} {k : ConnId} {c : CtxId} {m : MbufId}

/-! ## One `put` -/

instance (w : WriteCall) : Decidable w.NonFatal :=
  match h : w.out with
  | .wrote _ => isTrue fun e he => by rw [h] at he; cases he
  | .failed e => decidable_of_iff (e.blocking = true) ⟨fun hb e' he => by rw [h] at he; cases he; exact hb, fun hw => hw e h⟩

/-- The write that a `put` would make now does not fail hard. -/
def EventHandler.Takes (h : EventHandler) (w : WriteCall) : Prop := h.sendMsgQueue = [] → w.NonFatal

/-- The next `put` on the connection does not close it. -/
def Broker.Takes (env : Env) (b : Broker) (k : ConnId) : Prop := (b.handlers k).Takes (env.write k (b.nwrites k))

instance (env : Env) (b : Broker) (k : ConnId) : Decidable (b.Takes env k) := inferInstanceAs (Decidable (_ → _))

/-- The next `put` on the connection neither closes it nor is refused by a full queue. -/
def Broker.Accepts (env : Env) (b : Broker) (k : ConnId) : Prop :=
  b.Takes env k ∧ (b.handlers k).sendMsgQueue.length < maxMsgInBuffer

instance (env : Env) (b : Broker) (k : ConnId) : Decidable (b.Accepts env k) := inferInstanceAs (Decidable (_ ∧ _))

theorem EventHandler.send_fatal (buf : Buf) {w : WriteCall} : (send buf w).n = -1 ↔ ¬ w.NonFatal := by
  constructor
  · intro hn hw
    have hpos := (send_cases (b := buf) hw).1
    omega
  · intro hw
    unfold WriteCall.NonFatal at hw
    push Not at hw
    obtain ⟨e, hout, hblock⟩ := hw
    unfold send WriteCall.errnoAfter
    rw [hout]
    simp [hblock]

theorem EventHandler.put_closing_iff (h : EventHandler) (bufs : Bufs) (m : MbufId) (w : WriteCall) :
    (h.put bufs m w).closing = true ↔ ¬ h.Takes w := by
  unfold EventHandler.put EventHandler.Takes
  by_cases hq : h.sendMsgQueue = []
  · rw [if_pos (List.isEmpty_iff.mpr hq)]
    have himp : ¬ (h.sendMsgQueue = [] → w.NonFatal) ↔ ¬ w.NonFatal :=
      ⟨fun hn hw => hn fun _ => hw, fun hn hw => hn (hw hq)⟩
    rw [himp, ← send_fatal (bufs m)]
    unfold nonblkSend
    by_cases hn : (send (bufs m) w).n = -1
    · simp only [hn, if_true]
    · simp only [hn, if_false, iff_false]
      split <;> exact Bool.false_ne_true
  · have hne : ¬ h.sendMsgQueue.isEmpty = true := fun he => hq (List.isEmpty_iff.mp he)
    rw [if_neg hne]
    have himp : ¬ ¬ (h.sendMsgQueue = [] → w.NonFatal) := fun hn => hn fun he => absurd he hq
    simp only [himp, iff_false]
    split <;> exact Bool.false_ne_true

/-- The broker after a `put`, before the connection is closed. -/
def Broker.afterPut (env : Env) (b : Broker) (k : ConnId) (m : MbufId) : Broker :=
  { b with
    bufs := ((b.handlers k).put b.bufs m (env.write k (b.nwrites k))).bufs
    handlers := Function.update b.handlers k ((b.handlers k).put b.bufs m (env.write k (b.nwrites k))).handler
    nwrites := Function.update b.nwrites k
      (if (b.handlers k).sendMsgQueue.isEmpty then b.nwrites k + 1 else b.nwrites k)
    log := b.log ++ [Act.put k m ((b.handlers k).put b.bufs m (env.write k (b.nwrites k))).res] }

theorem touch_alive (ha : b.sess.Alive k) : touch k b = .ok ((), b) := touch_ok.mpr ⟨rfl, ha⟩

/-- A `put` on a live connection. -/
theorem put_apply (ha : b.sess.Alive k) : put env k m b =
    (closeOnError k ((b.handlers k).put b.bufs m (env.write k (b.nwrites k))).closing >>= fun _ =>
      pure ((b.handlers k).put b.bufs m (env.write k (b.nwrites k))).res : BrokerM Int) (b.afterPut env k m) := by
  unfold put
  rw [bind_apply, touch_alive ha]
  rfl

/-- A `put` that the connection takes. -/
theorem put_takes (ha : b.sess.Alive k) (ht : b.Takes env k) :
    put env k m b = .ok (((b.handlers k).put b.bufs m (env.write k (b.nwrites k))).res, b.afterPut env k m) := by
  have hclosing : ((b.handlers k).put b.bufs m (env.write k (b.nwrites k))).closing = false := by
    rw [← Bool.not_eq_true, EventHandler.put_closing_iff]
    exact not_not_intro ht
  rw [put_apply ha, hclosing]
  rfl

/-- The time stamps after `handle_close` of a connection with this context. -/
def Broker.closedTimes (b : Broker) (c : CtxId) : CtxId → ContextTimes :=
  Function.update b.times c { b.times c with close := b.now }

/-- The broker after `handle_close` of a connection with a context. -/
def Broker.afterClose (b : Broker) (k : ConnId) (c : CtxId) (cause : Cause) : Broker :=
  { b.act (b.sess.close k c) (.close k c cause (b.sess.ctxs c).cleanSession (b.isBusy k)) with
    handlers := Function.update b.handlers k { b.handlers k with currentEventMask := 0 }
    times := b.closedTimes c }

/-- On a connection with a context `handle_close` completes. -/
theorem handleClose_total (cause : Cause) (hc : b.sess.contextOf k = some c) :
    handleClose k cause b = .ok ((), b.afterClose k c cause) := by
  unfold handleClose
  rw [bind_apply, touch_alive (Sess.alive_of_contextOf hc)]
  simp only
  rw [modify_bind, get_bind]
  simp only [hc]
  rfl

/-- A `put` that loses the connection. -/
theorem put_loses (ht : ¬ b.Takes env k) (hc : b.sess.contextOf k = some c) :
    put env k m b = .ok (-1, (b.afterPut env k m).afterClose k c .lost) := by
  have hclosing := (EventHandler.put_closing_iff (b.handlers k) b.bufs m (env.write k (b.nwrites k))).mpr ht
  have hclose : handleClose k .lost (b.afterPut env k m) = .ok ((), (b.afterPut env k m).afterClose k c .lost) :=
    handleClose_total .lost hc
  rw [put_apply (Sess.alive_of_contextOf hc), hclosing, EventHandler.put_closing hclosing, bind_apply]
  unfold closeOnError
  rw [if_pos rfl, hclose]
  rfl

/-- A `put` returns, and leaves the connection alive, exactly when the connection takes it. -/
theorem takes_of_alive {r : Int} (h : put env k m b = .ok (r, b')) (ha : b'.sess.Alive k) : b.Takes env k := by
  by_contra ht
  have hclosing := (EventHandler.put_closing_iff (b.handlers k) b.bufs m (env.write k (b.nwrites k))).mpr ht
  rw [put_apply (put_ok h).1, hclosing, bind_ok] at h
  obtain ⟨_, b₁, hclose, h⟩ := h
  cases h
  unfold closeOnError at hclose
  rw [if_pos rfl] at hclose
  obtain ⟨c, -, hs, -⟩ := handleClose_ok hclose
  rw [hs] at ha
  exact (Sess.alive_close.mp ha).1 rfl

/-- The connection takes a part of the buffer now. -/
def Broker.Moves (env : Env) (b : Broker) (k : ConnId) (m : MbufId) : Prop :=
  (b.handlers k).sendMsgQueue = [] ∧ 0 < (env.write k (b.nwrites k)).taken (b.bufs m).1.length ∧
    (env.write k (b.nwrites k)).taken (b.bufs m).1.length < (b.bufs m).1.length

theorem EventHandler.send_buf (buf : Buf) (w : WriteCall) :
    if 0 < w.taken buf.1.length ∧ w.taken buf.1.length < buf.1.length then
      (send buf w).buf.1.length < buf.1.length
    else (send buf w).buf = buf := by
  unfold send
  cases hout : w.out with
  | failed e =>
      have htaken : w.taken buf.1.length = 0 := by
        unfold WriteCall.taken
        rw [hout]
      rw [if_neg (by omega)]
      simp only
      split <;> rfl
  | wrote n =>
      simp only
      by_cases h₀ : w.taken buf.1.length = 0
      · rw [if_neg (by omega), if_pos h₀]
      · by_cases hlt : w.taken buf.1.length < buf.1.length
        · have hlen := (buf.skip (w.taken buf.1.length) (w.taken_le _)).length_unread
          rw [Buf.skip_unread, List.length_drop, buf.length_unread] at hlen
          rw [if_pos ⟨by omega, hlt⟩, if_neg h₀, if_pos hlt]
          simp only
          omega
        · rw [if_neg (fun h => hlt h.2), if_neg h₀, if_neg hlt]

/-- The cursor of the buffer moves with a write that takes a part of it, and stays otherwise. -/
theorem Broker.afterPut_buf (env : Env) (b : Broker) (k : ConnId) (m : MbufId) :
    (b.Moves env k m → ((b.afterPut env k m).bufs m).1.length < (b.bufs m).1.length) ∧
      (¬ b.Moves env k m → (b.afterPut env k m).bufs m = b.bufs m) := by
  have hsend := EventHandler.send_buf (b.bufs m) (env.write k (b.nwrites k))
  by_cases hq : (b.handlers k).sendMsgQueue = []
  · have hbuf : (b.afterPut env k m).bufs m = (EventHandler.send (b.bufs m) (env.write k (b.nwrites k))).buf := by
      show ((b.handlers k).put b.bufs m _).bufs m = _
      unfold EventHandler.put EventHandler.nonblkSend
      rw [if_pos (List.isEmpty_iff.mpr hq)]
      simp only
      split
      · exact Function.update_self _ _ _
      · split <;> exact Function.update_self _ _ _
    rw [hbuf]
    constructor
    · intro hm
      rw [if_pos hm.2] at hsend
      exact hsend
    · intro hm
      rw [if_neg (fun h => hm ⟨hq, h⟩)] at hsend
      exact hsend
  · refine ⟨fun hm => absurd hm.1 hq, fun _ => ?_⟩
    have hne : ¬ (b.handlers k).sendMsgQueue.isEmpty = true := fun he => hq (List.isEmpty_iff.mp he)
    show ((b.handlers k).put b.bufs m _).bufs m = _
    unfold EventHandler.put
    rw [if_neg hne]
    split <;> rfl

/-! ## A sequence of `put`s -/

/-- The buffer, or the rest of it, is queued after the write. -/
def WriteCall.stays (w : WriteCall) (len : Nat) : Bool :=
  match w.out with
  | .failed _ => true
  | .wrote _ => w.errnoBefore.blocking || (decide (0 < w.taken len) && decide (w.taken len < len))

/-- How a sequence of `put`s ends. -/
inductive Fate where
  | taken | full | lost
deriving DecidableEq, Repr

/-- What becomes of buffers of these lengths on a connection with `q` queued buffers and `n` writes behind it, when
    the first `put` that returns `-1` is the last. -/
def fate (write : Nat → WriteCall) : Nat → Nat → List Nat → Fate
  | _, _, [] => .taken
  | 0, n, len :: lens =>
      if (write n).NonFatal then fate write (if (write n).stays len then 1 else 0) (n + 1) lens
      else .lost
  | q + 1, n, _ :: lens => if maxMsgInBuffer ≤ q + 1 then .full else fate write (q + 2) n lens

/-- What becomes of some buffers put on a connection. -/
def Broker.fate (env : Env) (b : Broker) (k : ConnId) (ms : List MbufId) : Fate :=
  MqttServer.fate (env.write k) (b.handlers k).sendMsgQueue.length (b.nwrites k)
    (ms.map fun m => (b.bufs m).1.length)

/-- Where something is queued nothing is written, and the lengths do not matter. -/
theorem fate_queued {write : Nat → WriteCall} {n : Nat} (lens : List Nat) : ∀ (q : Nat) (lens' : List Nat),
    lens.length = lens'.length → fate write (q + 1) n lens = fate write (q + 1) n lens' := by
  induction lens with
  | nil =>
      intro q lens' hl
      rw [List.length_eq_zero_iff.mp hl.symm]
  | cons len lens ih =>
      intro q lens' hl
      cases lens' with
      | nil => cases hl
      | cons len' lens' =>
          unfold fate
          rw [ih (q + 1) lens' (Nat.succ.inj hl)]

theorem EventHandler.send_stays (buf : Buf) {w : WriteCall} (hw : w.NonFatal) :
    (send buf w).myErrno.blocking = w.stays buf.1.length ∧ (w.stays buf.1.length = false → (send buf w).buf = buf) := by
  unfold send WriteCall.stays
  cases hout : w.out with
  | failed e =>
      have hblock : w.errnoAfter.blocking = true := by
        unfold WriteCall.errnoAfter
        rw [hout]
        exact hw e hout
      simp [hblock]
  | wrote n =>
      have hafter : w.errnoAfter = w.errnoBefore := by
        unfold WriteCall.errnoAfter
        rw [hout]
      simp only [hafter]
      by_cases h₀ : w.taken buf.1.length = 0
      · simp [h₀]
      · have hpos : 0 < w.taken buf.1.length := Nat.pos_of_ne_zero h₀
        by_cases hlt : w.taken buf.1.length < buf.1.length
        · simp [h₀, hlt, hpos, Errno.blocking]
        · simp [h₀, hlt]

/-- A `put` with nothing queued. -/
theorem EventHandler.put_first {h : EventHandler} (bufs : Bufs) (m : MbufId) {w : WriteCall} (hq : h.sendMsgQueue = [])
    (hw : w.NonFatal) :
    (h.put bufs m w).res ≠ -1 ∧
      (h.put bufs m w).handler.sendMsgQueue.length = (if w.stays (bufs m).1.length then 1 else 0) ∧
      (w.stays (bufs m).1.length = false → (h.put bufs m w).bufs = bufs) := by
  obtain ⟨hres, hbufs, -, hqueue⟩ := nonblkSend_eq bufs h m hw
  obtain ⟨hstays, hsame⟩ := send_stays (bufs m) hw
  unfold EventHandler.put
  rw [if_pos (List.isEmpty_iff.mpr hq)]
  refine ⟨by omega, ?_, fun hs => ?_⟩
  · rw [hqueue, hstays, hq]
    split <;> rfl
  · rw [hbufs, hsame hs, Function.update_eq_self]

/-- A `put` behind others. -/
theorem EventHandler.put_behind {h : EventHandler} (bufs : Bufs) (m : MbufId) (w : WriteCall) {q : Nat}
    (hq : h.sendMsgQueue.length = q + 1) :
    if maxMsgInBuffer ≤ q + 1 then (h.put bufs m w).res = -1
    else (h.put bufs m w).res = 0 ∧ (h.put bufs m w).handler.sendMsgQueue.length = q + 2 := by
  have hne : ¬ h.sendMsgQueue.isEmpty = true := by
    intro he
    rw [List.isEmpty_iff.mp he] at hq
    cases hq
  unfold EventHandler.put
  rw [if_neg hne, hq]
  by_cases hfull : maxMsgInBuffer ≤ q + 1
  · simp [hfull]
  · simp [hfull, hq]

/-- A refused `put` changes nothing, and everything behind it is refused. -/
theorem EventHandler.put_full {h : EventHandler} {bufs : Bufs} {w : WriteCall} (ht : h.Takes w)
    (hres : (h.put bufs m w).res = -1) :
    maxMsgInBuffer ≤ h.sendMsgQueue.length ∧ (h.put bufs m w).handler = h := by
  by_cases hq : h.sendMsgQueue = []
  · exact absurd hres (put_first bufs m hq (ht hq)).1
  · have hne : ¬ h.sendMsgQueue.isEmpty = true := fun he => hq (List.isEmpty_iff.mp he)
    unfold EventHandler.put at hres ⊢
    rw [if_neg hne] at hres ⊢
    by_cases hfull : h.sendMsgQueue.length ≥ maxMsgInBuffer
    · rw [if_pos hfull]
      exact ⟨hfull, rfl⟩
    · rw [if_neg hfull] at hres
      cases hres

/-- A `put` that does not lose the connection is accepted exactly when the queue is not full. -/
theorem EventHandler.put_nonneg_iff {h : EventHandler} (bufs : Bufs) (m : MbufId) {w : WriteCall} (ht : h.Takes w) :
    0 ≤ (h.put bufs m w).res ↔ h.sendMsgQueue.length < maxMsgInBuffer := by
  by_cases hq : h.sendMsgQueue = []
  · have hres := (nonblkSend_eq bufs h m (ht hq)).1
    have hput : (h.put bufs m w).res = (nonblkSend bufs h m w).res := by
      unfold EventHandler.put
      rw [if_pos (List.isEmpty_iff.mpr hq)]
    rw [hput, hq]
    exact ⟨fun _ => by decide, fun _ => hres⟩
  · obtain ⟨q, hlen⟩ := Nat.exists_eq_succ_of_ne_zero fun h => hq (List.length_eq_zero_iff.mp h)
    have hput := put_behind bufs m w hlen
    by_cases hfull : maxMsgInBuffer ≤ q + 1
    · rw [if_pos hfull] at hput
      rw [hput, hlen]
      omega
    · rw [if_neg hfull] at hput
      rw [hput.1, hlen]
      omega

/-- The fate of a sequence, one `put` at a time. -/
theorem Broker.fate_cons (ms : List MbufId) : b.fate env k (m :: ms) =
    if b.Takes env k then
      if ((b.handlers k).put b.bufs m (env.write k (b.nwrites k))).res = -1 then .full
      else (b.afterPut env k m).fate env k ms
    else .lost := by
  have hqueue : ((b.afterPut env k m).handlers k).sendMsgQueue.length =
      ((b.handlers k).put b.bufs m (env.write k (b.nwrites k))).handler.sendMsgQueue.length := by
    show (Function.update b.handlers k _ k).sendMsgQueue.length = _
    rw [Function.update_self]
  have hwrites : (b.afterPut env k m).nwrites k =
      if (b.handlers k).sendMsgQueue.isEmpty then b.nwrites k + 1 else b.nwrites k := by
    show Function.update b.nwrites k _ k = _
    rw [Function.update_self]
  unfold Broker.fate
  rw [hqueue, hwrites, List.map_cons]
  cases hl : (b.handlers k).sendMsgQueue.length with
  | zero =>
      have hq : (b.handlers k).sendMsgQueue = [] := List.length_eq_zero_iff.mp hl
      rw [MqttServer.fate, if_pos (List.isEmpty_iff.mpr hq)]
      by_cases hw : (env.write k (b.nwrites k)).NonFatal
      · obtain ⟨hres, hlen, hsame⟩ := EventHandler.put_first b.bufs m hq hw
        have ht : b.Takes env k := fun _ => hw
        rw [if_pos hw, if_pos ht, if_neg hres, hlen]
        cases hs : (env.write k (b.nwrites k)).stays (b.bufs m).1.length with
        | false =>
            have hbufs : (b.afterPut env k m).bufs = b.bufs := hsame hs
            rw [hbufs]
        | true =>
            -- the buffer is queued with what is left of it, but nothing is written any more
            exact fate_queued _ _ _ (by simp)
      · have ht : ¬ b.Takes env k := fun h => hw (h hq)
        rw [if_neg hw, if_neg ht]
  | succ q =>
      have hne : ¬ (b.handlers k).sendMsgQueue = [] := by
        intro hq
        rw [hq] at hl
        cases hl
      have hput := EventHandler.put_behind b.bufs m (env.write k (b.nwrites k)) hl
      have ht : b.Takes env k := fun h => absurd h hne
      have hempty : ¬ (b.handlers k).sendMsgQueue.isEmpty = true := fun h => hne (List.isEmpty_iff.mp h)
      rw [MqttServer.fate, if_pos ht, if_neg hempty]
      by_cases hfull : maxMsgInBuffer ≤ q + 1
      · rw [if_pos hfull] at hput ⊢
        rw [if_pos hput]
      · rw [if_neg hfull] at hput ⊢
        rw [if_neg (by rw [hput.1]; decide), hput.2]
        exact fate_queued _ _ _ (by simp)

/-- **The offline loop** on a connection with a context returns, and how it ends is the fate of the queue. -/
theorem sendOffline_fate (env : Env) (ms : List MbufId) : ∀ (r : Int) (b : Broker), b.sess.contextOf k = some c →
    ∃ res b', sendOffline env k r ms b = .ok (res, b') ∧
      match b.fate env k ms with
      | .taken => (b'.sess = b.sess ∧ b'.times = b.times) ∧ (ms = [] → res = r) ∧ (ms ≠ [] → res ≠ -1)
      | .full => (b'.sess = b.sess ∧ b'.times = b.times) ∧ res = -1
      | .lost => (b'.sess = b.sess.close k c ∧ b'.times = b.closedTimes c) ∧ res = -1 := by
  induction ms with
  | nil => exact fun r b _ => ⟨r, b, rfl, ⟨rfl, rfl⟩, fun _ => rfl, fun h => absurd rfl h⟩
  | cons m ms ih =>
      intro r b hc
      rw [Broker.fate_cons]
      unfold sendOffline
      by_cases ht : b.Takes env k
      · rw [if_pos ht, bind_apply, put_takes (Sess.alive_of_contextOf hc) ht]
        by_cases hres : ((b.handlers k).put b.bufs m (env.write k (b.nwrites k))).res = -1
        · simp only [hres, if_true]
          exact ⟨-1, b.afterPut env k m, rfl, ⟨rfl, rfl⟩, rfl⟩
        · simp only [hres, if_false]
          obtain ⟨res, b', hrun, hend⟩ := ih ((b.handlers k).put b.bufs m (env.write k (b.nwrites k))).res
            (b.afterPut env k m) hc
          refine ⟨res, b', hrun, ?_⟩
          cases hf : (b.afterPut env k m).fate env k ms with
          | full =>
              simp only [hf] at hend
              exact hend
          | lost =>
              simp only [hf] at hend
              exact hend
          | taken =>
              simp only [hf] at hend
              refine ⟨hend.1, (fun h => by cases h), fun _ => ?_⟩
              by_cases hms : ms = []
              · rw [hend.2.1 hms]
                exact hres
              · exact hend.2.2 hms
      · rw [if_neg ht, bind_apply, put_loses ht hc]
        exact ⟨-1, _, rfl, ⟨rfl, rfl⟩, rfl⟩

end MqttServer
