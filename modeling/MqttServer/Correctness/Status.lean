import MqttServer.Correctness.Notify
import MqttServer.Http.Publish

/-!
# `Correctness.Status` — what the response of the HTTP server says about the notify queue

`process` answers 200 for a publish request without a missing parameter. A missing parameter is remembered as a text while the
packet is made, numbered and passed on all the same, and nobody looks at what `notify` returns. The code and what was done
agree exactly for requests that are not for `/publish` and for complete ones while the notifier is registered
(`process_status_iff`).
-/

namespace MqttServer

open Lib StrTools

/-- `notify_mqtt_publish(req, error)` with the reactor it notifies: the text of the error. -/
def publishOn (req : HTTPRequest) (dup : Bool) : BrokerM ByteStr := do
  let b ← get
  let p := publishParams req dup
  notifyMqttPublish p.header p.topic p.msg
  match (p.packet ((b.store.lastMsgId + 1) % 2 ^ 64)).encode p.bufLen with
  | none => pure (p.error ++ text "publish msg encode failed")
  | some _ => pure p.error

/-- `process(buf, len)` of a request that was parsed: the code of the response it sends, if it sends one. -/
def processOn (parsed : Parsed) (dup : Bool) : BrokerM (Option Nat) :=
  if parsed.req.path = text "/favicon.ico" then pure none
  else if parsed.res = -1 ∨ parsed.req.path ≠ text "/publish" then pure (some 404)
  else do
    let error ← publishOn parsed.req dup
    pure (some (if error ≠ [] then 400 else 200))

/-- One PUBLISH more is in the notify queue. -/
def QueuedOne (b b' : Broker) : Prop := ∃ m, b'.notifyDeque = b.notifyDeque ++ [m] ∧ (b'.bufs m).1.msgType = .publish ∧
  (Publish.decode.decode (b'.bufs m).unread).isSome

/-- **The status tells the truth**: 200 for one PUBLISH in the queue, anything else for no change at all. -/
structure StatusTrue (code : Option Nat) (b b' : Broker) : Prop where
  appended : code = some 200 ↔ QueuedOne b b'
  refused : code ≠ some 200 → b'.notifyDeque = b.notifyDeque ∧ b'.store = b.store

/-- The three parameters a request must have. -/
def CompleteQuery (req : HTTPRequest) : Prop :=
  (req.queryParam (text "client")).isSome ∧ (req.queryParam (text "topic")).isSome ∧ (req.queryParam (text "msg")).isSome

theorem missed_eq_nil (param : Option ByteStr) {error : String} (h : text error ≠ []) :
    missed param error = [] ↔ param.isSome := by
  cases param with
  | none => exact ⟨fun he => absurd he h, (fun he => by cases he)⟩
  | some value => exact ⟨fun _ => rfl, fun _ => rfl⟩

/-- The text is empty when nothing is missing. -/
theorem publishParams_error (req : HTTPRequest) (dup : Bool) : (publishParams req dup).error = [] ↔ CompleteQuery req := by
  show missed _ "client param missed. " ++ missed _ "topic param missed. " ++ missed _ "msg param missed" = [] ↔ _
  rw [List.append_eq_nil_iff, List.append_eq_nil_iff, missed_eq_nil _ (by decide), missed_eq_nil _ (by decide),
    missed_eq_nil _ (by decide), and_assoc]
  rfl

variable {b b' : Broker}

/-- The broker after a packet was made and passed on; it is queued while the notifier is registered. -/
def Broker.notified (b : Broker) (buf : Buf) (store : MsgMemStore) : Broker :=
  { b with bufs := Function.update b.bufs b.nextBuf buf, nextBuf := b.nextBuf + 1, store
           notifyDeque := if b.notifyOpen then b.notifyDeque ++ [b.nextBuf] else b.notifyDeque }

/-- `next_msg_id()` and `regist_mem_store`: a new buffer, and the next id. -/
theorem registBuf_store (type : MsgType) (size : Nat) (bytes : Nat → ByteStr) : ∃ store,
    registBuf type size bytes b = .ok (b.nextBuf, { b with
      bufs := Function.update b.bufs b.nextBuf
        ((Buf.make size b.now (bytes ((b.store.lastMsgId + 1) % 2 ^ 64))).tag ((b.store.lastMsgId + 1) % 2 ^ 64) type true)
      nextBuf := b.nextBuf + 1, store }) ∧ store.lastMsgId = (b.store.lastMsgId + 1) % 2 ^ 64 :=
  ⟨_, rfl, rfl⟩

/-- **What a packet that can be encoded does to the broker**: an id is taken whatever happens next. -/
theorem notifyMqttPublish_notified {p : PublishParams} {bytes : ByteStr}
    (henc : (p.packet ((b.store.lastMsgId + 1) % 2 ^ 64)).encode p.bufLen = some bytes) :
    ∃ store, notifyMqttPublish p.header p.topic p.msg b =
      .ok ((), b.notified ((Buf.make p.bufLen b.now bytes).tag ((b.store.lastMsgId + 1) % 2 ^ 64) .publish true) store) ∧
      store.lastMsgId = (b.store.lastMsgId + 1) % 2 ^ 64 := by
  obtain ⟨store, hregist, hid⟩ := registBuf_store (b := b) .publish p.bufLen fun _ => bytes
  refine ⟨store, ?_, hid⟩
  unfold PublishParams.packet PublishParams.bufLen at henc
  unfold notifyMqttPublish
  rw [Exec.get_bind]
  simp only [henc]
  rw [Exec.bind_ok]
  refine ⟨_, _, hregist, ?_⟩
  unfold notify Broker.notified
  rw [Exec.modify_apply]
  cases b.notifyOpen with
  | true => rfl
  | false => rfl

theorem not_queuedOne {b b' : Broker} (h : b'.notifyDeque = b.notifyDeque) : ¬ QueuedOne b b' := by
  rintro ⟨m, hm, -⟩
  rw [h] at hm
  exact absurd (List.append_right_eq_self.mp hm.symm) (by simp)

/-- An answer other than 200 without a trace is a true one. -/
theorem StatusTrue.untouched {code : Option Nat} (h : code ≠ some 200) : StatusTrue code b b :=
  ⟨⟨fun hcode => absurd hcode h, fun happ => absurd happ (not_queuedOne rfl)⟩, fun _ => ⟨rfl, rfl⟩⟩

/-- The publish branch on a parsed request. -/
theorem publishOn_eq {s : ByteStr} {p : Parsed} (hs : s.length ≤ httpBufSize) (hp : parseHeaders s = .ok p) (dup : Bool)
    (b : Broker) : ∃ buf store, publishOn p.req dup b = .ok ((publishParams p.req dup).error, b.notified buf store) ∧
      WellFormed buf ∧ store.lastMsgId ≠ b.store.lastMsgId := by
  obtain ⟨bytes, henc, hdec⟩ := publishParams_packet hs hp ((b.store.lastMsgId + 1) % 2 ^ 64) dup
  obtain ⟨store, hrun, hid⟩ := notifyMqttPublish_notified henc
  have hwf := (Made.http s p dup ((b.store.lastMsgId + 1) % 2 ^ 64) b.now bytes hs hp henc).wellFormed
  refine ⟨_, store, ?_, hwf, ?_⟩
  · unfold publishOn
    rw [Exec.get_bind, Exec.bind_ok]
    refine ⟨_, _, hrun, ?_⟩
    rw [henc]
    rfl
  · rw [hid]
    omega

/-- The error is the one the connection sees. -/
theorem publishOn_error {req : HTTPRequest} {dup : Bool} {error : ByteStr} (c : HttpConnection)
    (h : publishOn req dup b = .ok (error, b')) :
    (c.notifyMqttPublish req ((b.store.lastMsgId + 1) % 2 ^ 64) dup).1 = error := by
  unfold publishOn at h
  rw [Exec.get_bind, Exec.bind_ok] at h
  obtain ⟨_, _, -, h⟩ := h
  unfold HttpConnection.notifyMqttPublish
  cases henc : ((publishParams req dup).packet ((b.store.lastMsgId + 1) % 2 ^ 64)).encode (publishParams req dup).bufLen with
  | none =>
      rw [henc] at h
      cases h
      simp only [henc]
  | some bytes =>
      rw [henc] at h
      cases h
      simp only [henc]

/-- **The code is the one the connection sends**, in one response. -/
theorem process_sends {c : HttpConnection} {p : Parsed} {dup : Bool} {code : Option Nat}
    (hp : parseHeaders (cString c.recvBuffer) = .ok p) (h : processOn p dup b = .ok (code, b')) :
    ∃ res c', c.process ((b.store.lastMsgId + 1) % 2 ^ 64) dup = .ok (res, c') ∧
      match code with
      | none => c'.written = c.written
      | some n => c'.response.code = n ∧ c'.written = c.written ++ [responseData c'.response] := by
  unfold processOn at h
  unfold HttpConnection.process
  simp only [hp]
  split at h
  · rename_i hicon
    cases h
    rw [if_pos hicon]
    exact ⟨_, _, rfl, rfl⟩
  · rename_i hicon
    rw [if_neg hicon]
    split at h
    · rename_i hother
      cases h
      rw [if_pos hother]
      exact ⟨_, _, rfl, rfl, rfl⟩
    · rename_i hother
      rw [if_neg hother]
      rw [Exec.bind_ok] at h
      obtain ⟨error, b₁, hrun, h⟩ := h
      cases h
      refine ⟨_, _, rfl, ?_⟩
      unfold HttpConnection.publish
      simp only [publishOn_error _ hrun]
      have hkeep : ∀ c : HttpConnection,
          (c.notifyMqttPublish p.req ((b.store.lastMsgId + 1) % 2 ^ 64) dup).2.written = c.written := by
        intro c
        unfold HttpConnection.notifyMqttPublish
        simp only
        split <;> rfl
      split
      · refine ⟨rfl, ?_⟩
        show (HttpConnection.notifyMqttPublish _ _ _ _).2.written ++ _ = _
        rw [hkeep]
        rfl
      · refine ⟨rfl, ?_⟩
        show (HttpConnection.notifyMqttPublish _ _ _ _).2.written ++ _ = _
        rw [hkeep]
        rfl

/-- **When the status tells the truth**: about requests for anything else, and about complete ones while the notifier is
    registered. -/
theorem process_status_iff {s : ByteStr} {p : Parsed} (hs : s.length ≤ httpBufSize) (hp : parseHeaders s = .ok p)
    (dup : Bool) (b : Broker) : ∃ code b', processOn p dup b = .ok (code, b') ∧
      (StatusTrue code b b' ↔ (p.res = -1 ∨ p.req.path ≠ text "/publish") ∨ CompleteQuery p.req ∧ b.notifyOpen = true) := by
  unfold processOn
  by_cases hicon : p.req.path = text "/favicon.ico"
  · rw [if_pos hicon]
    refine ⟨none, b, rfl, iff_of_true (StatusTrue.untouched (by simp)) (Or.inl (Or.inr ?_))⟩
    rw [hicon]
    decide
  rw [if_neg hicon]
  by_cases hother : p.res = -1 ∨ p.req.path ≠ text "/publish"
  · rw [if_pos hother]
    exact ⟨some 404, b, rfl, iff_of_true (StatusTrue.untouched (by simp)) (Or.inl hother)⟩
  rw [if_neg hother]
  obtain ⟨buf, store, hrun, hwf, hid⟩ := publishOn_eq hs hp dup b
  refine ⟨_, _, Exec.bind_ok.mpr ⟨_, _, hrun, rfl⟩, ?_⟩
  by_cases hcomplete : CompleteQuery p.req
  · rw [if_neg (not_not.mpr ((publishParams_error p.req dup).mpr hcomplete))]
    by_cases hopen : b.notifyOpen = true
    · have hqueue : (b.notified buf store).notifyDeque = b.notifyDeque ++ [b.nextBuf] := if_pos hopen
      have hbuf : (b.notified buf store).bufs b.nextBuf = buf := Function.update_self ..
      have happ : QueuedOne b (b.notified buf store) := by
        refine ⟨b.nextBuf, hqueue, ?_⟩
        rw [hbuf]
        exact hwf
      exact iff_of_true ⟨iff_of_true rfl happ, fun hne => absurd rfl hne⟩ (Or.inr ⟨hcomplete, hopen⟩)
    · -- the packet was dropped
      have hqueue : (b.notified buf store).notifyDeque = b.notifyDeque := if_neg hopen
      refine iff_of_false (fun h => not_queuedOne hqueue (h.appended.mp rfl)) ?_
      rintro (h | h)
      · exact hother h
      · exact hopen h.2
  · rw [if_pos (fun he => hcomplete ((publishParams_error p.req dup).mp he))]
    -- the answer is 400, and the packet was passed on all the same
    refine iff_of_false (fun h => ?_) ?_
    · have hsame := (h.refused (by simp)).2
      exact hid (congrArg MsgMemStore.lastMsgId hsame)
    · rintro (h | h)
      · exact hother h
      · exact hcomplete h.1

/-- A complete request to an empty broker. -/
theorem process_status_complete : ∃ p code b', parseHeaders HttpConnection.getRequest = .ok p ∧
    processOn p false {} = .ok (code, b') ∧ StatusTrue code {} b' := by
  have hrun : (match parseHeaders HttpConnection.getRequest with
    | .ok p => decide ((p.req.queryParam (text "client")).isSome ∧ (p.req.queryParam (text "topic")).isSome ∧
        (p.req.queryParam (text "msg")).isSome)
    | .error _ => false) = true := by decide +kernel
  split at hrun
  · rename_i p hp
    obtain ⟨hclient, htopic, hmsg⟩ := of_decide_eq_true hrun
    obtain ⟨code, b', hprocess, hiff⟩ := process_status_iff (by decide +kernel) hp false {}
    exact ⟨p, code, b', hp, hprocess, hiff.mpr (Or.inr ⟨⟨hclient, htopic, hmsg⟩, rfl⟩)⟩
  · cases hrun

/-- A request without a client. -/
def anonymousRequest : ByteStr := text "GET /publish?topic=b&msg=c HTTP/1.0\r\n\r\n"

/-- It is answered 400, and its message is in the queue. -/
theorem process_status_false : ∃ p code b', parseHeaders anonymousRequest = .ok p ∧
    processOn p false {} = .ok (code, b') ∧ code = some 400 ∧ b'.notifyDeque = [0] ∧ b'.store.lastMsgId = 1 ∧
    ¬ StatusTrue code {} b' := by
  have hrun : (match parseHeaders anonymousRequest with
    | .ok p =>
        match processOn p false {} with
        | .ok (code, b') => decide (code = some 400 ∧ b'.notifyDeque = [0] ∧ b'.store.lastMsgId = 1)
        | .error _ => false
    | .error _ => false) = true := by decide +kernel
  split at hrun
  · rename_i p hp
    split at hrun
    · rename_i code b' hprocess
      obtain ⟨hcode, hqueue, hid⟩ := of_decide_eq_true hrun
      refine ⟨p, code, b', hp, hprocess, hcode, hqueue, hid, fun h => ?_⟩
      have hrefused := (h.refused (by rw [hcode]; decide)).1
      rw [hqueue] at hrefused
      cases hrefused
    · cases hrun
  · cases hrun

end MqttServer
