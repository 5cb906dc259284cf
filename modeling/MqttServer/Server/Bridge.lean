import MqttServer.Server.Connection

/-!
# `Server.Bridge` — the bridge client `TCPClient`

The client of the parent broker, on a thread of its own. `process` is the framing loop of `CMqttConnection` over
again, on a buffer of the same size; a PUBLISH is decoded, copied and passed to the notify queue of the broker,
and acknowledged. Any result `-1` makes the client connect anew, with an empty buffer, and so do six timeouts in a row and
five minutes without a byte. The CONNECT, PINGREQ and DISCONNECT packets that `svc` sends are left out.
-/

namespace MqttServer

open Lib RecvBuffer

/-- What the client has passed to the notify queue, and what it has written in answer to packets of the parent. -/
structure BridgeOut where
  notified : List ByteStr := []
  written : List ByteStr := []

/-- A packet that is written when its encoder succeeds. -/
def BridgeOut.write (o : BridgeOut) (bytes : Option ByteStr) : BridgeOut :=
  { o with written := o.written ++ bytes.toList }

/-- `send_subscribe_msg(msg_id)`, for the topic of the configuration. -/
def sendSubscribeMsg (topic : ByteStr) (msgId : Nat) : Option ByteStr :=
  Subscribe.encodeInto (List.replicate 256 0) { msgType := .subscribe }
    { msgId, subTopics := [{ topicName := topic, qos := 1 }] }

/-- `process_mqtt(buf, len)` for one packet. Nothing here can fault. -/
def TCPClient.processMqtt (topic : ByteStr) : Handler BridgeOut Empty := fun buf =>
  match packetType buf with
  | .connack => do
      modify fun o => o.write (sendSubscribeMsg topic 1)
      pure (0, buf)
  | .publish =>
      match Publish.decode.decode buf with
      | none => pure (-1, buf)
      | some msg => do
          modify fun o => { o with notified := o.notified ++ [buf] }.write (encodePublishAck 16 msg.msgId)
          pure (0, buf)
  | .suback => pure (0, buf)
  | .pingresp => pure (0, buf)
  | _ => pure (-1, buf)

/-- `TCPClient`: the receive buffer, the variables of `svc`, and what went out. `ended` when `svc` has left its loop. -/
structure TCPClient where
  recv : RecvBuffer
  lastMsgTime : UInt32
  sendPingReqTime : Nat := 0
  out : BridgeOut := {}
  ended : Bool := false

/-- What a round of `svc` meets: the clock at its start, what `::read` does, and the clock when bytes have come. A
    `connect()` at the start or at the end of the round may fail. -/
structure BridgeRound where
  curTime : UInt32
  reconnects : Bool := true
  read : ReadOut
  msgTime : UInt32
  connects : Bool := true

namespace TCPClient

/-- `connect()`, as far as the receive buffer goes. `svc` ends when it fails. -/
def connect (c : TCPClient) (succeeds : Bool) : TCPClient :=
  if succeeds then { c with recv := { c.recv with curBufPos := 0 } } else { c with ended := true }

/-- More than five PINGREQ packets without an answer, or no message for more than five minutes. -/
def Overdue (c : TCPClient) (curTime : UInt32) : Prop := 5 < c.sendPingReqTime ∨ 5 * 60 < curTime - c.lastMsgTime

instance (c : TCPClient) (curTime : UInt32) : Decidable (c.Overdue curTime) := inferInstanceAs (Decidable (_ ∨ _))

/-- The start of a round of `svc`. The time of the last message stays as it is. -/
def reconnect (c : TCPClient) (x : BridgeRound) : TCPClient :=
  if c.Overdue x.curTime then { c with sendPingReqTime := 0 }.connect x.reconnects else c

/-- The end of a round of `svc`: `process`, and a new connection when it fails. -/
def receive (c : TCPClient) (topic : ByteStr) (r : Read) (connects : Bool) : TCPClient :=
  let recv := c.recv.receive (r.limit (maxBufSize - c.recv.curBufPos))
  match MqttServer.processMqtt (pure ()) (processMqtt topic) recv c.out with
  | .ok (some recv, out) => { c with recv, out }
  | .ok (none, out) => { c with recv, out }.connect connects
  | .error e => e.1.elim

/-- A round of `svc` after its start. A full buffer ends the loop, and a timeout only sends a PINGREQ. -/
def readMsg (topic : ByteStr) (c : TCPClient) (x : BridgeRound) : TCPClient :=
  if c.ended then c
  else if c.recv.curBufPos ≥ maxBufSize then { c with ended := true }
  else
    match x.read with
    | .bytes r => { c with sendPingReqTime := 0, lastMsgTime := x.msgTime }.receive topic r x.connects
    | .again => { c with sendPingReqTime := c.sendPingReqTime + 1 }
    | .closed => c.connect x.connects

/-- A round of `svc`. -/
def round (topic : ByteStr) (c : TCPClient) (x : BridgeRound) : TCPClient :=
  if c.ended then c else (c.reconnect x).readMsg topic x

/-- `svc()`, over all the connections of the client. -/
def svc (topic : ByteStr) (c : TCPClient) (rounds : List BridgeRound) : TCPClient := rounds.foldl (round topic) c

/-- The client when `svc` comes to its loop. -/
def opened (garbage : Nat → UInt8) (lastMsgTime : UInt32) : TCPClient :=
  { recv := { mem := garbage, curBufPos := 0 }, lastMsgTime }

/-! ## What reaches the notify queue -/

/-- A packet the queue takes: of the size of a buffer, and decodable. -/
def Sound (buf : ByteStr) : Prop := buf.length ≤ maxBufSize ∧ (Publish.decode.decode buf).isSome

variable {topic : ByteStr}

theorem processMqtt_sound {buf : ByteStr} {o o' : BridgeOut} {p : Int × ByteStr} (hlen : buf.length ≤ maxBufSize)
    (ho : ∀ b ∈ o.notified, Sound b) (h : processMqtt topic buf o = .ok (p, o')) :
    ∀ b ∈ o'.notified, Sound b := by
  unfold processMqtt at h
  cases ht : packetType buf with
  | publish =>
      simp only [ht] at h
      cases hd : Publish.decode.decode buf with
      | none =>
          simp only [hd] at h
          cases h
          exact ho
      | some msg =>
          simp only [hd] at h
          cases h
          intro b hb
          rcases List.mem_append.mp hb with hb | hb
          · exact ho b hb
          · rw [List.mem_singleton.mp hb]
            exact ⟨hlen, by rw [hd]; rfl⟩
  | connack =>
      simp only [ht] at h
      cases h
      exact ho
  | _ =>
      simp only [ht] at h
      cases h
      exact ho

/-- The framing loop cuts only what lies inside the buffer. -/
theorem processLoop_sound (fuel : Nat) : ∀ (mem : Nat → UInt8) (len offset : Nat) (o o' : BridgeOut)
    (res : Option RecvBuffer), len ≤ maxBufSize → (∀ b ∈ o.notified, Sound b) →
    processLoop (pure ()) (processMqtt topic) fuel mem len offset o = .ok (res, o') →
    (∀ b ∈ o'.notified, Sound b) ∧ ∀ recv ∈ res, recv.curBufPos ≤ maxBufSize := by
  induction fuel with
  | zero =>
      intro mem len offset o o' res _ ho h
      cases h
      exact ⟨ho, fun _ h => by cases h⟩
  | succ fuel ih =>
      intro mem len offset o o' res hlen ho h
      unfold processLoop at h
      rw [Exec.bind_ok] at h
      obtain ⟨_, o₁, ht, h⟩ := h
      cases ht
      by_cases hoff : offset < len
      · rw [if_pos hoff] at h
        cases hl : remainLength (shift mem offset) (len - offset) with
        | needMoreData =>
            simp only [hl] at h
            split at h
            · cases h
              refine ⟨ho, fun recv hr => ?_⟩
              cases hr
              exact Nat.le_trans (Nat.sub_le _ _) hlen
            · cases h
              refine ⟨ho, fun recv hr => ?_⟩
              cases hr
              exact hlen
        | failture =>
            simp only [hl] at h
            cases h
            exact ⟨ho, fun _ h => by cases h⟩
        | length value bytes =>
            simp only [hl] at h
            rw [Exec.bind_ok] at h
            obtain ⟨p, o₂, hp, h⟩ := h
            have hfit := (remainLength_length hl).2
            have hcut : (slice mem offset (value + bytes + 1)).length ≤ maxBufSize := by
              unfold slice
              rw [List.length_map, List.length_range]
              omega
            have ho₂ := processMqtt_sound hcut ho hp
            split at h
            · cases h
              exact ⟨ho₂, fun _ h => by cases h⟩
            · exact ih _ _ _ _ _ _ hlen ho₂ h
      · rw [if_neg hoff] at h
        cases h
        refine ⟨ho, fun recv hr => ?_⟩
        cases hr
        exact Nat.zero_le _

/-- The buffer is never overrun, and what was passed on is sound. -/
structure SoundSoFar (c : TCPClient) : Prop where
  inBuffer : c.recv.curBufPos ≤ maxBufSize
  notified : ∀ b ∈ c.out.notified, Sound b

variable {c : TCPClient}

theorem SoundSoFar.opened (garbage : Nat → UInt8) (lastMsgTime : UInt32) :
    SoundSoFar (TCPClient.opened garbage lastMsgTime) :=
  ⟨Nat.zero_le _, fun _ h => by cases h⟩

/-- The time of the last message and the number of timeouts make no difference. -/
theorem SoundSoFar.timed (h : SoundSoFar c) (sendPingReqTime : Nat) (lastMsgTime : UInt32) :
    SoundSoFar { c with sendPingReqTime, lastMsgTime } :=
  ⟨h.inBuffer, h.notified⟩

theorem SoundSoFar.connect (h : SoundSoFar c) (succeeds : Bool) : SoundSoFar (c.connect succeeds) := by
  unfold TCPClient.connect
  split
  · exact ⟨Nat.zero_le _, h.notified⟩
  · exact ⟨h.inBuffer, h.notified⟩

theorem SoundSoFar.receive (h : SoundSoFar c) (topic : ByteStr) (r : Read) (connects : Bool) :
    SoundSoFar (c.receive topic r connects) := by
  have hlen : (c.recv.receive (r.limit (maxBufSize - c.recv.curBufPos))).curBufPos ≤ maxBufSize := by
    show c.recv.curBufPos + (r.data.take (maxBufSize - c.recv.curBufPos)).length ≤ maxBufSize
    have := h.inBuffer
    rw [List.length_take]
    omega
  unfold TCPClient.receive
  simp only
  split
  · rename_i recv out hp
    obtain ⟨hout, hrecv⟩ := processLoop_sound _ _ _ _ _ _ _ hlen h.notified hp
    exact ⟨hrecv recv rfl, hout⟩
  · rename_i out hp
    have hout := (processLoop_sound _ _ _ _ _ _ _ hlen h.notified hp).1
    exact SoundSoFar.connect ⟨hlen, hout⟩ connects
  · rename_i e _
    exact e.1.elim

theorem SoundSoFar.round (h : SoundSoFar c) (topic : ByteStr) (x : BridgeRound) : SoundSoFar (round topic c x) := by
  have hstart : SoundSoFar (c.reconnect x) := by
    unfold reconnect
    split
    · exact (h.timed _ _).connect _
    · exact h
  unfold TCPClient.round readMsg
  split
  · exact h
  · split
    · exact hstart
    · split
      · exact ⟨hstart.inBuffer, hstart.notified⟩
      · cases x.read with
        | bytes r => exact (hstart.timed _ _).receive topic r _
        | again => exact hstart.timed _ _
        | closed => exact hstart.connect _

/-- **Everything the client passes on can be decoded.** -/
theorem svc_sound (topic : ByteStr) (rounds : List BridgeRound) : ∀ c : TCPClient, SoundSoFar c →
    ∀ b ∈ (svc topic c rounds).out.notified, Sound b := by
  induction rounds with
  | nil => exact fun _ h => h.notified
  | cons x rounds ih => exact fun c h => ih (round topic c x) (h.round topic x)

end TCPClient
end MqttServer
