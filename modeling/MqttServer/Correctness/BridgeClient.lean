import MqttServer.Codec.Wire
import MqttServer.Correctness.Identifiers
import MqttServer.Lib.Parts

/-!
# `Correctness.BridgeClient` — the bridge client as the other end of a connection

The parent broker sends the bridge client a stream of packets, which `::read` cuts anywhere. The client acknowledges every
PUBLISH it passes on, with its own identifier and in this order, whatever the stream is (`svc_answers`). When the stream is
made of packets that the client knows, and no cut falls into a fixed header, the client passes on just the PUBLISH packets of
the stream, in order and each one once, as long as it keeps its connection (`bridge_passes_on`). A cut in a header is
different: `remain_length` then looks at what the buffer held before. So is a new connection, after six timeouts in a row or
five minutes: it throws away what the buffer holds of a packet.
-/

namespace MqttServer

open Lib Exec RecvBuffer

/-- The identifier a PUBACK acknowledges. -/
def pubackId (pkt : ByteStr) : Option Nat := if packetType pkt = .puback then decodePublishAck.decode pkt else none

/-- The identifier of a PUBLISH. -/
def publishId (pkt : ByteStr) : Option Nat := (Publish.decode.decode pkt).map Publish.msgId

/-- The packet is a PUBLISH. -/
def isPublish (pkt : ByteStr) : Bool := packetType pkt = .publish

namespace TCPClient

variable {topic : ByteStr}

/-! ## Whatever the stream is -/

theorem connect_out (c : TCPClient) (succeeds : Bool) : (c.connect succeeds).out = c.out := by
  unfold connect
  split <;> rfl

theorem reconnect_out (c : TCPClient) (x : BridgeRound) : (c.reconnect x).out = c.out := by
  unfold reconnect
  split
  · exact connect_out _ _
  · rfl

/-- **The invariant rule of the client.** What each packet keeps, all the connections keep. -/
theorem svc_keeps {I : BridgeOut → Prop}
    (hstep : ∀ buf o p o', I o → processMqtt topic buf o = .ok (p, o') → I o') (rounds : List BridgeRound) :
    ∀ c : TCPClient, I c.out → I (svc topic c rounds).out := by
  have hreceive : ∀ (c : TCPClient) (r : Read) (connects : Bool), I c.out → I (c.receive topic r connects).out := by
    intro c r connects hI
    have hloop : ∀ recv res o, MqttServer.processMqtt (pure ()) (processMqtt topic) recv c.out = .ok (res, o) → I o := by
      intro recv res o h
      refine (processLoop_keeps (I := I) (fun o o' ho ht => ?_) _ _ _ _ _ hI fun pkt o _ ho p o' hp => ?_).1 res o h
      · cases ht
        exact ho
      · exact hstep pkt o p o' ho hp
    unfold receive
    simp only
    split
    · rename_i h
      exact hloop _ _ _ h
    · rename_i h
      rw [connect_out]
      exact hloop _ _ _ h
    · rename_i e _
      exact e.1.elim
  induction rounds with
  | nil => exact fun _ hI => hI
  | cons x rounds ih =>
      intro c hI
      apply ih
      have hstart : I (c.reconnect x).out := reconnect_out c x ▸ hI
      unfold round readMsg
      split
      · exact hI
      · split
        · exact hstart
        · split
          · exact hstart
          · cases x.read with
            | bytes r => exact hreceive _ r _ hstart
            | again => exact hstart
            | closed =>
                rw [connect_out]
                exact hstart

/-- What the client has passed on it has acknowledged, in the same order, and it has passed on PUBLISH packets only. -/
structure Answers (o : BridgeOut) : Prop where
  acks : o.written.filterMap pubackId = o.notified.filterMap publishId
  publishes : ∀ pkt ∈ o.notified, isPublish pkt ∧ (Publish.decode.decode pkt).isSome

theorem decodePublishAck_eq (pkt : ByteStr) :
    decodePublishAck.decode pkt = (PublishAck.decodeFull.decode pkt).map Prod.snd := by
  unfold PktM.decode decodePublishAck
  cases hrun : PublishAck.decodeFull (Pkt.ofBuf pkt) with
  | mk res p =>
      cases res with
      | none => exact PktM.bind_fst_none (by rw [hrun])
      | some x => rw [PktM.bind_some hrun]; rfl

theorem pubackId_encode {msgId : Nat} (h : msgId < 65536) :
    ∃ pkt, encodePublishAck 16 msgId = some pkt ∧ pubackId pkt = some msgId := by
  refine ⟨wirePacket { msgType := .puback } (short msgId), PublishAck.encodeInto_eq { msgType := .puback } msgId (by decide), ?_⟩
  have hdecode := PublishAck.decode_wire (h := { msgType := .puback }) rfl (by decide) h
  have htype : packetType (wirePacket { msgType := .puback } (short msgId)) = .puback := by
    show MqttType.ofNibble ((FixedHeader.encode { msgType := .puback }).toNat / 16) = .puback
    decide
  unfold pubackId
  rw [if_pos htype, decodePublishAck_eq, hdecode]
  rfl

theorem writeTopics_adds (topics : List Topic) (p : Pkt) : p.Adds (writeTopics p topics) := by
  unfold writeTopics
  induction topics generalizing p with
  | nil => exact Pkt.Adds.refl p
  | cons t ts ih => exact ((Pkt.writeString_adds p _).trans (Pkt.writeByte_adds _ _)).trans (ih _)

/-- A SUBSCRIBE is no acknowledgement. -/
theorem pubackId_subscribe {pkt : ByteStr} {msgId : Nat} (h : sendSubscribeMsg topic msgId = some pkt) : pubackId pkt = none := by
  have hhead : ∀ (n len : Nat) (ts : List Topic),
      (writeTopics (((encodeHeader 256 { msgType := .subscribe }).writeRemainLength n).writeShort msgId) ts).finish len = some pkt →
        pkt.getD 0 0 = FixedHeader.encode { msgType := .subscribe } := by
    intro n len ts hf
    exact head_of_finish 256 n len (by decide) ((Pkt.writeShort_adds _ _).trans (writeTopics_adds ts _)) hf
  unfold sendSubscribeMsg Subscribe.encodeInto at h
  rw [if_neg (List.cons_ne_nil _ _)] at h
  unfold pubackId packetType
  rw [hhead _ _ _ h]
  exact if_neg (by decide)

theorem Answers.step {buf : ByteStr} {o o' : BridgeOut} {p : Int × ByteStr} (h : Answers o)
    (hp : processMqtt topic buf o = .ok (p, o')) : Answers o' := by
  unfold processMqtt at hp
  cases ht : packetType buf with
  | connack =>
      simp only [ht] at hp
      cases hp
      refine ⟨?_, h.publishes⟩
      show (o.written ++ (sendSubscribeMsg topic 1).toList).filterMap pubackId = _
      cases hs : sendSubscribeMsg topic 1 with
      | none =>
          rw [Option.toList_none, List.append_nil]
          exact h.acks
      | some pkt =>
          rw [Option.toList_some, List.filterMap_append, List.filterMap_cons_none (pubackId_subscribe hs)]
          exact (List.append_nil _).trans h.acks
  | publish =>
      simp only [ht] at hp
      cases hd : Publish.decode.decode buf with
      | none =>
          simp only [hd] at hp
          cases hp
          exact h
      | some msg =>
          simp only [hd] at hp
          cases hp
          obtain ⟨pkt, hencode, hid⟩ := pubackId_encode (Publish.msgId_lt hd)
          refine ⟨?_, fun b hb => ?_⟩
          · show (o.written ++ (encodePublishAck 16 msg.msgId).toList).filterMap pubackId = (o.notified ++ [buf]).filterMap publishId
            have hpub : publishId buf = some msg.msgId := by simp [publishId, hd]
            rw [List.filterMap_append, List.filterMap_append, h.acks, hencode]
            simp [hid, hpub]
          · rcases List.mem_append.mp hb with hb | hb
            · exact h.publishes b hb
            · rw [List.mem_singleton.mp hb]
              exact ⟨by simp [isPublish, ht], by simp [hd]⟩
  | _ =>
      simp only [ht] at hp
      cases hp
      exact h

/-- **Every message that is passed on is acknowledged**, in the same order, over all the connections of the client. -/
theorem svc_answers (garbage : Nat → UInt8) (start : UInt32) (rounds : List BridgeRound) :
    Answers (svc topic (opened garbage start) rounds).out := by
  apply svc_keeps (I := Answers)
  · exact fun buf o p o' h hp => h.step hp
  · exact ⟨rfl, fun _ h => by cases h⟩

/-! ## A stream of packets -/

/-- The last length digit of the header is there. -/
def HasHeader (tail : ByteStr) : Prop := ∃ i, 1 ≤ i ∧ i ≤ 4 ∧ i < tail.length ∧ (tail.getD i 0).toNat < 128

theorem le_of_failture {mem : Nat → UInt8} {len : Nat} (h : remainLength mem len = .failture) :
    ∀ i, 1 ≤ i → i ≤ 4 → 128 ≤ (mem i).toNat := by
  intro i hone hfour
  rw [remainLength_eq] at h
  split_ifs at h with h₁ h₂ h₃ h₄
  interval_cases i <;> omega

/-- **The front of a packet with its header** is known to be too short, whatever lies behind it. -/
theorem HasHeader.needMoreData {pkt tail : ByteStr} {mem : Nat → UInt8} (hh : HasHeader tail) (hc : Complete pkt)
    (hle : tail <+: pkt) (hlt : tail.length < pkt.length) (hmem : ∀ i < tail.length, mem i = tail.getD i 0) :
    remainLength mem tail.length = .needMoreData := by
  obtain ⟨rest, rfl⟩ := hle
  cases hr : remainLength mem tail.length with
  | needMoreData => rfl
  | failture =>
      obtain ⟨i, hone, hfour, hin, hlow⟩ := hh
      have hhigh := le_of_failture hr i hone hfour
      rw [hmem i hin] at hhigh
      omega
  | length value bytes =>
      have hsame : ∀ i < tail.length, (tail ++ rest).getD i 0 = mem i := by
        intro i hi
        rw [hmem i hi, List.getD_append _ _ _ _ hi]
      have hfound : remainLength (fun i => (tail ++ rest).getD i 0) (tail ++ rest).length = .length value bytes :=
        remainLength_agree_length hr hsame (Nat.le_of_lt hlt)
      obtain ⟨value', bytes', hr', hlen, -⟩ := hc (fun i => (tail ++ rest).getD i 0) fun _ _ => rfl
      rw [hfound] at hr'
      cases hr'
      have hshort := (remainLength_length hr).2
      omega

/-- A packet is complete when `remain_length` finds it all in its own bytes. -/
theorem complete_of_found {pkt : ByteStr} {value bytes : Nat}
    (h : remainLength (streamMem pkt) pkt.length = .length value bytes) (hlen : pkt.length = value + bytes + 1) : Complete pkt := by
  intro mem hmem
  have hone := (remainLength_length h).1
  exact ⟨value, bytes, remainLength_agree_length h (fun i hi => hmem i hi) (Nat.le_refl _), by omega, by omega⟩

/-! ## The client on a stream -/

/-- A packet that the client knows, of a size that it can receive. -/
structure Known (topic pkt : ByteStr) : Prop where
  complete : Complete pkt
  fits : pkt.length ≤ maxBufSize
  succeeds : Succeeds topic pkt

/-- What the client is after `n` bytes of the packets. -/
structure Passing (pkts : List ByteStr) (n : Nat) (c : TCPClient) : Prop where
  running : c.ended = false
  pending : c.recv.pending = begun pkts n
  notified : c.out.notified = (whole pkts n).filter isPublish

/-- A cut that does not fall into a fixed header. -/
def CleanCut (pkts : List ByteStr) (n : Nat) : Prop := begun pkts n = [] ∨ HasHeader (begun pkts n)

variable {pkts : List ByteStr} {n : Nat} {c : TCPClient}

theorem Passing.curBufPos_eq (h : Passing pkts n c) : c.recv.curBufPos = (begun pkts n).length := by
  rw [← h.pending]
  exact (slice_length _ _ _).symm

/-- There is room for more. -/
theorem Passing.room (h : Passing pkts n c) (hknown : ∀ pkt ∈ pkts, Known topic pkt) : c.recv.curBufPos < maxBufSize := by
  rw [h.curBufPos_eq]
  by_cases hnone : begun pkts n = []
  · rw [hnone]
    decide
  · obtain ⟨pkt, hin, -, hlt⟩ := begun_lt hnone
    exact Nat.lt_of_lt_of_le hlt (hknown pkt hin).fits

/-- What a packet adds to what was passed on. -/
theorem processMqtt_notifies {pkt : ByteStr} {o o' : BridgeOut} {r : Int × ByteStr}
    (hrun : processMqtt topic pkt o = .ok (r, o')) :
    o'.notified = o.notified ++ [pkt].filter fun b => isPublish b && (Publish.decode.decode b).isSome := by
  unfold processMqtt at hrun
  cases ht : packetType pkt with
  | publish =>
      simp only [ht] at hrun
      cases hd : Publish.decode.decode pkt with
      | none =>
          simp only [hd] at hrun
          cases hrun
          simp [hd]
      | some msg =>
          simp only [hd] at hrun
          cases hrun
          simp [isPublish, ht, hd, BridgeOut.write]
  | connack =>
      simp only [ht] at hrun
      cases hrun
      simp [isPublish, ht, BridgeOut.write]
  | _ =>
      simp only [ht] at hrun
      cases hrun
      simp [isPublish, ht]

/-- A PUBLISH that the client accepts can be decoded. -/
theorem Known.decodes {pkt : ByteStr} (h : Known topic pkt) (hpub : isPublish pkt) : (Publish.decode.decode pkt).isSome := by
  have ht : packetType pkt = .publish := of_decide_eq_true hpub
  cases hd : Publish.decode.decode pkt with
  | some msg => rfl
  | none =>
      have hrun : processMqtt topic pkt {} = .ok ((-1, pkt), {}) := by
        unfold processMqtt
        simp only [ht, hd]
        rfl
      have hres : (0 : Int) ≤ -1 := h.succeeds _ _ _ hrun
      omega

/-- A read whose bytes are known packets and an undecided tail. -/
theorem receive_of_cut {r : Read} {qs : List ByteStr} {tail : ByteStr} (c : TCPClient) (connects : Bool)
    (hfit : r.data.length ≤ maxBufSize - c.recv.curBufPos) (hbytes : (c.recv.receive r).pending = qs.flatten ++ tail)
    (hqs : ∀ pkt ∈ qs, Known topic pkt)
    (hneed : tail ≠ [] →
      remainLength (shift (c.recv.receive r).mem ((c.recv.receive r).curBufPos - tail.length)) tail.length = .needMoreData) :
    (c.receive topic r connects).ended = c.ended ∧ (c.receive topic r connects).recv.pending = tail ∧
      (c.receive topic r connects).out.notified = c.out.notified ++ qs.filter isPublish := by
  have hlimit : r.limit (maxBufSize - c.recv.curBufPos) = r := by
    show { r with data := r.data.take _ } = r
    rw [List.take_of_length_le hfit]
  obtain ⟨recv, out, hrun, hpend⟩ := processLoop_of_cut qs ((c.recv.receive r).curBufPos + 1) (c.recv.receive r).mem 0
    (c.out, []) (Nat.zero_le _) (Nat.lt_succ_self _) hbytes (fun pkt hin => (hqs pkt hin).complete) hneed
    (fun pkt hin out => (hqs pkt hin).succeeds.run out)
  change processLoop _ _ _ _ (c.recv.receive r).curBufPos 0 _ = .ok (some recv, (out, qs)) at hrun
  -- the run without the record
  have hplain : MqttServer.processMqtt (pure ()) (processMqtt topic) (c.recv.receive r) c.out = .ok (some recv, out) := by
    unfold MqttServer.processMqtt
    rw [← forget_processLoop _ _ _ _ (c.out, []), hrun]
    rfl
  -- what it passes on goes with the record
  have hpassed : out.notified = c.out.notified ++ qs.filter fun b => isPublish b && (Publish.decode.decode b).isSome := by
    refine (processLoop_keeps (I := fun p : BridgeOut × List ByteStr => p.1.notified = c.out.notified ++
      p.2.filter fun b => isPublish b && (Publish.decode.decode b).isSome) ?_ _ _ _ _ _ ?_ ?_).1 _ _ hrun
    · intro p p' hp ht
      cases ht
      exact hp
    · exact (List.append_nil _).symm
    · intro pkt p _ hp x p' hx
      obtain ⟨hx, hrec⟩ := recording_ok.mp hx
      rw [processMqtt_notifies hx, hp, hrec, List.filter_append, List.append_assoc]
  have hsame : qs.filter (fun b => isPublish b && (Publish.decode.decode b).isSome) = qs.filter isPublish := by
    apply List.filter_congr
    intro pkt hin
    by_cases hpub : isPublish pkt
    · rw [hpub, (hqs pkt hin).decodes hpub]
      rfl
    · simp [hpub]
  unfold receive
  simp only [hlimit, hplain]
  exact ⟨trivial, hpend, by rw [hpassed, hsame]⟩

/-- A round of a client that is not due to connect anew. -/
theorem Passing.round_eq (h : Passing pkts n c) (hknown : ∀ pkt ∈ pkts, Known topic pkt) {x : BridgeRound}
    (hkeeps : ¬ c.Overdue x.curTime) : round topic c x = match x.read with
      | .bytes r => { c with sendPingReqTime := 0, lastMsgTime := x.msgTime }.receive topic r x.connects
      | .again => { c with sendPingReqTime := c.sendPingReqTime + 1 }
      | .closed => c.connect x.connects := by
  have hended : ¬ c.ended = true := by
    rw [h.running]
    exact Bool.false_ne_true
  unfold round reconnect readMsg
  rw [if_neg hended, if_neg hkeeps, if_neg hended]
  exact if_neg (Nat.not_le.mpr (h.room hknown))

/-- **One read** of the stream. -/
theorem Passing.read {r : Read} {x : BridgeRound} (h : Passing pkts n c) (hknown : ∀ pkt ∈ pkts, Known topic pkt)
    (hkeeps : ¬ c.Overdue x.curTime) (hread : x.read = .bytes r)
    (hfit : r.data.length ≤ maxBufSize - c.recv.curBufPos) (hdata : r.data = (pkts.flatten.drop n).take r.data.length)
    (hcut : CleanCut pkts (n + r.data.length)) : Passing pkts (n + r.data.length) (round topic c x) := by
  obtain ⟨qs, hwhole, hbytes⟩ := between pkts (Nat.le_add_right n r.data.length)
  rw [Nat.add_sub_cancel_left, ← hdata, ← h.pending, ← receive_pending (Nat.le_of_lt (h.room hknown))] at hbytes
  have hqs : ∀ pkt ∈ qs, Known topic pkt := by
    intro pkt hin
    apply hknown pkt
    apply whole_subset (n + r.data.length) pkt
    rw [hwhole]
    exact List.mem_append_right _ hin
  have hneed : begun pkts (n + r.data.length) ≠ [] →
      remainLength (shift (c.recv.receive r).mem ((c.recv.receive r).curBufPos - (begun pkts (n + r.data.length)).length))
        (begun pkts (n + r.data.length)).length = .needMoreData := by
    intro hsome
    obtain ⟨pkt, hin, hle, hlt⟩ := begun_lt hsome
    -- the tail stands at the end of the buffer
    have hlen := congrArg List.length hbytes
    rw [RecvBuffer.pending, slice_length, List.length_append] at hlen
    have hoff : (c.recv.receive r).curBufPos - (begun pkts (n + r.data.length)).length = qs.flatten.length := by omega
    refine (hcut.resolve_left hsome).needMoreData (hknown pkt hin).complete hle hlt fun i hi => ?_
    have hget := slice_getD (c.recv.receive r).mem 0 (c.recv.receive r).curBufPos (qs.flatten.length + i) (by omega)
    change (c.recv.receive r).pending.getD _ 0 = _ at hget
    rw [hbytes, List.getD_append_right _ _ _ _ (Nat.le_add_right _ _), Nat.add_sub_cancel_left, Nat.zero_add] at hget
    rw [hoff, hget]
    rfl
  obtain ⟨hended, hpend, hnote⟩ := receive_of_cut { c with sendPingReqTime := 0, lastMsgTime := x.msgTime } x.connects
    hfit hbytes hqs hneed
  rw [h.round_eq hknown hkeeps, hread]
  refine ⟨hended.trans h.running, hpend, ?_⟩
  rw [hnote, h.notified, hwhole, List.filter_append]

/-- The bytes that arrived. -/
def arrived (rounds : List BridgeRound) : ByteStr :=
  rounds.flatMap fun x => match x.read with
    | .bytes r => r.data
    | _ => []

/-- The client is not due to connect anew, the parent does not close, and a read returns no more than the client has asked
    for. -/
def Stays (c : TCPClient) (x : BridgeRound) : Prop :=
  ¬ c.Overdue x.curTime ∧
    match x.read with
    | .bytes r => r.data.length ≤ maxBufSize - c.recv.curBufPos
    | .again => True
    | .closed => False

/-- **All the reads** of the stream. -/
theorem Passing.svc (hknown : ∀ pkt ∈ pkts, Known topic pkt) (rounds : List BridgeRound) : ∀ {n : Nat} {c : TCPClient},
    Passing pkts n c → Lib.Along (round topic) Stays c rounds → arrived rounds <+: pkts.flatten.drop n →
    (∀ m, CleanCut pkts (n + (arrived (rounds.take m)).length)) →
    Passing pkts (n + (arrived rounds).length) (svc topic c rounds) := by
  induction rounds with
  | nil => exact fun h _ _ _ => h
  | cons x rounds ih =>
      intro n c h hstay harr hcut
      obtain ⟨⟨hkeeps, hout⟩, hstay⟩ := hstay
      have hrest : ∀ m, CleanCut pkts (n + (arrived (x :: rounds.take m)).length) := fun m => hcut (m + 1)
      have hcons : ∀ xs, arrived (x :: xs) = (match x.read with | .bytes r => r.data | _ => []) ++ arrived xs := fun _ => rfl
      show Passing pkts (n + (arrived (x :: rounds)).length) (TCPClient.svc topic (round topic c x) rounds)
      cases hread : x.read with
      | closed =>
          rw [hread] at hout
          exact hout.elim
      | again =>
          simp only [hcons, hread, List.nil_append] at harr hrest ⊢
          refine ih ?_ hstay harr hrest
          rw [h.round_eq hknown hkeeps, hread]
          exact ⟨h.running, h.pending, h.notified⟩
      | bytes r =>
          simp only [hcons, hread] at harr hrest hout ⊢
          obtain ⟨rest, hrest'⟩ := harr
          have hdata : r.data = (pkts.flatten.drop n).take r.data.length := by
            rw [← hrest', List.append_assoc, List.take_left]
          have hnext := h.read hknown hkeeps hread hout hdata (by
            have hfirst := hrest 0
            rwa [List.take_zero, arrived, List.flatMap_nil, List.append_nil] at hfirst)
          have hmore := ih hnext hstay ⟨rest, by
            rw [← List.drop_drop, ← hrest', List.append_assoc, List.drop_left]⟩ (by
            intro m
            have hm := hrest m
            rwa [List.length_append, ← Nat.add_assoc] at hm)
          rw [List.length_append, ← Nat.add_assoc]
          exact hmore

theorem known_publish : Known [116] (publishPacket 116 1) ∧ Known [116] (publishPacket 116 2) := by
  constructor
  · refine ⟨complete_of_found (by rfl) (by rfl), by decide, ?_⟩
    intro out r out' h
    cases h
    decide
  · refine ⟨complete_of_found (by rfl) (by rfl), by decide, ?_⟩
    intro out r out' h
    cases h
    decide

/-- Two messages, in two reads with a timeout between them: the second one brings the rest of the second packet. -/
def twoReads : List BridgeRound :=
  [{ curTime := 100, msgTime := 101
     read := .bytes { data := publishPacket 116 1 ++ (publishPacket 116 2).take 3, behind := fun _ => 0 } },
    { curTime := 101, msgTime := 111, read := .again },
    { curTime := 111, msgTime := 112, read := .bytes { data := (publishPacket 116 2).drop 3, behind := fun _ => 0 } }]

end TCPClient
end MqttServer
