import MqttServer.Codec.Cursor
import MqttServer.Codec.Mismatch
import MqttServer.Correctness.Framing
import MqttServer.Correctness.Forward

/-!
# `Correctness.PublishId` — the packet identifier in a PUBLISH

What `CMqttPublish::decode` reads before the identifier depends only on the bytes before it. So a packet whose identifier is
rewritten in place, or whose retain bit is set, decodes to the same message with the other identifier or header: the
message in a buffer carries the identifier the broker has given to the buffer (`Carries`).
-/

namespace MqttServer

open Lib Exec

variable {buf buf' : ByteStr} {msg : Publish}

/-! ## What the decoder depends on -/

/-- The two bytes at an index as a number. -/
def shortAt (buf : ByteStr) (i : Nat) : Nat := (buf.getD i 0).toNat * 256 + (buf.getD (i + 1) 0).toNat

theorem shortAt_lt (buf : ByteStr) (i : Nat) : shortAt buf i < 65536 := by
  have hhigh := (buf.getD i 0).toNat_lt
  have hlow := (buf.getD (i + 1) 0).toNat_lt
  unfold shortAt
  omega

theorem readShort_at {offset : Nat} (h : offset + 2 ≤ buf.length) :
    PktM.readShort { buf, offset } = (some (shortAt buf offset), { buf, offset := offset + 2 }) := by
  unfold PktM.readShort
  rw [if_neg]
  · rfl
  · show ¬ ((buf.length : Int) - offset < 2)
    omega

theorem le_of_readShort {offset n : Nat} (h : (PktM.readShort { buf, offset }).1 = some n) :
    offset + 2 ≤ buf.length ∧ n = shortAt buf offset := by
  by_cases hle : offset + 2 ≤ buf.length
  · rw [readShort_at hle] at h
    exact ⟨hle, (Option.some.inj h).symm⟩
  · unfold PktM.readShort at h
    rw [if_pos] at h
    · cases h
    · show (buf.length : Int) - offset < 2
      omega

/-- The string at an index, behind its length. -/
def stringAt (buf : ByteStr) (i : Nat) : ByteStr := (buf.drop (i + 2)).take (shortAt buf i)

theorem readString_at {offset : Nat} (h : offset + 2 + shortAt buf offset ≤ buf.length) :
    PktM.readString { buf, offset } = (some (stringAt buf offset), { buf, offset := offset + 2 + shortAt buf offset }) := by
  refine (PktM.bind_some (x := PktM.readShort) (readShort_at (by omega))).trans ?_
  show (if (buf.length : Int) - (offset + 2 : Nat) < shortAt buf offset then _ else _) = _
  rw [if_neg (by omega)]
  rfl

theorem le_of_readString {offset : Nat} {str : ByteStr} (h : (PktM.readString { buf, offset }).1 = some str) :
    offset + 2 + shortAt buf offset ≤ buf.length ∧ str = stringAt buf offset := by
  obtain ⟨n, hn, -⟩ := PktM.bind_inv h
  obtain ⟨htwo, -⟩ := le_of_readShort hn
  by_cases hle : offset + 2 + shortAt buf offset ≤ buf.length
  · rw [readString_at hle] at h
    exact ⟨hle, (Option.some.inj h).symm⟩
  · have hlt : (buf.length : Int) - (offset + 2 : Nat) < shortAt buf offset := by omega
    have hrun : PktM.readString { buf, offset } = (none, { buf, offset := offset + 2 }) := by
      refine (PktM.bind_some (x := PktM.readShort) (readShort_at htwo)).trans ?_
      exact if_pos hlt
    rw [hrun] at h
    cases h

theorem readRest_at {offset : Nat} (h : offset ≤ buf.length) :
    PktM.readRest { buf, offset } = (some (buf.drop offset), { buf, offset := buf.length }) := by
  have hleft : ({ buf, offset } : Pkt).leftSize = ((buf.length - offset : Nat) : Int) := by
    show (buf.length : Int) - offset = _
    omega
  unfold PktM.readRest
  rw [if_neg (by omega), hleft, Int.toNat_natCast]
  have hall : (buf.drop offset).take (buf.length - offset) = buf.drop offset := by
    rw [List.take_of_length_le]
    rw [List.length_drop]
  have hend : offset + (buf.length - offset) = buf.length := by omega
  show (some ((buf.drop offset).take (buf.length - offset)), ({ buf, offset := offset + (buf.length - offset) } : Pkt)) = _
  rw [hall, hend]

/-- The length digits end with the byte at index `bytes`. -/
theorem remainLength_agree_digits {mem mem' : Nat → UInt8} {len value bytes : Nat}
    (h : remainLength mem len = .length value bytes) (hag : ∀ i, 1 ≤ i → i ≤ bytes → mem' i = mem i) :
    remainLength mem' len = .length value bytes := by
  rw [remainLength_eq] at h ⊢
  split_ifs at h <;> simp only [RemainLength.length.injEq] at h
  · have := hag 1 (by omega) (by omega)
    grind
  · have := hag 1 (by omega) (by omega)
    have := hag 2 (by omega) (by omega)
    grind
  · have := hag 1 (by omega) (by omega)
    have := hag 2 (by omega) (by omega)
    have := hag 3 (by omega) (by omega)
    grind
  · have := hag 1 (by omega) (by omega)
    have := hag 2 (by omega) (by omega)
    have := hag 3 (by omega) (by omega)
    have := hag 4 (by omega) (by omega)
    grind

theorem decodeHeader_at {value bytes : Nat} (hlen : 3 ≤ buf.length)
    (hr : remainLength (fun i => buf.getD i 0) buf.length = .length value bytes) :
    decodeHeader (Pkt.ofBuf buf) = (some (FixedHeader.decode (buf.getD 0 0)), { buf, offset := 1 + bytes }) := by
  have hbyte : PktM.readByte (Pkt.ofBuf buf) = (some (buf.getD 0 0), { buf, offset := 1 }) := by
    unfold PktM.readByte
    rw [if_neg]
    · rfl
    · show ¬ ((buf.length : Int) - (0 : Nat) < 1)
      omega
  have hlength : PktM.readRemainLength { buf, offset := 1 } = (some (value, bytes), { buf, offset := 1 + bytes }) := by
    have hr' : remainLength (Pkt.byteAt { buf, offset := 1 }) buf.length = .length value bytes := hr
    unfold PktM.readRemainLength
    rw [if_neg]
    · simp only [hr']
      rfl
    · show ¬ ((buf.length : Int) - (1 : Nat) < 2)
      omega
  unfold decodeHeader
  rw [PktM.bind_some hbyte, PktM.bind_some hlength]
  rfl

/-- The header is read when there is one. -/
theorem exists_of_decodeHeader {header : FixedHeader} (h : (decodeHeader (Pkt.ofBuf buf)).1 = some header) :
    3 ≤ buf.length ∧ ∃ value bytes, remainLength (fun i => buf.getD i 0) buf.length = .length value bytes := by
  obtain ⟨x, hx, h⟩ := PktM.bind_inv h
  obtain ⟨p, hp, -⟩ := PktM.bind_inv h
  unfold PktM.readByte at hx hp
  split at hx
  · cases hx
  · rename_i hone
    rw [if_neg hone] at hp
    unfold PktM.readRemainLength at hp
    split at hp
    · cases hp
    · rename_i htwo
      have htwo' : ¬ ((buf.length : Int) - (0 + 1 : Nat) < 2) := htwo
      refine ⟨by omega, ?_⟩
      split at hp
      · rename_i value bytes hr
        exact ⟨value, bytes, hr⟩
      · cases hp

/-- What a packet of these length digits is decoded to. -/
def Publish.at (buf : ByteStr) (bytes : Nat) : Publish :=
  let msgIdOffset := 1 + bytes + 2 + shortAt buf (1 + bytes)
  { header := FixedHeader.decode (buf.getD 0 0), topicName := stringAt buf (1 + bytes), msgId := shortAt buf msgIdOffset
    payload := buf.drop (msgIdOffset + 2), msgIdOffset }

theorem Publish.decode_at {value bytes : Nat} (hlong : 3 ≤ buf.length)
    (hr : remainLength (fun i => buf.getD i 0) buf.length = .length value bytes)
    (hle : (Publish.at buf bytes).msgIdOffset + 2 ≤ buf.length) :
    Publish.decode.decode buf = some (Publish.at buf bytes) := by
  have hle' : 1 + bytes + 2 + shortAt buf (1 + bytes) + 2 ≤ buf.length := hle
  unfold PktM.decode Publish.decode
  rw [PktM.bind_some (decodeHeader_at hlong hr), PktM.bind_some (readString_at (by omega)),
    PktM.bind_some (PktM.length_eq _), PktM.bind_some (readShort_at hle'), PktM.bind_some (readRest_at hle')]
  rfl

/-- **The decoder, field by field.** -/
theorem Publish.decode_iff : Publish.decode.decode buf = some msg ↔
    ∃ value bytes, 3 ≤ buf.length ∧ remainLength (fun i => buf.getD i 0) buf.length = .length value bytes ∧
      (Publish.at buf bytes).msgIdOffset + 2 ≤ buf.length ∧ msg = Publish.at buf bytes := by
  constructor
  · intro h
    obtain ⟨header, hheader, hrest⟩ := PktM.bind_inv h
    obtain ⟨hlong, value, bytes, hr⟩ := exists_of_decodeHeader hheader
    rw [decodeHeader_at hlong hr] at hrest
    obtain ⟨topicName, htopic, hrest⟩ := PktM.bind_inv hrest
    obtain ⟨hstr, -⟩ := le_of_readString htopic
    have hrun : (PktM.readString { buf, offset := 1 + bytes }).2 = _ := congrArg Prod.snd (readString_at hstr)
    dsimp only at hrest
    rw [hrun] at hrest
    obtain ⟨offset, -, hrest⟩ := PktM.bind_inv hrest
    obtain ⟨msgId, hid, -⟩ := PktM.bind_inv hrest
    obtain ⟨hle, -⟩ := le_of_readShort hid
    refine ⟨value, bytes, hlong, hr, hle, ?_⟩
    rw [Publish.decode_at hlong hr hle] at h
    exact (Option.some.inj h).symm
  · rintro ⟨value, bytes, hlong, hr, hle, rfl⟩
    exact Publish.decode_at hlong hr hle

theorem Publish.msgId_lt (h : Publish.decode.decode buf = some msg) : msg.msgId < 65536 := by
  obtain ⟨value, bytes, -, -, -, rfl⟩ := Publish.decode_iff.mp h
  exact shortAt_lt _ _

/-- **What is read before the identifier** depends on the bytes before it. -/
theorem Publish.decode_congr (h : Publish.decode.decode buf = some msg) (hlen : buf'.length = buf.length)
    (hag : ∀ i, 1 ≤ i → i < msg.msgIdOffset → buf'.getD i 0 = buf.getD i 0) :
    Publish.decode.decode buf' = some { msg with
      header := FixedHeader.decode (buf'.getD 0 0), msgId := shortAt buf' msg.msgIdOffset
      payload := buf'.drop (msg.msgIdOffset + 2) } := by
  obtain ⟨value, bytes, hlong, hr, hle, rfl⟩ := Publish.decode_iff.mp h
  have hoff : (Publish.at buf bytes).msgIdOffset = 1 + bytes + 2 + shortAt buf (1 + bytes) := rfl
  rw [hoff] at hle hag
  have hr' : remainLength (fun i => buf'.getD i 0) buf'.length = .length value bytes := by
    rw [hlen]
    exact remainLength_agree_digits hr fun i hi hib => hag i hi (by omega)
  have hshort : shortAt buf' (1 + bytes) = shortAt buf (1 + bytes) := by
    unfold shortAt
    rw [hag (1 + bytes) (by omega) (by omega), hag (1 + bytes + 1) (by omega) (by omega)]
  have htopic : stringAt buf' (1 + bytes) = stringAt buf (1 + bytes) := by
    unfold stringAt
    rw [hshort, ← range_getD (by omega), ← range_getD (by omega)]
    refine List.map_congr_left fun j hj => hag _ (by omega) ?_
    have := List.mem_range.mp hj
    omega
  have hat : Publish.at buf' bytes = { Publish.at buf bytes with
      header := FixedHeader.decode (buf'.getD 0 0)
      msgId := shortAt buf' (1 + bytes + 2 + shortAt buf (1 + bytes))
      payload := buf'.drop (1 + bytes + 2 + shortAt buf (1 + bytes) + 2) } := by
    unfold Publish.at
    rw [hshort, htopic]
  rw [Publish.decode_at (by omega) hr' ?_, hat]
  · rfl
  · show 1 + bytes + 2 + shortAt buf' (1 + bytes) + 2 ≤ _
    rw [hshort, hlen]
    exact hle

theorem shortAt_store {i n : Nat} (h : i + 2 ≤ buf.length) (hn : n < 65536) : shortAt (Pkt.store buf i (short n)) i = n := by
  have htake : (buf.take i).length = i := by
    rw [List.length_take]
    omega
  have hfirst : (Pkt.store buf i (short n)).getD i 0 = UInt8.ofNat (n / 256) := by
    unfold Pkt.store short
    rw [List.append_assoc, List.getD_append_right _ _ _ _ (Nat.le_of_eq htake), htake, Nat.sub_self]
    rfl
  have hsecond : (Pkt.store buf i (short n)).getD (i + 1) 0 = UInt8.ofNat n := by
    unfold Pkt.store short
    rw [List.append_assoc, List.getD_append_right _ _ _ _ (by omega), htake, Nat.add_sub_cancel_left]
    rfl
  unfold shortAt
  rw [hfirst, hsecond, UInt8.toNat_ofNat', UInt8.toNat_ofNat']
  omega

/-- **The packet that `handle_publish_msg` rewrites** carries the new identifier. -/
theorem Publish.decode_rewriteMsgId (h : Publish.decode.decode buf = some msg) (id : Nat) :
    ∃ msg', Publish.decode.decode (rewriteMsgId msg buf id) = some msg' ∧ msg'.msgId = id % 65536 := by
  have hle := Publish.msgIdOffset_le h
  have hstore : rewriteMsgId msg buf id = Pkt.store buf msg.msgIdOffset (short (id % 65536)) := if_pos (by omega)
  have hlen := Publish.rewriteMsgId_length h id
  refine ⟨_, Publish.decode_congr h hlen fun i _ hi => ?_, ?_⟩
  · have htake : i < (buf.take msg.msgIdOffset).length := by
      rw [List.length_take]
      omega
    rw [hstore]
    unfold Pkt.store
    rw [List.append_assoc, List.getD_append _ _ _ _ htake, List.getD_eq_getElem?_getD, List.getElem?_take_of_lt hi,
      List.getD_eq_getElem?_getD]
  · show shortAt (rewriteMsgId msg buf id) msg.msgIdOffset = _
    rw [hstore]
    exact shortAt_store hle (Nat.mod_lt _ (by decide))

/-- Another first byte is another header. -/
theorem Publish.decode_head {x : UInt8} {rest : ByteStr} (h : Publish.decode.decode (x :: rest) = some msg) (y : UInt8) :
    ∃ msg', Publish.decode.decode (y :: rest) = some msg' ∧ msg'.msgId = msg.msgId := by
  have hsame : ∀ i, 1 ≤ i → (y :: rest).getD i 0 = (x :: rest).getD i 0 := by
    intro i hi
    obtain ⟨i, rfl⟩ := Nat.exists_eq_add_of_le' hi
    rfl
  refine ⟨_, Publish.decode_congr h rfl fun i hi _ => hsame i hi, ?_⟩
  obtain ⟨value, bytes, -, -, -, rfl⟩ := Publish.decode_iff.mp h
  have hoff : 1 ≤ (Publish.at (x :: rest) bytes).msgIdOffset := by
    show 1 ≤ 1 + bytes + 2 + _
    omega
  have hshort : ∀ i, 1 ≤ i → shortAt (y :: rest) i = shortAt (x :: rest) i := by
    intro i hi
    unfold shortAt
    rw [hsame i hi, hsame (i + 1) (Nat.le_succ_of_le hi)]
  exact hshort _ hoff

/-! ## Messages in buffers -/

namespace Buf

/-- All the bytes in a buffer, read or not. -/
def packet (x : Buf) : ByteStr := x.1.data.take x.1.writePos

/-- The identifier the message of a buffer is to carry: the low sixteen bits of `msg_id()`. -/
def packetId (x : Buf) : Nat := x.msgId % 65536

/-- The buffer holds a PUBLISH that carries its identifier, and that is not zero. -/
def Carries (x : Buf) : Prop :=
  ∃ msg, Publish.decode.decode x.packet = some msg ∧ msg.msgId = x.packetId ∧ x.packetId ≠ 0

theorem packet_eq_unread {x : Buf} (h : x.1.readPos = 0) : x.packet = x.unread := by
  have hlen : x.1.length = x.1.writePos := by
    rw [Mbuf.length_eq x.2, h, Nat.sub_zero]
  unfold packet unread Mbuf.unread
  rw [hlen, h, List.drop_zero]

theorem carries_of_decode {x : Buf} (hread : x.1.readPos = 0) (hd : Publish.decode.decode x.unread = some msg)
    (hid : msg.msgId = x.packetId) (hne : x.packetId ≠ 0) : x.Carries :=
  ⟨msg, by rw [packet_eq_unread hread]; exact hd, hid, hne⟩

/-- A retained copy of a message nobody has read of. -/
theorem Carries.retainCopy {x : Buf} (h : x.Carries) (hread : x.1.readPos = 0) (now : Nat) : (retainCopy now x).Carries := by
  obtain ⟨msg, hd, hid, hne⟩ := h
  rw [packet_eq_unread hread] at hd
  have hsmall : x.unread.length < 2 ^ 32 := by
    have hle := x.2.inside
    have hlt := x.2.sized
    rw [Buf.length_unread, Mbuf.length_eq x.2]
    omega
  cases hbytes : x.unread with
  | nil =>
      rw [hbytes] at hd
      cases hd
  | cons y rest =>
      rw [hbytes] at hd hsmall
      obtain ⟨msg', hd', hid'⟩ := Publish.decode_head hd (UInt8.ofNat (y.toNat / 2 * 2 + 1))
      have hcopy : MqttServer.retainCopy now x =
          (Buf.make (rest.length + 1) now (UInt8.ofNat (y.toNat / 2 * 2 + 1) :: rest)).tag x.msgId .data false := by
        unfold MqttServer.retainCopy
        rw [hbytes]
        rfl
      have hmake : (Buf.make (rest.length + 1) now (UInt8.ofNat (y.toNat / 2 * 2 + 1) :: rest)).unread =
          UInt8.ofNat (y.toNat / 2 * 2 + 1) :: rest := Buf.make_unread (Nat.le_refl _) hsmall
      rw [hcopy]
      refine carries_of_decode (Buf.make_readPos _ _ _) ?_ (hid'.trans hid) hne
      rw [Buf.tag_unread, hmake]
      exact hd'

end Buf

/-! ## Replies -/

/-- The first byte of what an encoder makes. -/
theorem head_of_finish (size n len : Nat) {h : FixedHeader} {p : Pkt} {bytes : ByteStr} (hsize : 6 ≤ size)
    (hp : ((encodeHeader size h).writeRemainLength n).Adds p) (hf : p.finish len = some bytes) : bytes.getD 0 0 = h.encode := by
  have hroom : 6 ≤ (List.replicate size (0 : UInt8)).length := by rwa [List.length_replicate]
  have hdigits := Pkt.lengthDigits_length 5 n
  have hstart : (encodeHeader size h).writeRemainLength n = _ := (Pkt.header_emits h n hroom).fits (by
    show 0 + (h.encode :: Pkt.lengthDigits 5 n).length ≤ (List.replicate size (0 : UInt8)).length
    rw [List.length_cons]
    omega)
  rw [hstart] at hp
  have hfirst : 1 ≤ 0 + (h.encode :: Pkt.lengthDigits 5 n).length := by
    rw [List.length_cons]
    omega
  have hbyte : p.buf.getD 0 0 = h.encode := hp.behind 0 hfirst
  have hahead : 1 ≤ p.offset := hfirst.trans hp.ahead
  unfold Pkt.finish at hf
  split at hf
  · rename_i hlen
    cases hf
    obtain ⟨n, rfl⟩ : ∃ n, len = n + 1 := ⟨len - 1, by omega⟩
    rw [← hbyte]
    cases p.buf with
    | nil => rfl
    | cons x xs => rfl
  · cases hf

theorem writeAll_adds (bytes : List UInt8) : ∀ p : Pkt, p.Adds (bytes.foldl (fun p x => p.writeByte x) p) := by
  induction bytes with
  | nil => exact fun p => Pkt.Adds.refl p
  | cons x bytes ih => exact fun p => (Pkt.writeByte_adds p x).trans (ih _)

/-- What is encoded, if anything is, is no PUBLISH. -/
def NoPublish (bytes : Option ByteStr) : Prop := ∀ x, bytes = some x → packetType x ≠ .publish

/-- Nor is it one in its buffer. -/
theorem NoPublish.make {size time : Nat} {bytes : ByteStr} (h : NoPublish (some bytes)) :
    packetType (Buf.make size time bytes).packet ≠ .publish := by
  rw [Buf.packet_eq_unread (Buf.make_readPos size time bytes)]
  by_cases hfit : bytes.length ≤ size ∧ size < 2 ^ 32
  · rw [Buf.make_unread hfit.1 hfit.2]
    exact h bytes rfl
  · have hempty : (Buf.make size time bytes).unread = [] := by
      unfold Buf.make
      rw [dif_neg hfit]
      show (([] : ByteStr).drop 0).take _ = []
      rw [List.drop_nil, List.take_nil]
    rw [hempty]
    decide

theorem noPublish_of_head {bytes : Option ByteStr} {x : UInt8} (hx : MqttType.ofNibble (x.toNat / 16) ≠ .publish)
    (h : ∀ y, bytes = some y → y.getD 0 0 = x) : NoPublish bytes := by
  intro y hy
  unfold packetType
  rw [h y hy]
  exact hx

theorem noPublish_connAck (code : ConnAckCode) : NoPublish (encodeConnAck 32 code) :=
  noPublish_of_head (x := FixedHeader.encode { msgType := .connack }) (by decide) fun _ h =>
    head_of_finish 32 2 4 (by decide) ((Pkt.writeByte_adds _ 0).trans (Pkt.writeByte_adds _ _)) h

theorem noPublish_publishAck (msgId : Nat) : NoPublish (encodePublishAck 64 msgId) :=
  noPublish_of_head (x := FixedHeader.encode { msgType := .puback }) (by decide) fun _ h =>
    head_of_finish 64 2 4 (by decide) (Pkt.writeShort_adds _ msgId) h

theorem noPublish_subAck (msgId : Nat) (qos : List UInt8) : NoPublish (encodeSubAck 64 msgId qos) :=
  noPublish_of_head (x := FixedHeader.encode { msgType := .suback }) (by decide) fun _ h =>
    head_of_finish 64 ((qos.length + 2) % 2 ^ 32) _ (by decide) ((Pkt.writeShort_adds _ msgId).trans (writeAll_adds qos _)) h

theorem noPublish_unsubAck (msgId : Nat) : NoPublish (encodeUnsubAck 64 msgId) :=
  noPublish_of_head (x := FixedHeader.encode { msgType := .unsuback }) (by decide) fun _ h =>
    head_of_finish 64 2 4 (by decide) (Pkt.writeShort_adds _ msgId) h

theorem noPublish_pingResp : NoPublish (encodePingResp 4) := by
  intro x hx
  have hbytes : encodePingResp 4 = some [0xD0, 0] := by decide
  rw [hbytes] at hx
  cases hx
  decide

end MqttServer
