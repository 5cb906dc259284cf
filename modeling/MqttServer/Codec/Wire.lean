import MqttServer.Codec.Length
import MqttServer.Codec.Msg

/-!
# `Codec.Wire` — the bytes of the encoders, read back by the decoders

An encoder makes a sequence of writes that each do nothing when they do not fit, and compares the length it has
reached with the announced one. Such a sequence reaches that length exactly when everything fits (`Emits`), so
an encoder is its wire format with one test of the size. The decoders read the wire format from the front, with
the cursor behind what was read (`Pkt.behind`).
-/

namespace MqttServer

/-- A `uint16_t` on the wire. -/
def short (n : Nat) : ByteStr := [UInt8.ofNat (n / 256), UInt8.ofNat n]

/-- A length-prefixed string on the wire. -/
def shortString (bytes : ByteStr) : ByteStr := short (bytes.length % 65536) ++ bytes

/-! ## Writing -/

namespace Pkt

theorem store_length {buf bytes : ByteStr} {i : Nat} (h : i + bytes.length ≤ buf.length) :
    (store buf i bytes).length = buf.length := by
  simp only [store, List.length_append, List.length_take, List.length_drop]
  omega

theorem store_store {buf bytes bytes' : ByteStr} {i : Nat} (h : i + bytes.length ≤ buf.length) :
    store (store buf i bytes) (i + bytes.length) bytes' = store buf i (bytes ++ bytes') := by
  have hlen : (buf.take i ++ bytes).length = i + bytes.length := by
    rw [List.length_append, List.length_take]
    omega
  unfold store
  rw [List.take_append_of_le_length (Nat.le_of_eq hlen.symm), List.take_of_length_le (Nat.le_of_eq hlen),
    List.drop_append, List.drop_of_length_le (by omega), List.nil_append, hlen, List.drop_drop,
    List.length_append]
  simp only [List.append_assoc]
  congr 4
  omega

/-- What an attempt to write some bytes leaves: all of them or the cursor still inside the buffer. -/
structure Emits (p : Pkt) (bytes : ByteStr) (p' : Pkt) : Prop where
  size : p'.buf.length = p.buf.length
  inside : p.offset ≤ p.buf.length → p'.offset ≤ p'.buf.length
  fits : p.offset + bytes.length ≤ p.buf.length →
    p' = { buf := store p.buf p.offset bytes, offset := p.offset + bytes.length }

namespace Emits

variable {p p₁ p' : Pkt} {bytes bytes' : ByteStr}

theorem trans (h : Emits p bytes p₁) (h' : Emits p₁ bytes' p') : Emits p (bytes ++ bytes') p' := by
  refine ⟨h'.size.trans h.size, fun hin => h'.inside (h.inside hin), fun hfit => ?_⟩
  rw [List.length_append] at hfit
  have hfit₁ : p.offset + bytes.length ≤ p.buf.length := by omega
  have h₁ := h.fits hfit₁
  have hfit₂ : p₁.offset + bytes'.length ≤ p₁.buf.length := by
    rw [h.size, h₁]
    show p.offset + bytes.length + bytes'.length ≤ _
    omega
  rw [h'.fits hfit₂, h₁]
  simp only [store_store hfit₁, List.length_append, Nat.add_assoc]

/-- A write that is made when it fits. -/
theorem ite (p : Pkt) (bytes : ByteStr) :
    Emits p bytes (if p.leftSize < bytes.length then p
      else { buf := store p.buf p.offset bytes, offset := p.offset + bytes.length }) := by
  unfold leftSize
  split
  · exact ⟨rfl, id, fun h => absurd h (by omega)⟩
  · have hfit : p.offset + bytes.length ≤ p.buf.length := by omega
    refine ⟨store_length hfit, fun _ => ?_, fun _ => rfl⟩
    rw [store_length hfit]
    exact hfit

/-- The end of an encoder that starts with an empty buffer. -/
theorem finish {buf : ByteStr} (h : Emits (ofBuf buf) bytes p') :
    p'.finish bytes.length = if bytes.length ≤ buf.length then some bytes else none := by
  have hsize : p'.buf.length = buf.length := h.size
  unfold Pkt.finish
  by_cases hfit : bytes.length ≤ buf.length
  · have hfit' : (ofBuf buf).offset + bytes.length ≤ (ofBuf buf).buf.length := by
      show 0 + bytes.length ≤ buf.length
      omega
    rw [if_pos hfit, h.fits hfit']
    simp [ofBuf, store]
  · have hin : p'.offset ≤ p'.buf.length := h.inside (Nat.zero_le _)
    rw [if_neg hfit, if_neg (by omega)]

end Emits

theorem writeByte_emits (p : Pkt) (v : UInt8) : Emits p [v] (p.writeByte v) := by
  have h := Emits.ite p [v]
  unfold writeByte
  by_cases hl : p.leftSize < 1
  · rw [if_pos hl]
    rwa [if_pos (by simpa using hl)] at h
  · rw [if_neg hl]
    rw [if_neg (by simpa using hl)] at h
    have hlt : p.offset < p.buf.length := by
      unfold leftSize at hl
      omega
    rw [List.set_eq_take_append_cons_drop, if_pos hlt]
    simpa [store] using h

theorem writeBytes_emits (p : Pkt) (bytes : ByteStr) : Emits p bytes (p.writeBytes bytes) := Emits.ite p bytes

theorem writeShort_emits (p : Pkt) (n : Nat) : Emits p (short n) (p.writeShort n) := Emits.ite p (short n)

theorem writeString_emits (p : Pkt) (bytes : ByteStr) : Emits p (shortString bytes) (p.writeString bytes) := by
  unfold writeString
  by_cases hl : p.leftSize < 2
  · rw [if_pos hl]
    refine ⟨rfl, id, fun h => absurd h ?_⟩
    unfold leftSize at hl
    simp only [shortString, short, List.length_append, List.length_cons]
    omega
  · rw [if_neg hl]
    exact (writeShort_emits p _).trans (writeBytes_emits _ bytes)

theorem lengthDigits_length (fuel n : Nat) : (lengthDigits fuel n).length ≤ fuel := by
  induction fuel generalizing n with
  | zero => exact Nat.le_refl _
  | succ fuel ih =>
      unfold lengthDigits
      split
      · exact Nat.succ_le_succ (ih _)
      · simp

/-- The header and the length, in a buffer that has room for them. -/
theorem header_emits_of_le {buf : ByteStr} (h : FixedHeader) (n : Nat)
    (hroom : 1 + (lengthDigits 5 n).length ≤ buf.length) :
    Emits (ofBuf buf) (h.encode :: lengthDigits 5 n) ((encodeHeaderInto buf h).writeRemainLength n) := by
  have hbyte : Emits (ofBuf buf) [h.encode] (encodeHeaderInto buf h) := writeByte_emits _ _
  have hp : encodeHeaderInto buf h = { buf := store buf 0 [h.encode], offset := 1 } :=
    hbyte.fits (by show 0 + 1 ≤ buf.length; omega)
  have hlen : (store buf 0 [h.encode]).length = buf.length := store_length (by simp; omega)
  have hlen' : (store (store buf 0 [h.encode]) 1 (lengthDigits 5 n)).length = buf.length := by
    rw [store_length (by rw [hlen]; omega), hlen]
  have hlength : Emits (encodeHeaderInto buf h) (lengthDigits 5 n)
      ((encodeHeaderInto buf h).writeRemainLength n) := by
    rw [hp]
    refine ⟨hlen'.trans hlen.symm, fun _ => ?_, fun _ => rfl⟩
    show 1 + (lengthDigits 5 n).length ≤ (store (store buf 0 [h.encode]) 1 (lengthDigits 5 n)).length
    omega
  exact hbyte.trans hlength

/-- In particular in one that has room for any length. -/
theorem header_emits {buf : ByteStr} (h : FixedHeader) (n : Nat) (hroom : 6 ≤ buf.length) :
    Emits (ofBuf buf) (h.encode :: lengthDigits 5 n) ((encodeHeaderInto buf h).writeRemainLength n) := by
  have hdigits := lengthDigits_length 5 n
  exact header_emits_of_le h n (by omega)

end Pkt

/-- A packet: the header, the length of the rest, and the rest. -/
def wirePacket (h : FixedHeader) (rest : ByteStr) : ByteStr :=
  h.encode :: (Pkt.lengthDigits 5 rest.length ++ rest)

theorem wirePacket_length (h : FixedHeader) (rest : ByteStr) :
    (wirePacket h rest).length = rest.length + (Pkt.lengthDigits 5 rest.length).length + 1 := by
  simp only [wirePacket, List.length_cons, List.length_append]
  omega

/-- An encoder that announces the length of what it tries to write. -/
theorem finish_wirePacket {buf : ByteStr} (rest : ByteStr) {h : FixedHeader} {p : Pkt} (hroom : 6 ≤ buf.length)
    (hp : ((encodeHeaderInto buf h).writeRemainLength rest.length).Emits rest p) :
    p.finish (rest.length + (Pkt.lengthDigits 5 rest.length).length + 1) =
      if (wirePacket h rest).length ≤ buf.length then some (wirePacket h rest) else none := by
  rw [← wirePacket_length h rest]
  exact ((Pkt.header_emits h rest.length hroom).trans hp).finish

/-! ### The formats -/

/-- `CMqttPublish` after its fixed header. -/
def Publish.body (m : Publish) : ByteStr := shortString m.topicName ++ short m.msgId ++ m.payload

/-- A topic and its QoS. -/
def Topic.wire (t : Topic) : ByteStr := shortString t.topicName ++ [t.qos]

/-- `CMqttSubscribe` after its fixed header. -/
def Subscribe.body (m : Subscribe) : ByteStr := short m.msgId ++ m.subTopics.flatMap Topic.wire

theorem Publish.body_length (m : Publish) :
    m.body.length = m.topicName.length + 2 + 2 + m.payload.length := by
  simp only [Publish.body, shortString, short, List.length_append, List.length_cons, List.length_nil]
  omega

theorem Subscribe.body_length (m : Subscribe) :
    m.body.length = (m.subTopics.map fun t => t.topicName.length + 2 + 1).sum + 2 := by
  have htopics : ∀ ts : List Topic, (ts.flatMap Topic.wire).length =
      (ts.map fun t => t.topicName.length + 2 + 1).sum := by
    intro ts
    rw [List.length_flatMap]
    refine congrArg List.sum (List.map_congr_left fun t _ => ?_)
    simp only [Topic.wire, shortString, short, List.length_append, List.length_cons, List.length_nil]
    omega
  simp only [Subscribe.body, short, List.length_append, List.length_cons, List.length_nil, htopics]
  omega

/-- **PUBLISH.** -/
theorem Publish.encodeInto_eq {buf : ByteStr} {m : Publish} (hroom : 6 ≤ buf.length)
    (hsize : m.body.length < 2 ^ 32) : Publish.encodeInto buf m =
      if (wirePacket m.header m.body).length ≤ buf.length then some (wirePacket m.header m.body) else none := by
  have hlen : (m.topicName.length + 2 + 2 + m.payload.length) % 2 ^ 32 = m.body.length := by
    rw [← m.body_length]
    exact Nat.mod_eq_of_lt hsize
  unfold Publish.encodeInto
  simp only [hlen]
  refine finish_wirePacket _ hroom ?_
  exact ((Pkt.writeString_emits _ _).trans (Pkt.writeShort_emits _ _)).trans (Pkt.writeBytes_emits _ _)

theorem writeTopics_emits (ts : List Topic) (p : Pkt) : p.Emits (ts.flatMap Topic.wire) (writeTopics p ts) := by
  unfold writeTopics
  induction ts generalizing p with
  | nil =>
      refine ⟨rfl, id, fun _ => ?_⟩
      simp [Pkt.store]
  | cons t ts ih =>
      rw [List.foldl_cons, List.flatMap_cons]
      exact ((Pkt.writeString_emits p t.topicName).trans (Pkt.writeByte_emits _ t.qos)).trans (ih _)

/-- **SUBSCRIBE** of at least one topic. -/
theorem Subscribe.encodeInto_eq {buf : ByteStr} {h : FixedHeader} {m : Subscribe} (hroom : 6 ≤ buf.length)
    (hne : m.subTopics ≠ []) (hsize : m.body.length < 2 ^ 32) : Subscribe.encodeInto buf h m =
      if (wirePacket h m.body).length ≤ buf.length then some (wirePacket h m.body) else none := by
  have hlen : ((m.subTopics.map fun t => t.topicName.length + 2 + 1).sum + 2) % 2 ^ 32 = m.body.length := by
    rw [← m.body_length]
    exact Nat.mod_eq_of_lt hsize
  unfold Subscribe.encodeInto
  rw [if_neg hne]
  simp only [hlen]
  exact finish_wirePacket _ hroom ((Pkt.writeShort_emits _ _).trans (writeTopics_emits _ _))

/-- **CONNACK.** -/
theorem ConnAck.encodeInto_eq {buf : ByteStr} (h : FixedHeader) (code : UInt8) (hroom : 6 ≤ buf.length) :
    ConnAck.encodeInto buf h code = some (wirePacket h [0, code]) := by
  have hp : ((encodeHeaderInto buf h).writeRemainLength 2).Emits [0, code]
      ((((encodeHeaderInto buf h).writeRemainLength 2).writeByte 0).writeByte code) :=
    (Pkt.writeByte_emits _ 0).trans (Pkt.writeByte_emits _ code)
  have hlen : (wirePacket h [0, code]).length = 4 := by simp [wirePacket, Pkt.lengthDigits]
  have hfinish := finish_wirePacket [0, code] hroom hp
  rw [← wirePacket_length h, hlen, if_pos (by omega)] at hfinish
  exact hfinish

/-- **PUBACK.** -/
theorem PublishAck.encodeInto_eq {buf : ByteStr} (h : FixedHeader) (msgId : Nat) (hroom : 6 ≤ buf.length) :
    PublishAck.encodeInto buf h msgId = some (wirePacket h (short msgId)) := by
  have hp : ((encodeHeaderInto buf h).writeRemainLength 2).Emits (short msgId)
      (((encodeHeaderInto buf h).writeRemainLength 2).writeShort msgId) := Pkt.writeShort_emits _ _
  have hlen : (wirePacket h (short msgId)).length = 4 := by simp [wirePacket, short, Pkt.lengthDigits]
  have hfinish := finish_wirePacket (short msgId) hroom hp
  rw [← wirePacket_length h, hlen, if_pos (by omega)] at hfinish
  exact hfinish

/-! ## Reading -/

/-- The cursor behind the bytes `w`, with `rest` to come. -/
def Pkt.behind (w rest : ByteStr) : Pkt := { buf := w ++ rest, offset := w.length }

namespace PktM

variable {w rest : ByteStr}

theorem length_eq (p : Pkt) : length p = (some p.offset, p) := rfl

theorem leftSize_behind (w rest : ByteStr) : (Pkt.behind w rest).leftSize = rest.length := by
  simp only [Pkt.leftSize, Pkt.behind, List.length_append]
  omega

theorem byteAt_behind (w : ByteStr) (v : UInt8) (rest : ByteStr) :
    (Pkt.behind w (v :: rest)).byteAt w.length = v := by
  simp [Pkt.byteAt, Pkt.behind]

theorem advance_behind (w bytes rest : ByteStr) :
    (Pkt.behind w (bytes ++ rest)).advance bytes.length = Pkt.behind (w ++ bytes) rest := by
  simp only [Pkt.advance, Pkt.behind, List.append_assoc, List.length_append]

theorem here_behind (w bytes rest : ByteStr) : (Pkt.behind w (bytes ++ rest)).here bytes.length = bytes := by
  simp [Pkt.here, Pkt.behind]

theorem readByte_behind (v : UInt8) : readByte (Pkt.behind w (v :: rest)) = (some v, Pkt.behind (w ++ [v]) rest) := by
  unfold readByte
  have hl : ¬ (Pkt.behind w (v :: rest)).leftSize < 1 := by
    rw [leftSize_behind, List.length_cons]
    omega
  rw [if_neg hl]
  exact Prod.ext (congrArg some (byteAt_behind w v rest)) (advance_behind w [v] rest)

theorem readShort_behind {n : Nat} (hn : n < 65536) :
    readShort (Pkt.behind w (short n ++ rest)) = (some n, Pkt.behind (w ++ short n) rest) := by
  unfold readShort
  have hl : ¬ (Pkt.behind w (short n ++ rest)).leftSize < 2 := by
    rw [leftSize_behind, List.length_append]
    simp only [short, List.length_cons, List.length_nil]
    omega
  rw [if_neg hl]
  refine Prod.ext (congrArg some ?_) (advance_behind w (short n) rest)
  have h₁ : (Pkt.behind w (short n ++ rest)).byteAt w.length = UInt8.ofNat (n / 256) := byteAt_behind w _ _
  have h₂ : (Pkt.behind w (short n ++ rest)).byteAt (w.length + 1) = UInt8.ofNat n := by
    simp [Pkt.byteAt, Pkt.behind, short]
  show ((Pkt.behind w (short n ++ rest)).byteAt w.length).toNat * 256 +
    ((Pkt.behind w (short n ++ rest)).byteAt (w.length + 1)).toNat = n
  rw [h₁, h₂, UInt8.toNat_ofNat', UInt8.toNat_ofNat']
  omega

theorem readString_behind {s : ByteStr} (hs : s.length < 65536) :
    readString (Pkt.behind w (shortString s ++ rest)) = (some s, Pkt.behind (w ++ shortString s) rest) := by
  have hmod : s.length % 65536 = s.length := Nat.mod_eq_of_lt hs
  unfold shortString
  rw [hmod, List.append_assoc]
  refine (bind_some (readShort_behind hs)).trans ?_
  have hl : ¬ (Pkt.behind (w ++ short s.length) (s ++ rest)).leftSize < (s.length : Int) := by
    rw [leftSize_behind, List.length_append]
    omega
  simp only [if_neg hl]
  rw [here_behind, advance_behind, List.append_assoc]

theorem readRest_behind : readRest (Pkt.behind w rest) = (some rest, Pkt.behind (w ++ rest) []) := by
  unfold readRest
  have hl : ¬ (Pkt.behind w rest).leftSize < 0 := by
    rw [leftSize_behind]
    omega
  rw [if_neg hl, leftSize_behind, Int.toNat_natCast]
  have hh := here_behind w rest []
  have ha := advance_behind w rest []
  rw [List.append_nil] at hh ha
  rw [hh, ha]

/-- A read that finds nothing. -/
theorem readString_nil : readString (Pkt.behind w []) = (none, Pkt.behind w []) := by
  have h : readShort (Pkt.behind w []) = (none, Pkt.behind w []) := by
    unfold readShort
    rw [if_pos (by rw [leftSize_behind]; decide)]
  exact bind_none h

end PktM

/-- The length of a packet is found to end where it ends. -/
theorem remainLength_wirePacket {h : FixedHeader} {rest : ByteStr} (hsize : rest.length < 268435456) :
    ∃ v, remainLength (Pkt.behind [h.encode] (Pkt.lengthDigits 5 rest.length ++ rest)).byteAt
        (wirePacket h rest).length = .length v (Pkt.lengthDigits 5 rest.length).length := by
  refine remainLength_framed hsize (fun i hi => ?_) (Nat.le_of_eq (wirePacket_length h rest).symm)
  show (h.encode :: (Pkt.lengthDigits 5 rest.length ++ rest)).getD (i + 1) 0 = _
  rw [List.getD_cons_succ, List.getD_append _ _ _ _ hi]

/-- The header as the bit fields have it. -/
theorem FixedHeader.decode_encode {h : FixedHeader} (hqos : h.qos ≤ 3) : FixedHeader.decode h.encode = h := by
  obtain ⟨type, dup, qos, retain⟩ := h
  simp only at hqos
  interval_cases qos <;> cases type <;> cases dup <;> cases retain <;> rfl

/-- The front of every decoder. -/
theorem decodeHeader_wirePacket {h : FixedHeader} {rest : ByteStr} (hqos : h.qos ≤ 3)
    (hne : rest ≠ []) (hsize : rest.length < 268435456) :
    decodeHeader (Pkt.ofBuf (wirePacket h rest)) =
      (some h, Pkt.behind (h.encode :: Pkt.lengthDigits 5 rest.length) rest) := by
  have hofBuf : Pkt.ofBuf (wirePacket h rest) =
      Pkt.behind [] (h.encode :: (Pkt.lengthDigits 5 rest.length ++ rest)) := rfl
  obtain ⟨v, hv⟩ := remainLength_wirePacket (h := h) hsize
  have hread : PktM.readRemainLength (Pkt.behind [h.encode] (Pkt.lengthDigits 5 rest.length ++ rest)) =
      (some (v, (Pkt.lengthDigits 5 rest.length).length),
        Pkt.behind ([h.encode] ++ Pkt.lengthDigits 5 rest.length) rest) := by
    unfold PktM.readRemainLength
    have hpos : 0 < rest.length := List.length_pos_iff.mpr hne
    have hdig : 0 < (Pkt.lengthDigits 5 rest.length).length := by
      unfold Pkt.lengthDigits
      split <;> simp
    have hl : ¬ (Pkt.behind [h.encode] (Pkt.lengthDigits 5 rest.length ++ rest)).leftSize < 2 := by
      rw [PktM.leftSize_behind, List.length_append]
      omega
    have hbuf : (Pkt.behind [h.encode] (Pkt.lengthDigits 5 rest.length ++ rest)).buf = wirePacket h rest := rfl
    rw [if_neg hl, hbuf, hv]
    simp only
    rw [PktM.advance_behind]
  unfold decodeHeader
  rw [hofBuf, PktM.bind_some (PktM.readByte_behind _), List.nil_append, PktM.bind_some hread,
    FixedHeader.decode_encode hqos]
  rfl

/-! ### The decoders -/

/-- The fields a PUBLISH is made of. -/
def Publish.fields (m : Publish) : FixedHeader × ByteStr × Nat × ByteStr :=
  (m.header, m.topicName, m.msgId, m.payload)

theorem Publish.decode_wire {m : Publish} (hqos : m.header.qos ≤ 3) (hid : m.msgId < 65536)
    (hsize : m.body.length < 16384) :
    (Publish.decode.decode (wirePacket m.header m.body)).map Publish.fields = some m.fields := by
  have hlen := m.body_length
  have htopic : m.topicName.length < 65536 := by omega
  have hne : m.body ≠ [] := by
    refine List.ne_nil_of_length_pos ?_
    omega
  unfold PktM.decode Publish.decode
  rw [PktM.bind_some (decodeHeader_wirePacket hqos hne (by omega))]
  unfold Publish.body
  rw [List.append_assoc, PktM.bind_some (PktM.readString_behind htopic), PktM.bind_some (PktM.length_eq _),
    PktM.bind_some (PktM.readShort_behind hid), PktM.bind_some PktM.readRest_behind]
  rfl

/-- Every topic takes at least one byte. -/
theorem length_le_topics (ts : List Topic) : ts.length ≤ (ts.flatMap Topic.wire).length := by
  induction ts with
  | nil => exact Nat.le_refl _
  | cons t ts ih =>
      rw [List.flatMap_cons, List.length_append, List.length_cons]
      have hone : 1 ≤ t.wire.length := by simp [Topic.wire]
      omega

/-- The topics are read back one after the other, until nothing is left. -/
theorem readTopics_behind (ts : List Topic) (hts : ∀ t ∈ ts, t.topicName.length < 65536) :
    ∀ (fuel : Nat) (w : ByteStr), ts.length < fuel →
      readTopics fuel (Pkt.behind w (ts.flatMap Topic.wire)) =
        (some ts, Pkt.behind (w ++ ts.flatMap Topic.wire) []) := by
  induction ts with
  | nil =>
      intro fuel w hfuel
      cases fuel with
      | zero => exact absurd hfuel (Nat.not_lt_zero _)
      | succ fuel =>
          unfold readTopics
          rw [List.flatMap_nil, PktM.readString_nil, List.append_nil]
  | cons t ts ih =>
      intro fuel w hfuel
      cases fuel with
      | zero => exact absurd hfuel (Nat.not_lt_zero _)
      | succ fuel =>
          have hwire : (t :: ts).flatMap Topic.wire =
              shortString t.topicName ++ (t.qos :: ts.flatMap Topic.wire) := by
            rw [List.flatMap_cons, Topic.wire, List.append_assoc]
            rfl
          have ih' := ih (fun t' ht' => hts t' (List.mem_cons_of_mem _ ht')) fuel
            (w ++ shortString t.topicName ++ [t.qos]) (Nat.lt_of_succ_lt_succ hfuel)
          unfold readTopics
          rw [hwire, PktM.readString_behind (hts t List.mem_cons_self)]
          simp only
          rw [PktM.readByte_behind]
          simp only
          rw [ih']
          simp only [List.append_assoc, List.cons_append, List.nil_append]

theorem Subscribe.decode_wire {h : FixedHeader} {m : Subscribe} (htype : h.msgType = .subscribe)
    (hqos : h.qos ≤ 3) (hid : m.msgId < 65536) (hsize : m.body.length < 16384) :
    Subscribe.decodeFull.decode (wirePacket h m.body) = some (h, m) := by
  have htopics : ∀ t ∈ m.subTopics, t.topicName.length < 65536 := by
    intro t ht
    have hle : t.topicName.length + 2 + 1 ≤ (m.subTopics.map fun t => t.topicName.length + 2 + 1).sum :=
      List.single_le_sum (by simp) _ (List.mem_map_of_mem ht)
    have hlen := m.body_length
    omega
  have hne : m.body ≠ [] := by
    refine List.ne_nil_of_length_pos ?_
    rw [m.body_length]
    omega
  have hfuel : ∀ w : ByteStr, m.subTopics.length < (Pkt.behind (w ++ short m.msgId)
      (m.subTopics.flatMap Topic.wire)).buf.length := by
    intro w
    have hcount := length_le_topics m.subTopics
    simp only [Pkt.behind, List.length_append, short, List.length_cons, List.length_nil]
    omega
  unfold PktM.decode Subscribe.decodeFull
  rw [PktM.bind_some (decodeHeader_wirePacket hqos hne (by omega)), if_neg (not_not.mpr htype)]
  unfold Subscribe.body
  have hread : ∀ w : ByteStr, readAllTopics (Pkt.behind (w ++ short m.msgId) (m.subTopics.flatMap Topic.wire)) =
      (some m.subTopics, Pkt.behind (w ++ short m.msgId ++ m.subTopics.flatMap Topic.wire) []) :=
    fun w => readTopics_behind m.subTopics htopics _ _ (hfuel w)
  rw [PktM.bind_some (PktM.readShort_behind hid), PktM.bind_some (hread _)]
  rfl

theorem ConnAck.decode_wire {h : FixedHeader} {code : UInt8} (htype : h.msgType = .connack)
    (hqos : h.qos ≤ 3) : ConnAck.decode.decode (wirePacket h [0, code]) = some (h, 0, code) := by
  unfold PktM.decode ConnAck.decode
  rw [PktM.bind_some (decodeHeader_wirePacket hqos (by simp) (by simp)), if_neg (not_not.mpr htype),
    PktM.bind_some (PktM.readByte_behind _), PktM.bind_some (PktM.readByte_behind _)]
  rfl

theorem PublishAck.decode_wire {h : FixedHeader} {msgId : Nat} (htype : h.msgType = .puback)
    (hqos : h.qos ≤ 3) (hid : msgId < 65536) :
    PublishAck.decodeFull.decode (wirePacket h (short msgId)) = some (h, msgId) := by
  have hread : ∀ w, PktM.readShort (Pkt.behind w (short msgId)) =
      (some msgId, Pkt.behind (w ++ short msgId) []) := by
    intro w
    rw [← PktM.readShort_behind hid, List.append_nil]
  unfold PktM.decode PublishAck.decodeFull
  rw [PktM.bind_some (decodeHeader_wirePacket hqos (by simp [short]) (by simp [short])),
    if_neg (not_not.mpr htype), PktM.bind_some (hread _)]
  rfl

/-! ## Round trips -/

/-- The number of bytes of a remaining length: seven bits in each. -/
def lengthBytes (n : Nat) : Nat :=
  if n < 2 ^ 7 then 1 else if n < 2 ^ 14 then 2 else if n < 2 ^ 21 then 3 else if n < 2 ^ 28 then 4 else 5

/-- The length of a packet with so many bytes after its fixed header. -/
def mqttLength (remaining : Nat) : Nat := 1 + lengthBytes remaining + remaining

theorem lengthDigits_lengthBytes {n : Nat} (hn : n < 2 ^ 35) :
    (Pkt.lengthDigits 5 n).length = lengthBytes n := by
  simp only [Pkt.lengthDigits, lengthBytes]
  split_ifs <;> simp_all <;> omega

theorem wirePacket_mqttLength {h : FixedHeader} {rest : ByteStr} (hsize : rest.length < 2 ^ 35) :
    (wirePacket h rest).length = mqttLength rest.length := by
  rw [wirePacket_length, lengthDigits_lengthBytes hsize, mqttLength]
  omega

/-- Seven bytes beside topic and payload are enough for a packet with a two-byte length. -/
theorem Publish.encode_roomy {m : Publish} {size : Nat} (hbody : m.body.length < 16384)
    (hroom : m.topicName.length + m.payload.length + 7 ≤ size) :
    m.encode size = some (wirePacket m.header m.body) := by
  have hlen := m.body_length
  have hfit : (wirePacket m.header m.body).length ≤ (List.replicate size (0 : UInt8)).length := by
    have hbytes : lengthBytes m.body.length ≤ 2 := by
      unfold lengthBytes
      split_ifs <;> omega
    rw [wirePacket_mqttLength (by omega), mqttLength, List.length_replicate]
    omega
  unfold Publish.encode
  rw [Publish.encodeInto_eq (by rw [List.length_replicate]; omega) (by omega), if_pos hfit]

/-- An encoder into `buf` succeeds exactly when the packet, of this length, fits, and then it has written the
    whole packet and the decoder gives the value back. -/
def RoundTrips {α : Type} (buf : ByteStr) (encoded : Option ByteStr) (decode : ByteStr → Option α) (length : Nat)
    (value : α) : Prop :=
  (encoded.isSome ↔ length ≤ buf.length) ∧
    ∀ bytes, encoded = some bytes → bytes.length = length ∧ decode bytes = some value

theorem roundTrips_wirePacket {α : Type} {buf : ByteStr} (rest : ByteStr) {h : FixedHeader} {encoded : Option ByteStr}
    {decode : ByteStr → Option α} {value : α} (hsize : rest.length < 2 ^ 32) (hbuf : buf.length ≤ 4096)
    (henc : encoded = if (wirePacket h rest).length ≤ buf.length then some (wirePacket h rest) else none)
    (hdec : rest.length < 16384 → decode (wirePacket h rest) = some value) :
    RoundTrips buf encoded decode (mqttLength rest.length) value := by
  have hlen : (wirePacket h rest).length = mqttLength rest.length := wirePacket_mqttLength (by omega)
  rw [henc]
  by_cases hfit : (wirePacket h rest).length ≤ buf.length
  · rw [if_pos hfit]
    refine ⟨⟨fun _ => hlen ▸ hfit, fun _ => rfl⟩, ?_⟩
    rintro bytes ⟨⟩
    refine ⟨hlen, hdec ?_⟩
    rw [wirePacket_length] at hfit
    omega
  · rw [if_neg hfit]
    refine ⟨⟨fun h => (Bool.false_ne_true h).elim, fun h => absurd (hlen ▸ h) hfit⟩, ?_⟩
    intro bytes h
    cases h

/-- The packets the broker and its bridge carry, in any buffer they can have. -/
theorem codec_roundTrips {buf : ByteStr} (hlo : 6 ≤ buf.length) (hhi : buf.length ≤ 4096) :
    (∀ m : Publish, m.header.msgType = .publish → m.header.qos ≤ 3 → m.msgId < 2 ^ 16 →
      m.topicName.length + m.payload.length < 2 ^ 31 →
      RoundTrips buf (Publish.encodeInto buf m) (fun bytes => (Publish.decode.decode bytes).map Publish.fields)
        (mqttLength (2 + m.topicName.length + 2 + m.payload.length)) m.fields) ∧
    (∀ (h : FixedHeader) (m : Subscribe), h.msgType = .subscribe → h.qos ≤ 3 → m.msgId < 2 ^ 16 →
      m.subTopics ≠ [] → (m.subTopics.map fun t => 2 + t.topicName.length + 1).sum < 2 ^ 31 →
      RoundTrips buf (Subscribe.encodeInto buf h m) Subscribe.decodeFull.decode
        (mqttLength (2 + (m.subTopics.map fun t => 2 + t.topicName.length + 1).sum)) (h, m)) ∧
    (∀ (h : FixedHeader) (code : UInt8), h.msgType = .connack → h.qos ≤ 3 →
      RoundTrips buf (ConnAck.encodeInto buf h code) ConnAck.decode.decode (mqttLength 2) (h, 0, code)) ∧
    ∀ (h : FixedHeader) (msgId : Nat), h.msgType = .puback → h.qos ≤ 3 → msgId < 2 ^ 16 →
      RoundTrips buf (PublishAck.encodeInto buf h msgId) PublishAck.decodeFull.decode (mqttLength 2)
        (h, msgId) := by
  refine ⟨?_, ?_, ?_, ?_⟩
  · intro m _ hqos hid hsize
    have hlen := m.body_length
    have hlen' : 2 + m.topicName.length + 2 + m.payload.length = m.body.length := by omega
    rw [hlen']
    exact roundTrips_wirePacket _ (by omega) hhi (Publish.encodeInto_eq hlo (by omega))
      (Publish.decode_wire hqos hid)
  · intro h m htype hqos hid hne hsize
    have hsum : (m.subTopics.map fun t => 2 + t.topicName.length + 1).sum =
        (m.subTopics.map fun t => t.topicName.length + 2 + 1).sum := by
      simp only [Nat.add_comm]
    have hlen := m.body_length
    have hlen' : 2 + (m.subTopics.map fun t => 2 + t.topicName.length + 1).sum = m.body.length := by omega
    rw [hlen']
    exact roundTrips_wirePacket _ (by omega) hhi (Subscribe.encodeInto_eq hlo hne (by omega))
      (Subscribe.decode_wire htype hqos hid)
  · intro h code htype hqos
    have hfit : (wirePacket h [0, code]).length ≤ buf.length := by
      rw [wirePacket_mqttLength (by simp)]
      exact Nat.le_trans (by simp [mqttLength, lengthBytes]) hlo
    have henc := ConnAck.encodeInto_eq h code hlo
    rw [← if_pos hfit (t := some (wirePacket h [0, code])) (e := none)] at henc
    exact roundTrips_wirePacket [0, code] (by simp) hhi henc fun _ => ConnAck.decode_wire htype hqos
  · intro h msgId htype hqos hid
    have hfit : (wirePacket h (short msgId)).length ≤ buf.length := by
      rw [wirePacket_mqttLength (by simp [short])]
      exact Nat.le_trans (by simp [mqttLength, lengthBytes, short]) hlo
    have henc := PublishAck.encodeInto_eq h msgId hlo
    rw [← if_pos hfit (t := some (wirePacket h (short msgId))) (e := none)] at henc
    exact roundTrips_wirePacket (short msgId) (by simp [short]) hhi henc fun _ => PublishAck.decode_wire htype hqos hid

/-- A retained PUBLISH of 15 bytes in a buffer of 64. -/
theorem publish_roundTrips_sixtyFour :
    RoundTrips (List.replicate 64 0)
      (Publish.encodeInto (List.replicate 64 0)
        { header := { msgType := .publish, qos := 1, retainFlag := true }, topicName := [97, 47, 98], msgId := 258,
          payload := [104, 101, 108, 108, 111, 33] })
      (fun bytes => (Publish.decode.decode bytes).map Publish.fields) 15
      ({ msgType := .publish, qos := 1, retainFlag := true }, [97, 47, 98], 258, [104, 101, 108, 108, 111, 33]) :=
  (codec_roundTrips (by decide) (by decide)).1
    { header := { msgType := .publish, qos := 1, retainFlag := true }, topicName := [97, 47, 98], msgId := 258,
      payload := [104, 101, 108, 108, 111, 33] } rfl (by decide) (by decide) (by decide)

end MqttServer
