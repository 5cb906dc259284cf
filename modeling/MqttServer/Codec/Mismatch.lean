import MqttServer.Codec.Grammar

/-!
# `Codec.Mismatch` — SUBACK and CONNECT, whose encoders and decoders do not agree

`CMqttSubAck::decode` takes everything behind the remaining length for return codes, the `msg_id` included, and counts it
in eight bits: what it gives back is never what was encoded (`subAck_never_roundTrips`).

`CMqttConnect::encode` announces the length of the whole packet and returns the length it has reached, without comparing
the two. A write that did not fit, or a client id whose length does not fit sixteen bits, gives a positive length and a
packet that cannot be read back (`connect_encode_faithful_iff`).
-/

namespace MqttServer

/-! ## SUBACK -/

/-- `CMqttSubAck` after its fixed header. -/
def SubAck.body (m : SubAck) : ByteStr := short m.msgId ++ m.subQos

theorem SubAck.body_length (m : SubAck) : m.body.length = m.subQos.length + 2 := by
  simp only [SubAck.body, short, List.length_append, List.length_cons, List.length_nil]
  omega

theorem writeCodes_emits (codes : List UInt8) (p : Pkt) :
    p.Emits codes (codes.foldl (fun p qos => p.writeByte qos) p) := by
  induction codes generalizing p with
  | nil =>
      refine ⟨rfl, id, fun _ => ?_⟩
      simp [Pkt.store]
  | cons code codes ih =>
      rw [List.foldl_cons]
      exact (Pkt.writeByte_emits p code).trans (ih _)

/-- **SUBACK** in a buffer that has room for it. -/
theorem SubAck.encodeInto_eq {buf : ByteStr} {h : FixedHeader} {m : SubAck} (hsize : m.body.length < 2 ^ 32)
    (hfit : (wirePacket h m.body).length ≤ buf.length) : SubAck.encodeInto buf h m = some (wirePacket h m.body) := by
  have hlen : (m.subQos.length + 2) % 2 ^ 32 = m.body.length := by
    rw [← m.body_length]
    exact Nat.mod_eq_of_lt hsize
  have hroom : 1 + (Pkt.lengthDigits 5 m.body.length).length ≤ buf.length := by
    rw [wirePacket_length] at hfit
    omega
  have hp := (Pkt.header_emits_of_le h m.body.length hroom).trans
    ((Pkt.writeShort_emits _ m.msgId).trans (writeCodes_emits m.subQos _))
  unfold SubAck.encodeInto
  simp only [hlen]
  rw [← wirePacket_length h]
  exact hp.finish.trans (if_pos hfit)

/-- The loop reads as many codes as it is told. -/
theorem readCodes_behind (codes : List UInt8) : ∀ (qos : UInt8) (w rest : ByteStr),
    readCodes codes.length qos (Pkt.behind w (codes ++ rest)) = (some codes, Pkt.behind (w ++ codes) rest) := by
  induction codes with
  | nil =>
      intro qos w rest
      rw [List.append_nil]
      rfl
  | cons code codes ih =>
      intro qos w rest
      have hbyte : PktM.readByteOver qos (Pkt.behind w (code :: codes ++ rest)) =
          (some code, Pkt.behind (w ++ [code]) (codes ++ rest)) := by
        unfold PktM.readByteOver
        rw [List.cons_append, PktM.readByte_behind]
        rfl
      rw [List.length_cons, readCodes]
      refine (PktM.bind_some hbyte).trans ?_
      refine (PktM.bind_some (ih code _ rest)).trans ?_
      rw [List.append_assoc]
      rfl

/-- **What the SUBACK decoder makes of a SUBACK.** -/
theorem SubAck.decode_wire {h : FixedHeader} {m : SubAck} (htype : h.msgType = .suback) (hqos : h.qos ≤ 3)
    (hsize : m.body.length < 268435456) (msgId : Nat) : (SubAck.decode msgId).decode (wirePacket h m.body) =
      some { msgId, subQos := m.body.take (m.body.length % 256) } := by
  have hne : m.body ≠ [] := by
    refine List.ne_nil_of_length_pos ?_
    rw [m.body_length]
    omega
  have hcount : ∀ w, PktM.leftSizeByte (Pkt.behind w m.body) =
      (some (m.body.take (m.body.length % 256)).length, Pkt.behind w m.body) := by
    intro w
    unfold PktM.leftSizeByte
    have hmod : ((m.body.length : Int) % 256).toNat = m.body.length % 256 := by omega
    rw [PktM.leftSize_behind, hmod, List.length_take, Nat.min_eq_left (Nat.mod_le _ _)]
  have hcodes : ∀ w, readCodes (m.body.take (m.body.length % 256)).length 0 (Pkt.behind w m.body) =
      (some (m.body.take (m.body.length % 256)),
        Pkt.behind (w ++ m.body.take (m.body.length % 256)) (m.body.drop (m.body.length % 256))) := by
    intro w
    rw [← readCodes_behind, List.take_append_drop]
  unfold PktM.decode SubAck.decode
  rw [PktM.bind_some (decodeHeader_wirePacket hqos hne hsize), if_neg (not_not.mpr htype)]
  rw [PktM.bind_some (hcount _), PktM.bind_some (hcodes _)]
  rfl

/-- **No SUBACK is read back**: the list has the wrong length, whatever its length is. -/
theorem subAck_never_roundTrips {buf : ByteStr} {h : FixedHeader} {m : SubAck} (htype : h.msgType = .suback)
    (hqos : h.qos ≤ 3) (hlen : m.subQos.length + 2 < 16384) (hfit : mqttLength (m.subQos.length + 2) ≤ buf.length)
    (msgId : Nat) : ∃ bytes, SubAck.encodeInto buf h m = some bytes ∧ (SubAck.decode msgId).decode bytes ≠ some m := by
  have hbody := m.body_length
  have hwire : (wirePacket h m.body).length ≤ buf.length := by
    rw [wirePacket_mqttLength (by omega), hbody]
    exact hfit
  refine ⟨wirePacket h m.body, SubAck.encodeInto_eq (by omega) hwire, ?_⟩
  rw [SubAck.decode_wire htype hqos (by omega)]
  intro heq
  -- the lengths differ by two modulo 256
  have hcodes : (m.body.take (m.body.length % 256)).length = m.subQos.length :=
    congrArg (fun m' => m'.subQos.length) (Option.some.inj heq)
  rw [List.length_take] at hcodes
  omega

/-- The acknowledgement of one topic, in the broker's buffer. -/
theorem subAck_never_roundTrips_one : ∃ bytes, SubAck.encodeInto (List.replicate 64 0) { msgType := .suback }
    { msgId := 1, subQos := [1] } = some bytes ∧ (SubAck.decode 0).decode bytes ≠ some { msgId := 1, subQos := [1] } :=
  subAck_never_roundTrips rfl (by decide) (by decide) (by decide) 0

/-- It comes back with the identifier among its codes. -/
theorem subAck_misread : SubAck.encodeInto (List.replicate 64 0) { msgType := .suback } { msgId := 1, subQos := [1] } =
      some [0x90, 3, 0, 1, 1] ∧
    (SubAck.decode 0).decode [0x90, 3, 0, 1, 1] = some { msgId := 0, subQos := [0, 1, 1] } ∧
    ¬ ∀ msgId bytes, SubAck.encodeInto (List.replicate 64 0) { msgType := .suback } { msgId := 1, subQos := [1] } =
      some bytes → (SubAck.decode msgId).decode bytes = some { msgId := 1, subQos := [1] } := by
  have henc : SubAck.encodeInto (List.replicate 64 0) { msgType := .suback } { msgId := 1, subQos := [1] } =
      some [0x90, 3, 0, 1, 1] := by decide +kernel
  have hdec : (SubAck.decode 0).decode [0x90, 3, 0, 1, 1] = some { msgId := 0, subQos := [0, 1, 1] } := by
    decide +kernel
  refine ⟨henc, hdec, fun hall => ?_⟩
  exact absurd (hdec.symm.trans (hall 0 _ henc)) (by decide)

/-! ## CONNECT

### Writing -/

namespace Pkt

/-- What any sequence of bounded writes does: it leaves what is behind the cursor, and does not take the cursor out of the
    buffer. -/
structure Adds (p p' : Pkt) : Prop where
  size : p'.buf.length = p.buf.length
  ahead : p.offset ≤ p'.offset
  bounded : p'.offset ≤ max p.offset p.buf.length
  behind : ∀ i < p.offset, p'.buf.getD i 0 = p.buf.getD i 0

namespace Adds

variable {p p₁ p' : Pkt}

theorem refl (p : Pkt) : Adds p p := ⟨rfl, Nat.le_refl _, Nat.le_max_left _ _, fun _ _ => rfl⟩

theorem trans (h : Adds p p₁) (h' : Adds p₁ p') : Adds p p' := by
  have hsize := h.size
  have hbounded := h.bounded
  have hbounded' := h'.bounded
  refine ⟨h'.size.trans h.size, h.ahead.trans h'.ahead, by omega, ?_⟩
  intro i hi
  rw [h'.behind i (Nat.lt_of_lt_of_le hi h.ahead), h.behind i hi]

/-- A write that is made when it fits. -/
theorem ite (p : Pkt) (bytes : ByteStr) :
    Adds p (if p.leftSize < bytes.length then p
      else { buf := store p.buf p.offset bytes, offset := p.offset + bytes.length }) := by
  unfold leftSize
  split
  · exact refl p
  · have hfit : p.offset + bytes.length ≤ p.buf.length := by omega
    refine ⟨store_length hfit, Nat.le_add_right _ _, hfit.trans (Nat.le_max_right _ _), ?_⟩
    intro i hi
    have htake : i < (p.buf.take p.offset).length := by
      rw [List.length_take]
      omega
    show (store p.buf p.offset bytes).getD i 0 = _
    unfold store
    rw [List.append_assoc, List.getD_append _ _ _ _ htake, List.getD_eq_getElem?_getD, List.getElem?_take_of_lt hi,
      List.getD_eq_getElem?_getD]

end Adds

theorem writeByte_adds (p : Pkt) (v : UInt8) : Adds p (p.writeByte v) := by
  have h := Adds.ite p [v]
  unfold writeByte
  by_cases hl : p.leftSize < 1
  · rw [if_pos hl]
    exact Adds.refl p
  · rw [if_neg hl]
    rw [if_neg (by simpa using hl)] at h
    have hlt : p.offset < p.buf.length := by
      unfold leftSize at hl
      omega
    rw [List.set_eq_take_append_cons_drop, if_pos hlt]
    simpa [store] using h

theorem writeShort_adds (p : Pkt) (n : Nat) : Adds p (p.writeShort n) := Adds.ite p (short n)

theorem writeString_adds (p : Pkt) (bytes : ByteStr) : Adds p (p.writeString bytes) := by
  unfold writeString
  split
  · exact Adds.refl p
  · exact (writeShort_adds p _).trans (Adds.ite _ bytes)

end Pkt

/-! ### Reading -/

namespace PktM

variable {α β : Type} {p p' : Pkt}

theorem of_bind {x : PktM α} {f : α → PktM β} {b : β} (h : (x >>= f) p = (some b, p')) :
    ∃ a p₁, x p = (some a, p₁) ∧ f a p₁ = (some b, p') := by
  match hx : x p with
  | (some a, p₁) =>
      rw [bind_some hx] at h
      exact ⟨a, p₁, rfl, h⟩
  | (none, p₁) =>
      rw [bind_none hx] at h
      cases h

/-- So many bytes were taken, and they were there. -/
def Takes (n : Nat) (p p' : Pkt) : Prop := p'.buf = p.buf ∧ p'.offset = p.offset + n ∧ p'.offset ≤ p'.buf.length

theorem Takes.trans {m n : Nat} {p₁ : Pkt} (h : Takes m p p₁) (h' : Takes n p₁ p') : Takes (m + n) p p' := by
  obtain ⟨hbuf, hoffset, -⟩ := h
  obtain ⟨hbuf', hoffset', hle⟩ := h'
  refine ⟨hbuf'.trans hbuf, ?_, hle⟩
  omega

theorem readByte_takes {v : UInt8} (h : readByte p = (some v, p')) : Takes 1 p p' := by
  unfold readByte Pkt.leftSize at h
  split at h
  · cases h
  · cases h
    exact ⟨rfl, rfl, by simp only [Pkt.advance]; omega⟩

theorem readShort_takes {n : Nat} (h : readShort p = (some n, p')) : n < 65536 ∧ Takes 2 p p' := by
  unfold readShort Pkt.leftSize at h
  split at h
  · cases h
  · cases h
    have hhi := (p.byteAt p.offset).toNat_lt
    have hlo := (p.byteAt (p.offset + 1)).toNat_lt
    refine ⟨by omega, rfl, rfl, ?_⟩
    simp only [Pkt.advance]
    omega

theorem readString_takes {s : ByteStr} (h : readString p = (some s, p')) :
    s.length < 65536 ∧ Takes (2 + s.length) p p' := by
  obtain ⟨n, p₁, hshort, h⟩ := of_bind h
  obtain ⟨hn, htakes⟩ := readShort_takes hshort
  have hstr : (if p₁.leftSize < n then (none, p₁) else (some (p₁.here n), p₁.advance n)) = (some s, p') := h
  unfold Pkt.leftSize at hstr
  split at hstr
  · cases hstr
  · cases hstr
    have hlen : (p₁.here n).length = n := by
      simp only [Pkt.here, List.length_take, List.length_drop]
      omega
    rw [hlen]
    refine ⟨hn, htakes.trans ⟨rfl, rfl, ?_⟩⟩
    simp only [Pkt.advance]
    omega

theorem readRemainLength_takes {v k : Nat} (h : readRemainLength p = (some (v, k), p')) :
    remainLength p.byteAt p.buf.length = .length v k ∧ p' = p.advance k := by
  unfold readRemainLength at h
  split at h
  · cases h
  · split at h
    · rename_i hlen
      cases h
      exact ⟨hlen, rfl⟩
    · cases h

end PktM

/-- **What a CONNECT that was decoded is long.** -/
theorem Connect.decode_takes {bytes : ByteStr} {c : Connect} (h : Connect.decode.decode bytes = some c) :
    ∃ v k, remainLength (Pkt.ofBuf bytes).byteAt bytes.length = .length v k ∧ c.clientId.length < 65536 ∧
      1 + k + (2 + c.protoName.length) + 1 + 1 + 2 + (2 + c.clientId.length) ≤ bytes.length := by
  have hfull : Connect.decode (Pkt.ofBuf bytes) = (some c, (Connect.decode (Pkt.ofBuf bytes)).2) := Prod.ext h rfl
  obtain ⟨header, p₂, hheader, hrest⟩ := PktM.of_bind hfull
  obtain ⟨first, p₁, hfirst, hheader⟩ := PktM.of_bind hheader
  obtain ⟨⟨v, k⟩, p₂', hlength, hheader⟩ := PktM.of_bind hheader
  cases hheader
  split at hrest
  · cases hrest
  · obtain ⟨proto, p₃, hproto, hrest⟩ := PktM.of_bind hrest
    obtain ⟨version, p₄, hversion, hrest⟩ := PktM.of_bind hrest
    obtain ⟨flag, p₅, hflag, hrest⟩ := PktM.of_bind hrest
    obtain ⟨keep, p₆, hkeep, hrest⟩ := PktM.of_bind hrest
    obtain ⟨clientId, p₇, hid, hrest⟩ := PktM.of_bind hrest
    obtain ⟨_, _, _, hrest⟩ := PktM.of_bind hrest
    obtain ⟨_, _, _, hrest⟩ := PktM.of_bind hrest
    obtain ⟨_, _, _, hrest⟩ := PktM.of_bind hrest
    obtain ⟨_, _, _, hrest⟩ := PktM.of_bind hrest
    cases hrest
    obtain ⟨hbuf, hoffset, -⟩ := PktM.readByte_takes hfirst
    obtain ⟨hlen, rfl⟩ := PktM.readRemainLength_takes hlength
    obtain ⟨hshort, htakes⟩ := PktM.readString_takes hid
    obtain ⟨hbuf', hoffset', hle⟩ := ((((PktM.readString_takes hproto).2.trans (PktM.readByte_takes hversion)).trans
      (PktM.readByte_takes hflag)).trans (PktM.readShort_takes hkeep).2).trans htakes
    have hmem : p₁.byteAt = (Pkt.ofBuf bytes).byteAt := by
      unfold Pkt.byteAt
      rw [hbuf]
    rw [hmem, hbuf] at hlen
    refine ⟨v, k, hlen, hshort, ?_⟩
    have hsize : p₇.buf.length = bytes.length := congrArg List.length (hbuf'.trans hbuf)
    have hfrom : (p₁.advance k).offset = 1 + k := congrArg (· + k) hoffset
    show 1 + k + (2 + proto.length) + 1 + 1 + 2 + (2 + clientId.length) ≤ bytes.length
    omega

/-! ### The packet -/

/-- The CONNECT of a client after its fixed header. -/
def connectBody (clientId : ByteStr) (cleanSession : Bool) : ByteStr :=
  shortString mqIsdp ++ [3] ++ [UInt8.ofNat (cleanSession.toNat * 2)] ++ (short 60 ++ shortString clientId)

theorem connectBody_length (clientId : ByteStr) (cleanSession : Bool) :
    (connectBody clientId cleanSession).length = 14 + clientId.length := by
  simp only [connectBody, shortString, short, mqIsdp, List.length_append, List.length_cons, List.length_nil]
  omega

/-- Behind the length the name, the version, the flags, the keep-alive and the id are written in turn. -/
theorem Connect.encodeInto_eq (buf : ByteStr) (h : FixedHeader) (clientId : ByteStr) (cleanSession : Bool) : ∃ p,
    ((encodeHeaderInto buf h).writeRemainLength ((14 + clientId.length) % 2 ^ 32)).Emits
      (connectBody clientId cleanSession) p ∧
    ((encodeHeaderInto buf h).writeRemainLength ((14 + clientId.length) % 2 ^ 32)).Adds p ∧
    Connect.encodeInto buf h clientId cleanSession = (p.offset, p.buf) := by
  have hlen : 2 + mqIsdp.length + 1 + 1 + 2 + (2 + clientId.length) = 14 + clientId.length := by
    have hname : mqIsdp.length = 6 := rfl
    omega
  unfold Connect.encodeInto
  rw [hlen]
  refine ⟨_, ?_, ?_, rfl⟩
  · exact (((Pkt.writeString_emits _ mqIsdp).trans (Pkt.writeByte_emits _ 3)).trans (Pkt.writeByte_emits _ _)).trans
      ((Pkt.writeShort_emits _ 60).trans (Pkt.writeString_emits _ clientId))
  · exact (((Pkt.writeString_adds _ mqIsdp).trans (Pkt.writeByte_adds _ 3)).trans (Pkt.writeByte_adds _ _)).trans
      ((Pkt.writeShort_adds _ 60).trans (Pkt.writeString_adds _ clientId))

/-- The decoder on a CONNECT that is whole. -/
theorem Connect.decode_wire {h : FixedHeader} {clientId : ByteStr} {cleanSession : Bool} (htype : h.msgType = .connect)
    (hqos : h.qos ≤ 3) (hid : clientId.length < 65536) :
    Connect.decode.decode (wirePacket h (connectBody clientId cleanSession)) =
      some { protoName := mqIsdp, protoVersion := 3, cleanSession, keepAlive := 60, clientId
             willTopic := [], willMessage := [], userName := [], password := [] } := by
  have hlen := connectBody_length clientId cleanSession
  have hne : connectBody clientId cleanSession ≠ [] := by
    refine List.ne_nil_of_length_pos ?_
    omega
  have hread : ∀ w, PktM.readString (Pkt.behind w (shortString clientId)) =
      (some clientId, Pkt.behind (w ++ shortString clientId) []) := by
    intro w
    rw [← PktM.readString_behind hid, List.append_nil]
  have hclean : (UInt8.ofNat (cleanSession.toNat * 2)).toNat = cleanSession.toNat * 2 := by
    cases cleanSession <;> rfl
  unfold PktM.decode Connect.decode
  rw [PktM.bind_some (decodeHeader_wirePacket hqos hne (by omega)), if_neg (not_not.mpr htype)]
  unfold connectBody
  rw [List.append_assoc, List.append_assoc, PktM.bind_some (PktM.readString_behind (by decide))]
  rw [List.singleton_append, PktM.bind_some (PktM.readByte_behind _)]
  rw [List.singleton_append, PktM.bind_some (PktM.readByte_behind _)]
  rw [PktM.bind_some (PktM.readShort_behind (by decide)), PktM.bind_some (hread _)]
  cases cleanSession <;> rfl

/-- **Never a broken packet**: a positive length is that of a CONNECT which gives the fields back. -/
def EncodesFaithfully (buf clientId : ByteStr) (cleanSession : Bool) : Prop :=
  0 < (Connect.encodeInto buf { msgType := .connect } clientId cleanSession).1 →
    ∃ c, Connect.decode.decode ((Connect.encodeInto buf { msgType := .connect } clientId cleanSession).2.take
        (Connect.encodeInto buf { msgType := .connect } clientId cleanSession).1) = some c ∧
      c.clientId = clientId ∧ c.cleanSession = cleanSession ∧ c.protoName = mqIsdp ∧ c.protoVersion = 3 ∧
      c.keepAlive = 60

theorem lengthField_last {n : Nat} (h : n < 128) : LengthField [UInt8.ofNat n] n := by
  have hlast := LengthField.last (b := UInt8.ofNat n) (by rw [toNat_last h]; exact h)
  rwa [toNat_last h] at hlast

/-- A length of up to four digits is a remaining length as MQTT has it. -/
theorem lengthField_digits (k : Nat) : ∀ fuel n, n < 128 ^ (k + 1) → k < fuel → k ≤ 3 →
    LengthField (Pkt.lengthDigits fuel n) n ∧ (Pkt.lengthDigits fuel n).length ≤ k + 1 := by
  have hone : ∀ n, ¬ n / 128 > 0 → LengthField [UInt8.ofNat (n % 128)] n := by
    intro n hn
    have hlt : n < 128 := by omega
    rw [Nat.mod_eq_of_lt hlt]
    exact lengthField_last hlt
  induction k with
  | zero =>
      intro fuel n hn hfuel _
      obtain ⟨fuel, rfl⟩ := Nat.exists_eq_add_of_lt hfuel
      have hdiv : ¬ n / 128 > 0 := by omega
      rw [Nat.zero_add, Pkt.lengthDigits, if_neg hdiv]
      exact ⟨hone n hdiv, Nat.le_refl 1⟩
  | succ k ih =>
      intro fuel n hn hfuel hk
      obtain ⟨fuel, rfl⟩ := Nat.exists_eq_add_of_le' (Nat.succ_le_of_lt (Nat.lt_of_le_of_lt (Nat.zero_le _) hfuel))
      rw [Pkt.lengthDigits]
      by_cases hdiv : n / 128 > 0
      · rw [if_pos hdiv]
        have hlt : n / 128 < 128 ^ (k + 1) := by
          refine Nat.div_lt_of_lt_mul ?_
          rwa [Nat.pow_succ, Nat.mul_comm] at hn
        obtain ⟨hrest, hlen⟩ := ih fuel (n / 128) hlt (by omega) (by omega)
        have hdigit := toNat_digit (Nat.mod_lt n (by decide : 128 > 0))
        have hmore := LengthField.more (b := UInt8.ofNat (n % 128 + 128)) (by omega) (by omega) hrest
        have hvalue : (UInt8.ofNat (n % 128 + 128)).toNat % 128 + 128 * (n / 128) = n := by omega
        rw [hvalue] at hmore
        exact ⟨hmore, Nat.succ_le_succ hlen⟩
      · rw [if_neg hdiv]
        exact ⟨hone n hdiv, Nat.succ_le_succ (Nat.zero_le _)⟩

/-- The scan of a length that was written ends behind its digits, wherever the packet is cut. -/
theorem remainLength_digits_bytes {mem : Nat → UInt8} {ds : ByteStr} {n len v k : Nat} (hds : LengthField ds n)
    (hmem : ∀ i < ds.length, mem (1 + i) = ds.getD i 0) (h : remainLength mem len = .length v k) : k = ds.length := by
  have hpos := hds.length_pos
  obtain ⟨u, hscan, -⟩ := scanLength_field mem hds maxRemainLengthBytes 0 0 hds.length_le (by simpa using hmem)
  unfold remainLength at h
  rw [hscan] at h
  simp only at h
  split at h
  · cases h
  · cases h
    omega

/-- Where the header and the length leave the cursor, in a buffer of any size. -/
theorem Pkt.header_offset (buf : ByteStr) (h : FixedHeader) (n : Nat) :
    (lengthDigits 5 n).length ≤ ((encodeHeaderInto buf h).writeRemainLength n).offset ∧
      ((encodeHeaderInto buf h).writeRemainLength n).offset ≤ 1 + (lengthDigits 5 n).length ∧
      ((encodeHeaderInto buf h).writeRemainLength n).buf.length ≤ max (1 + (lengthDigits 5 n).length) buf.length := by
  have hbyte : Emits (ofBuf buf) [h.encode] (encodeHeaderInto buf h) := writeByte_emits _ _
  have hsize : (encodeHeaderInto buf h).buf.length = buf.length := hbyte.size
  have hoffset : (encodeHeaderInto buf h).offset ≤ 1 := by
    unfold encodeHeaderInto writeByte
    split
    · exact Nat.zero_le 1
    · exact Nat.le_refl 1
  refine ⟨Nat.le_add_left _ _, Nat.add_le_add_right hoffset _, ?_⟩
  show (store _ (encodeHeaderInto buf h).offset (lengthDigits 5 n)).length ≤ _
  simp only [store, List.length_append, List.length_take, List.length_drop, hsize]
  omega

/-- The length stays where it was written, and is found there in any prefix that has it. -/
theorem Pkt.header_kept {buf : ByteStr} {h : FixedHeader} {n i m : Nat} {p : Pkt}
    (hroom : 1 + (lengthDigits 5 n).length ≤ buf.length)
    (hadds : ((encodeHeaderInto buf h).writeRemainLength n).Adds p) (hi : i < (lengthDigits 5 n).length) (hm : 1 + i < m) :
    (p.buf.take m).getD (1 + i) 0 = (lengthDigits 5 n).getD i 0 := by
  have hstart := (header_emits_of_le h n hroom).fits (by show 0 + (_ + 1) ≤ buf.length; omega)
  rw [hstart] at hadds
  have hbehind := hadds.behind (1 + i) (by simp only [List.length_cons]; omega)
  rw [List.getD_eq_getElem?_getD, List.getElem?_take_of_lt hm, ← List.getD_eq_getElem?_getD, hbehind]
  show (store buf 0 (_ :: _)).getD (1 + i) 0 = _
  rw [store, List.take_zero, List.nil_append, Nat.add_comm 1 i, List.cons_append, List.getD_cons_succ,
    List.getD_append _ _ _ _ hi]

/-- **When CONNECT is encoded faithfully**: the length of the id fits sixteen bits, and the packet fits the buffer. -/
theorem connect_encode_faithful_iff (buf clientId : ByteStr) (cleanSession : Bool) :
    EncodesFaithfully buf clientId cleanSession ↔
      clientId.length < 65536 ∧ mqttLength (14 + clientId.length) ≤ buf.length := by
  obtain ⟨p, hemits, hadds, henc⟩ := Connect.encodeInto_eq buf { msgType := .connect } clientId cleanSession
  unfold EncodesFaithfully
  rw [henc]
  constructor
  · intro h
    obtain ⟨hlo, hhi, hsize⟩ := Pkt.header_offset buf { msgType := .connect } ((14 + clientId.length) % 2 ^ 32)
    have hdigits : 0 < (Pkt.lengthDigits 5 ((14 + clientId.length) % 2 ^ 32)).length := by
      unfold Pkt.lengthDigits
      split <;> simp
    have hahead := hadds.ahead
    have hbounded := hadds.bounded
    obtain ⟨c, hdec, hcid, -, hproto, -⟩ := h (by show 0 < p.offset; omega)
    obtain ⟨v, k, hlength, hid, htotal⟩ := Connect.decode_takes hdec
    have hsix : mqIsdp.length = 6 := rfl
    rw [hcid] at hid
    rw [hcid, hproto, hsix, List.length_take] at htotal
    rw [Nat.mod_eq_of_lt (by omega)] at hlo hhi hsize hahead hbounded hadds
    obtain ⟨hfield, hthree⟩ := lengthField_digits 2 5 (14 + clientId.length) (by omega) (by decide) (by decide)
    refine ⟨hid, ?_⟩
    rw [mqttLength, ← lengthDigits_lengthBytes (by omega)]
    -- a buffer without room for the length is not even used for the rest
    have hroom : 1 + (Pkt.lengthDigits 5 (14 + clientId.length)).length ≤ buf.length := by omega
    have hk : k = (Pkt.lengthDigits 5 (14 + clientId.length)).length := by
      refine remainLength_digits_bytes hfield (fun i hi => ?_) hlength
      exact Pkt.header_kept hroom hadds hi (by show 1 + i < p.offset; omega)
    omega
  · rintro ⟨hid, hfit⟩ _
    have hlen := connectBody_length clientId cleanSession
    have hwire : (wirePacket { msgType := .connect } (connectBody clientId cleanSession)).length ≤ buf.length := by
      rw [wirePacket_mqttLength (by omega), hlen]
      exact hfit
    have hroom : 1 + (Pkt.lengthDigits 5 (14 + clientId.length)).length ≤ buf.length := by
      rw [wirePacket_length, hlen] at hwire
      omega
    rw [Nat.mod_eq_of_lt (by omega), ← hlen] at hemits
    rw [← hlen] at hroom
    have hp : (Pkt.ofBuf buf).Emits (wirePacket { msgType := .connect } (connectBody clientId cleanSession)) p :=
      (Pkt.header_emits_of_le { msgType := .connect } _ hroom).trans hemits
    have hfinish := hp.finish
    rw [if_pos hwire] at hfinish
    unfold Pkt.finish at hfinish
    split at hfinish
    · rename_i hoffset
      have hdec : Connect.decode.decode (wirePacket { msgType := .connect } (connectBody clientId cleanSession)) = _ :=
        Connect.decode_wire rfl (by decide) hid
      rw [hoffset, Option.some.inj hfinish]
      exact ⟨_, hdec, rfl, rfl, rfl, rfl, rfl⟩
    · cases hfinish

/-- An id of five bytes in a buffer of twenty: the id is not written, and the length up to it is returned. -/
theorem connect_encode_broken : Connect.encodeInto (List.replicate 20 0) { msgType := .connect } [97, 98, 99, 100, 101] true =
      (16, [0x10, 19, 0, 6, 77, 81, 73, 115, 100, 112, 3, 2, 0, 60, 0, 5, 0, 0, 0, 0]) ∧
    Connect.decode.decode [0x10, 19, 0, 6, 77, 81, 73, 115, 100, 112, 3, 2, 0, 60, 0, 5] = none ∧
    ¬ EncodesFaithfully (List.replicate 20 0) [97, 98, 99, 100, 101] true := by
  have henc : Connect.encodeInto (List.replicate 20 0) { msgType := .connect } [97, 98, 99, 100, 101] true =
      (16, [0x10, 19, 0, 6, 77, 81, 73, 115, 100, 112, 3, 2, 0, 60, 0, 5, 0, 0, 0, 0]) := by decide +kernel
  have hdec : Connect.decode.decode [0x10, 19, 0, 6, 77, 81, 73, 115, 100, 112, 3, 2, 0, 60, 0, 5] = none := by
    decide +kernel
  refine ⟨henc, hdec, fun h => ?_⟩
  unfold EncodesFaithfully at h
  rw [henc] at h
  obtain ⟨c, hc, -⟩ := h (by decide)
  have hbroken : Connect.decode.decode [0x10, 19, 0, 6, 77, 81, 73, 115, 100, 112, 3, 2, 0, 60, 0, 5] = some c := hc
  rw [hdec] at hbroken
  cases hbroken

end MqttServer
