import MqttServer.Codec.Ansi

/-!
# `Codec.Agreement` — where the decoders in C and in C++ agree

On the packets of MQTT 3.1 (`Packet`) the decoders in C++ give the fields back. Those in C differ in three ways: a length of two
bytes is read with its digits exchanged, the two strings of a will are taken for each other, and a string ends at its first NUL.
`decoders_agree_iff` says which packets come through all the same.
-/

namespace MqttServer
namespace Ansi

/-! ## Packets -/

/-- A string that is there under a flag. -/
def stringIf (flag : Bool) (s : ByteStr) : ByteStr := if flag then shortString s else []

/-- What a CONNECT of version 3 carries behind its name and version. -/
structure ConnectFields where
  flags : UInt8
  keepAlive : Nat
  clientId : ByteStr
  willTopic : ByteStr
  willMessage : ByteStr
  userName : ByteStr
  password : ByteStr
deriving DecidableEq, Repr

namespace ConnectFields

variable (c : ConnectFields)

/-- The strings behind the client id: will topic and will message, user name, password, each if the flags say so. -/
def strings : ByteStr :=
  stringIf (willBit c.flags) c.willTopic ++ (stringIf (willBit c.flags) c.willMessage ++
    (stringIf (usernameBit c.flags) c.userName ++ stringIf (passwordBit c.flags) c.password))

/-- A CONNECT behind its header. -/
def body : ByteStr :=
  shortString mqIsdp ++ (3 :: c.flags :: (short c.keepAlive ++ (shortString c.clientId ++ c.strings)))

end ConnectFields

/-- A packet of one of the three kinds. -/
inductive Packet where
  | publish (m : Publish)
  | connect (h : FixedHeader) (c : ConnectFields)
  | subscribe (h : FixedHeader) (m : Subscribe)

namespace Packet

/-- The packet behind its header. -/
def body : Packet → ByteStr
  | publish m => m.body
  | connect _ c => c.body
  | subscribe _ m => m.body

/-- The fixed header. -/
def header : Packet → FixedHeader
  | publish m => m.header
  | connect h _ => h
  | subscribe h _ => h

/-- The packet as MQTT 3.1 encodes it. -/
def bytes (p : Packet) : ByteStr := wirePacket p.header p.body

/-- A PUBLISH with QoS above zero, a CONNECT, or a SUBSCRIBE of at most five topics with QoS up to two. -/
def Valid : Packet → Prop
  | publish m => m.header.msgType = .publish ∧ 0 < m.header.qos ∧ m.header.qos ≤ 3 ∧ m.msgId < 65536
  | connect h c => h.msgType = .connect ∧ h.qos ≤ 3 ∧ c.keepAlive < 65536
  | subscribe h m => h.msgType = .subscribe ∧ h.qos ≤ 3 ∧ m.msgId < 65536 ∧ m.subTopics.length ≤ maxTopicNum ∧
      ∀ t ∈ m.subTopics, t.qos.toNat ≤ 2

instance : (p : Packet) → Decidable p.Valid
  | publish m => inferInstanceAs (Decidable (m.header.msgType = .publish ∧ 0 < m.header.qos ∧ m.header.qos ≤ 3 ∧
      m.msgId < 65536))
  | connect h c => inferInstanceAs (Decidable (h.msgType = .connect ∧ h.qos ≤ 3 ∧ c.keepAlive < 65536))
  | subscribe h m => inferInstanceAs (Decidable (h.msgType = .subscribe ∧ h.qos ≤ 3 ∧ m.msgId < 65536 ∧
      m.subTopics.length ≤ maxTopicNum ∧ ∀ t ∈ m.subTopics, t.qos.toNat ≤ 2))

/-- Both decoders accept the packet and give the same fields. -/
def Agree (p : Packet) : Prop :=
  match p with
  | publish _ => ∃ n c m, mqttDecPublish p.bytes = .ok (n, c) ∧ Publish.decode.decode p.bytes = some m ∧
      charPtr c.topicName = m.topicName ∧ c.msgId = m.msgId ∧ c.payloadLen = m.payload.length ∧
      c.payload.map (·.take m.payload.length) = some m.payload
  | connect _ _ => ∃ n c flags m, mqttDecConnect p.bytes = .ok (n, c) ∧
      Connect.decodeFull.decode p.bytes = some (flags, m) ∧
      charPtr c.protocolName = m.protoName ∧ c.protocolVer.toNat = m.protoVersion ∧ ConnectFlags.ofByte c.flags = flags ∧
      c.keepAliveTimer = m.keepAlive ∧ charPtr c.clientId = m.clientId ∧ charPtr c.willTopic = m.willTopic ∧
      charPtr c.willMsg = m.willMessage ∧ charPtr c.userName = m.userName ∧ charPtr c.userPasswd = m.password
  | subscribe _ _ => ∃ n c m, mqttDecSubscribe p.bytes true = .ok (n, c) ∧ Subscribe.decode.decode p.bytes = some m ∧
      c.msgId = m.msgId ∧
      c.topics.map (fun t => (charPtr t.topicName, t.topicQos)) = m.subTopics.map fun t => (t.topicName, t.qos.toNat)

end Packet

/-! ## The condition -/

/-- A length of two digits with its digits exchanged; a length of one digit is not changed. -/
def exchanged (n : Nat) : Nat := if n < 128 then n else 128 * (n % 128) + n / 128

/-- No NUL among the bytes. -/
def NoNul (s : ByteStr) : Prop := 0 ∉ s

instance (s : ByteStr) : Decidable (NoNul s) := inferInstanceAs (Decidable (0 ∉ s))

/-- No NUL among the bytes of a string that is there. -/
def NoNulIf (flag : Bool) (s : ByteStr) : Prop := flag = true → NoNul s

instance (flag : Bool) (s : ByteStr) : Decidable (NoNulIf flag s) := inferInstanceAs (Decidable (flag = true → NoNul s))

/-- Where the last topic of a SUBSCRIBE begins. -/
def lastTopic (m : Subscribe) : Nat := 2 + (m.subTopics.dropLast.flatMap Topic.wire).length

/-- What the packet has to be like: its length does not change when its digits are exchanged (for a SUBSCRIBE, it does not grow
    and still reaches to the last topic), the strings of a will are equal, and there is no NUL in a string. -/
def Packet.Plain : Packet → Prop
  | .publish m => exchanged m.body.length = m.body.length ∧ NoNul m.topicName
  | .connect _ c => exchanged c.body.length = c.body.length ∧ NoNul c.clientId ∧
      (willBit c.flags = true → c.willTopic = c.willMessage) ∧ NoNulIf (willBit c.flags) c.willTopic ∧
      NoNulIf (usernameBit c.flags) c.userName ∧ NoNulIf (passwordBit c.flags) c.password
  | .subscribe _ m => exchanged m.body.length ≤ m.body.length ∧
      (m.subTopics ≠ [] → lastTopic m < exchanged m.body.length) ∧ ∀ t ∈ m.subTopics, NoNul t.topicName

instance : (p : Packet) → Decidable p.Plain
  | .publish m => inferInstanceAs (Decidable (exchanged m.body.length = m.body.length ∧ NoNul m.topicName))
  | .connect _ c => inferInstanceAs (Decidable (exchanged c.body.length = c.body.length ∧ NoNul c.clientId ∧
      (willBit c.flags = true → c.willTopic = c.willMessage) ∧ NoNulIf (willBit c.flags) c.willTopic ∧
      NoNulIf (usernameBit c.flags) c.userName ∧ NoNulIf (passwordBit c.flags) c.password))
  | .subscribe _ m => inferInstanceAs (Decidable (exchanged m.body.length ≤ m.body.length ∧
      (m.subTopics ≠ [] → lastTopic m < exchanged m.body.length) ∧ ∀ t ∈ m.subTopics, NoNul t.topicName))

/-! ## Strings with a NUL behind them -/

theorem charPtr_new (s : ByteStr) : charPtr (some (s ++ [0])) = s.takeWhile (· ≠ 0) := by
  show (s ++ [0]).takeWhile (· ≠ 0) = _
  induction s with
  | nil => rfl
  | cons b s ih =>
      rw [List.cons_append, List.takeWhile_cons, List.takeWhile_cons, ih]

theorem takeWhile_eq_self {s : ByteStr} : s.takeWhile (· ≠ 0) = s ↔ NoNul s := by
  rw [List.takeWhile_eq_self_iff]
  constructor
  · intro h hmem
    exact absurd (h 0 hmem) (by decide)
  · intro h b hb
    refine decide_eq_true ?_
    rintro rfl
    exact h hb

theorem noNul_takeWhile (s : ByteStr) : NoNul (s.takeWhile (· ≠ 0)) := by
  intro hmem
  exact absurd (List.mem_takeWhile_imp hmem) (by decide)

theorem charPtr_eq {s : ByteStr} : charPtr (some (s ++ [0])) = s ↔ NoNul s := by
  rw [charPtr_new, takeWhile_eq_self]

/-- A string under a flag, as each of the two gives it. -/
theorem charPtr_if (flag : Bool) (s : ByteStr) :
    charPtr (if flag then some (s ++ [0]) else none) = (if flag then s else []) ↔ NoNulIf flag s := by
  cases flag with
  | false => exact ⟨fun _ h => absurd h Bool.false_ne_true, fun _ => rfl⟩
  | true => exact charPtr_eq.trans ⟨fun h _ => h, fun h => h rfl⟩

/-- Two strings that are taken for each other. -/
theorem charPtr_swap (flag : Bool) (s t : ByteStr) :
    charPtr (if flag then some (t ++ [0]) else none) = (if flag then s else []) ∧
      charPtr (if flag then some (s ++ [0]) else none) = (if flag then t else []) ↔
    (flag = true → s = t) ∧ NoNulIf flag s := by
  cases flag with
  | false =>
      exact ⟨fun _ => ⟨fun h => absurd h Bool.false_ne_true, fun h => absurd h Bool.false_ne_true⟩, fun _ => ⟨rfl, rfl⟩⟩
  | true =>
      show charPtr (some (t ++ [0])) = s ∧ charPtr (some (s ++ [0])) = t ↔ _
      rw [charPtr_new, charPtr_new]
      constructor
      · rintro ⟨hs, ht⟩
        have hns : NoNul s := hs ▸ noNul_takeWhile t
        refine ⟨fun _ => ?_, fun _ => hns⟩
        rw [← ht]
        exact (takeWhile_eq_self.mpr hns).symm
      · rintro ⟨heq, hns⟩
        have hst : s = t := heq rfl
        subst hst
        exact ⟨takeWhile_eq_self.mpr (hns rfl), takeWhile_eq_self.mpr (hns rfl)⟩

/-! ## The front of a packet -/

theorem exchanged_cases (n : Nat) : exchanged n = n ∨ exchanged n + 127 ≤ n ∨ n + 127 ≤ exchanged n := by
  unfold exchanged
  by_cases hone : n < 128
  · rw [if_pos hone]
    exact Or.inl rfl
  · rw [if_neg hone]
    omega

/-- **The length**, as the decoders in C read it. -/
theorem mqttRemainLength_digits {body : ByteStr} (h : body.length < 16384) :
    mqttRemainLength (Pkt.lengthDigits 5 body.length ++ body) =
      if body.length < exchanged body.length then .error (.returned needMoreData)
      else .ok (exchanged body.length, (Pkt.lengthDigits 5 body.length).length) := by
  have hcases := exchanged_cases body.length
  by_cases hone : body.length < 128
  · have hval : exchanged body.length = body.length := if_pos hone
    have hbyte := toNat_last hone
    have hscan : scanRemainLength maxRemainLengthBytes (Pkt.lengthDigits 5 body.length ++ body) 0 0 =
        some (body.length, 0) := by
      rw [Pkt.lengthDigits_one hone, List.singleton_append, maxRemainLengthBytes, scanRemainLength, hbyte, if_pos hone,
        Nat.mod_eq_of_lt hone, Nat.zero_shiftLeft, Nat.zero_or]
    unfold mqttRemainLength
    rw [hscan, hval, if_neg (Nat.lt_irrefl _), Pkt.lengthDigits_one hone]
    simp only
    rw [if_neg (by simp only [List.length_append, List.length_singleton]; omega)]
    rfl
  · have hval : exchanged body.length = 128 * (body.length % 128) + body.length / 128 := if_neg hone
    have hlow : body.length / 128 < 128 := by omega
    have hfirst := toNat_digit (Nat.mod_lt body.length (show 128 > 0 by decide))
    have hsecond := toNat_last hlow
    have hor : (0 <<< 7 ||| (body.length % 128 + 128) % 128) <<< 7 ||| body.length / 128 % 128 =
        exchanged body.length := by
      have hlt : body.length / 128 % 128 < 2 ^ 7 := Nat.mod_lt _ (by decide)
      rw [Nat.zero_shiftLeft, Nat.zero_or, Nat.shiftLeft_eq, Nat.mul_comm, ← Nat.two_pow_add_eq_or_of_lt hlt, hval]
      omega
    have hscan : scanRemainLength maxRemainLengthBytes (Pkt.lengthDigits 5 body.length ++ body) 0 0 =
        some (exchanged body.length, 1) := by
      rw [Pkt.lengthDigits_two (by omega) h, maxRemainLengthBytes]
      show scanRemainLength 4 (UInt8.ofNat (body.length % 128 + 128) :: UInt8.ofNat (body.length / 128) :: body) 0 0 = _
      rw [scanRemainLength, hfirst, if_neg (by omega), scanRemainLength, hsecond, if_pos hlow, hor]
    unfold mqttRemainLength
    rw [hscan, Pkt.lengthDigits_two (by omega) h]
    simp only
    by_cases hmore : body.length < exchanged body.length
    · rw [if_pos hmore, if_pos (by simp only [List.length_append, List.length_cons, List.length_nil]; omega)]
    · rw [if_neg hmore, if_neg (by simp only [List.length_append, List.length_cons, List.length_nil]; omega)]
      rfl

/-! ## Reading at an offset -/

section Reading

variable {w rest : ByteStr}

theorem byteAt_append (b : UInt8) : byteAt (w ++ b :: rest) w.length = .ok b := by
  unfold byteAt
  rw [List.getElem?_append_right (Nat.le_refl _), Nat.sub_self]
  rfl

theorem getShort_short {n : Nat} (hn : n < 65536) : getShort (short n ++ rest) = n := by
  show (UInt8.ofNat (n / 256)).toNat * 256 + (UInt8.ofNat n).toNat = n
  rw [UInt8.toNat_ofNat', UInt8.toNat_ofNat']
  omega

theorem getShort_drop {n : Nat} (hn : n < 65536) : getShort ((w ++ (short n ++ rest)).drop w.length) = n := by
  rw [List.drop_left, getShort_short hn]

theorem length_shortString (s : ByteStr) : (shortString s).length = s.length + 2 := by
  rw [shortString, List.length_append, Nat.add_comm]
  rfl

/-- A string that is whole. -/
theorem getString_append {s : ByteStr} (hlen : (shortString s ++ rest).length < 65536) :
    getString (w ++ (shortString s ++ rest)) w.length =
      .ok ({ start := w.length + 2, len := s.length }, (w ++ shortString s).length) := by
  have hs : s.length < 65536 := by
    rw [List.length_append, length_shortString] at hlen
    omega
  have hshort : getShort ((w ++ (shortString s ++ rest)).drop w.length) = s.length := by
    rw [shortString, Nat.mod_eq_of_lt hs, List.append_assoc]
    exact getShort_drop hs
  have hok : ¬ s.length > ((w ++ (shortString s ++ rest)).drop w.length).length % 65536 := by
    rw [List.drop_left, Nat.mod_eq_of_lt hlen, List.length_append, length_shortString]
    omega
  unfold getString
  simp only
  rw [hshort, if_neg hok, List.length_append, length_shortString]

/-- Bytes of the buffer, with a NUL behind them. -/
theorem newString_bytes {s : ByteStr} : newString (w ++ (s ++ rest)) w.length s.length = .ok (some (s ++ [0])) := by
  have hfit : w.length + s.length ≤ (w ++ (s ++ rest)).length := by
    rw [List.length_append, List.length_append]
    omega
  unfold newString
  rw [if_neg (by omega), if_pos ⟨Int.natCast_nonneg _, Or.inr (by rwa [Int.toNat_natCast])⟩, Int.toNat_natCast,
    List.drop_left, List.take_left]

theorem newString_append {s : ByteStr} : newString (w ++ (shortString s ++ rest)) (w.length + 2) s.length =
    .ok (some (s ++ [0])) := by
  have hsplit : w ++ (shortString s ++ rest) = (w ++ short (s.length % 65536)) ++ (s ++ rest) := by
    simp only [shortString, List.append_assoc]
  have hlen : w.length + 2 = (w ++ short (s.length % 65536)).length := by
    rw [List.length_append]
    rfl
  rw [hsplit, hlen]
  exact newString_bytes

/-- The same under a flag. -/
theorem getStringIf_append {flag : Bool} {s buf : ByteStr} (hbuf : buf = w ++ (stringIf flag s ++ rest))
    (hlen : (stringIf flag s ++ rest).length < 65536) :
    ∃ p, getStringIf flag buf w.length = .ok (p, (w ++ stringIf flag s).length) ∧
      newStringIf flag buf p = .ok (if flag then some (s ++ [0]) else none) := by
  cases flag with
  | false =>
      refine ⟨{ start := 0, len := 0 }, ?_, rfl⟩
      show Except.ok _ = _
      rw [stringIf, if_neg Bool.false_ne_true, List.append_nil]
  | true =>
      rw [hbuf]
      exact ⟨_, getString_append hlen, newString_append⟩

end Reading

/-! ## The decoders in C++ -/

theorem bind_map {α β γ : Type} {x : PktM α} {f : α → PktM β} {g : α → PktM γ} {k : γ → β}
    (h : ∀ a p, f a p = ((g a p).1.map k, (g a p).2)) (p : Pkt) :
    (x >>= f) p = (((x >>= g) p).1.map k, ((x >>= g) p).2) := by
  rcases hx : x p with ⟨_ | a, p'⟩
  · rw [PktM.bind_none hx, PktM.bind_none hx]
    rfl
  · rw [PktM.bind_some hx, PktM.bind_some hx]
    exact h a p'

/-- The decoder without the flags gives the same message, and fails on the same packets. -/
theorem connect_decode_eq (p : Pkt) :
    Connect.decode p = ((Connect.decodeFull p).1.map Prod.snd, (Connect.decodeFull p).2) := by
  unfold Connect.decode Connect.decodeFull
  refine bind_map (fun header p => ?_) p
  by_cases htype : header.msgType ≠ .connect
  · rw [if_pos htype, if_pos htype]
    rfl
  · rw [if_neg htype, if_neg htype]
    refine bind_map (fun _ p => bind_map (fun _ p => bind_map (fun _ p => ?_) p) p) p
    refine bind_map (fun _ p => bind_map (fun _ p => bind_map (fun _ p => ?_) p) p) p
    refine bind_map (fun _ p => bind_map (fun _ p => bind_map (fun _ p => ?_) p) p) p
    rfl

theorem readStringIf_behind {flag : Bool} {s w rest : ByteStr} (hlen : (stringIf flag s ++ rest).length < 65536) :
    readStringIf flag (Pkt.behind w (stringIf flag s ++ rest)) =
      (some (if flag then s else []), Pkt.behind (w ++ stringIf flag s) rest) := by
  cases flag with
  | false =>
      show (some [], Pkt.behind w ([] ++ rest)) = (some [], Pkt.behind (w ++ []) rest)
      rw [List.nil_append, List.append_nil]
  | true =>
      refine PktM.readString_behind ?_
      rw [stringIf, if_pos rfl, List.length_append, length_shortString] at hlen
      omega

/-- What `CMqttConnect` holds after it has read the fields. -/
def ConnectFields.decoded (c : ConnectFields) : Connect :=
  { protoName := mqIsdp, protoVersion := 3
    cleanSession := (ConnectFlags.ofByte c.flags).cleanSession
    keepAlive := c.keepAlive, clientId := c.clientId
    willTopic := if willBit c.flags then c.willTopic else []
    willMessage := if willBit c.flags then c.willMessage else []
    userName := if usernameBit c.flags then c.userName else []
    password := if passwordBit c.flags then c.password else [] }

theorem ConnectFields.body_length (c : ConnectFields) : c.body.length = c.clientId.length + c.strings.length + 14 := by
  unfold ConnectFields.body
  simp only [List.length_append, List.length_cons, length_shortString, short, mqIsdp, List.length_nil]
  omega

/-- Each of the strings fits with those behind it. -/
theorem ConnectFields.strings_fit {c : ConnectFields} (h : c.strings.length < 65536) :
    (stringIf (willBit c.flags) c.willMessage ++
      (stringIf (usernameBit c.flags) c.userName ++ stringIf (passwordBit c.flags) c.password)).length < 65536 ∧
    (stringIf (usernameBit c.flags) c.userName ++ stringIf (passwordBit c.flags) c.password).length < 65536 ∧
    (stringIf (passwordBit c.flags) c.password ++ []).length < 65536 := by
  unfold ConnectFields.strings at h
  simp only [List.length_append, List.length_nil] at h ⊢
  omega

/-- **CONNECT.** -/
theorem ConnectFields.decodeFull_wire {h : FixedHeader} {c : ConnectFields} (htype : h.msgType = .connect)
    (hqos : h.qos ≤ 3) (hkeep : c.keepAlive < 65536) (hsize : c.body.length < 16384) :
    Connect.decodeFull.decode (wirePacket h c.body) = some (ConnectFlags.ofByte c.flags, c.decoded) := by
  have hbody := c.body_length
  have hne : c.body ≠ [] := List.ne_nil_of_length_pos (by omega)
  have hstrings : c.strings.length < 65536 := by omega
  obtain ⟨hmsg, huser, hpass⟩ := ConnectFields.strings_fit hstrings
  have hwillBit : decide (c.flags.toNat / 4 % 2 = 1) = willBit c.flags := rfl
  have huserBit : decide (c.flags.toNat / 128 % 2 = 1) = usernameBit c.flags := rfl
  have hpassBit : decide (c.flags.toNat / 64 % 2 = 1) = passwordBit c.flags := rfl
  have hlast : ∀ w, readStringIf (passwordBit c.flags) (Pkt.behind w (stringIf (passwordBit c.flags) c.password)) =
      (some (if passwordBit c.flags then c.password else []),
        Pkt.behind (w ++ stringIf (passwordBit c.flags) c.password) []) := by
    intro w
    rw [← readStringIf_behind hpass, List.append_nil]
  unfold PktM.decode Connect.decodeFull
  rw [PktM.bind_some (decodeHeader_wirePacket hqos hne (by omega)), if_neg (not_not.mpr htype)]
  unfold ConnectFields.body
  rw [PktM.bind_some (PktM.readString_behind (by decide)), PktM.bind_some (PktM.readByte_behind _),
    PktM.bind_some (PktM.readByte_behind _), PktM.bind_some (PktM.readShort_behind hkeep),
    PktM.bind_some (PktM.readString_behind (by omega)), hwillBit, huserBit, hpassBit]
  unfold ConnectFields.strings at hstrings ⊢
  rw [PktM.bind_some (readStringIf_behind hstrings), PktM.bind_some (readStringIf_behind hmsg),
    PktM.bind_some (readStringIf_behind huser), PktM.bind_some (hlast _)]
  rfl

/-! ## The decoders in C -/

/-- The type in the first byte. -/
theorem header_nibble {h : FixedHeader} {type : MqttType} (htype : h.msgType = type) (hqos : h.qos ≤ 3) :
    h.encode.toNat / 16 = type.nibble := by
  subst htype
  obtain ⟨type, dup, qos, retain⟩ := h
  simp only at hqos
  interval_cases qos <;> cases type <;> cases dup <;> cases retain <;> rfl

/-- What stands in front of the body. -/
def front (h : FixedHeader) (body : ByteStr) : ByteStr := h.encode :: Pkt.lengthDigits 5 body.length

theorem wirePacket_eq (h : FixedHeader) (body : ByteStr) : wirePacket h body = front h body ++ body := rfl

theorem length_front (h : FixedHeader) (body : ByteStr) :
    (front h body).length = 1 + (Pkt.lengthDigits 5 body.length).length := by
  rw [front, List.length_cons, Nat.add_comm]

theorem byteAt_wirePacket (h : FixedHeader) (body : ByteStr) : byteAt (wirePacket h body) 0 = .ok h.encode := rfl

/-- The length behind the header. -/
theorem mqttRemainLength_wirePacket (h : FixedHeader) {body : ByteStr} (hsize : body.length < 16384) :
    mqttRemainLength ((wirePacket h body).drop 1) =
      if body.length < exchanged body.length then .error (.returned needMoreData)
      else .ok (exchanged body.length, (Pkt.lengthDigits 5 body.length).length) :=
  mqttRemainLength_digits hsize

/-! ### PUBLISH -/

theorem mqttDecPublish_of_lt {m : Publish} (htype : m.header.msgType = .publish) (hqos : m.header.qos ≤ 3)
    (hsize : m.body.length < 16384) (hlt : m.body.length < exchanged m.body.length) :
    mqttDecPublish (wirePacket m.header m.body) = .error (.returned needMoreData) := by
  have hnibble : m.header.encode.toNat / 16 = 3 := header_nibble htype hqos
  unfold mqttDecPublish
  rw [byteAt_wirePacket, ok_bind, if_neg (not_not.mpr hnibble), mqttRemainLength_wirePacket _ hsize, if_pos hlt, error_bind]

/-- The payload is what the length says, from where the message id ends. -/
theorem mqttDecPublish_of_le {m : Publish} (htype : m.header.msgType = .publish) (hqos : m.header.qos ≤ 3)
    (hid : m.msgId < 65536) (hsize : m.body.length < 16384) (hle : ¬ m.body.length < exchanged m.body.length) :
    mqttDecPublish (wirePacket m.header m.body) =
      (newString (wirePacket m.header m.body)
          ((front m.header m.body).length + (m.topicName.length + 2) + 2)
          ((exchanged m.body.length : Int) - (m.topicName.length + 2 + 2)) >>= fun payload =>
        pure ((front m.header m.body).length + exchanged m.body.length,
          { header := m.header.encode, remainLength := exchanged m.body.length
            topicName := some (m.topicName ++ [0])
            msgIdOffset := (front m.header m.body).length + (m.topicName.length + 2)
            msgId := m.msgId
            payloadLen := (exchanged m.body.length : Int) - (m.topicName.length + 2 + 2), payload })) := by
  have hnibble : m.header.encode.toNat / 16 = 3 := header_nibble htype hqos
  have hbody : m.body = shortString m.topicName ++ (short m.msgId ++ m.payload) := by
    rw [Publish.body, List.append_assoc]
  have hfit : (shortString m.topicName ++ (short m.msgId ++ m.payload)).length < 65536 := by
    rw [← hbody]
    omega
  have hfront := length_front m.header m.body
  obtain ⟨w, hw⟩ : ∃ w, w = front m.header m.body := ⟨_, rfl⟩
  obtain ⟨buf, hbuf⟩ : ∃ buf, buf = wirePacket m.header m.body := ⟨_, rfl⟩
  rw [← hw] at hfront
  have hwhole : buf = w ++ (shortString m.topicName ++ (short m.msgId ++ m.payload)) := by
    rw [hbuf, hw, ← hbody]
    rfl
  have hwhole' : buf = (w ++ shortString m.topicName) ++ (short m.msgId ++ m.payload) := by
    rw [hwhole, List.append_assoc]
  have hbyte : byteAt buf 0 = .ok m.header.encode := hbuf ▸ byteAt_wirePacket _ _
  have hlength : mqttRemainLength (buf.drop 1) = .ok (exchanged m.body.length, (Pkt.lengthDigits 5 m.body.length).length) := by
    rw [hbuf, mqttRemainLength_wirePacket _ hsize, if_neg hle]
  have htopic : getString buf w.length =
      .ok ({ start := w.length + 2, len := m.topicName.length }, (w ++ shortString m.topicName).length) := by
    rw [hwhole]
    exact getString_append hfit
  have hname : newString buf (w.length + 2) m.topicName.length = .ok (some (m.topicName ++ [0])) := by
    rw [hwhole]
    exact newString_append
  have hmsgId : getShort (buf.drop (w ++ shortString m.topicName).length) = m.msgId := by
    rw [hwhole']
    exact getShort_drop hid
  have hnext : (w ++ shortString m.topicName).length = w.length + (m.topicName.length + 2) := by
    rw [List.length_append, length_shortString]
  have hend : exchanged m.body.length + 1 + (Pkt.lengthDigits 5 m.body.length).length = w.length + exchanged m.body.length := by
    omega
  have hpayload : ((w.length + exchanged m.body.length : Nat) : Int) - ((w.length + (m.topicName.length + 2) + 2 : Nat) : Int) =
      (exchanged m.body.length : Int) - (m.topicName.length + 2 + 2) := by
    omega
  unfold mqttDecPublish
  rw [← hbuf, ← hw, hbyte, ok_bind, if_neg (not_not.mpr hnibble), hlength, ok_bind]
  simp only
  rw [← hfront, htopic, ok_bind]
  simp only
  rw [hname, ok_bind, hmsgId, hnext, hend, hpayload]

theorem publish_decoded {m : Publish} (hqos : m.header.qos ≤ 3) (hid : m.msgId < 65536) (hsize : m.body.length < 16384) :
    ∃ m', Publish.decode.decode (wirePacket m.header m.body) = some m' ∧ m'.topicName = m.topicName ∧
      m'.msgId = m.msgId ∧ m'.payload = m.payload := by
  have hmap := Publish.decode_wire hqos hid hsize
  obtain ⟨m', hm', hfields⟩ := Option.map_eq_some_iff.mp hmap
  simp only [Publish.fields, Prod.mk.injEq] at hfields
  exact ⟨m', hm', hfields.2.1, hfields.2.2.1, hfields.2.2.2⟩

/-- **PUBLISH**: the payload has the length of the message when the length of the packet is not changed. -/
theorem publish_agree_iff {m : Publish} (hvalid : (Packet.publish m).Valid) (hsize : m.body.length < 16384) :
    (Packet.publish m).Agree ↔ (Packet.publish m).Plain := by
  obtain ⟨htype, -, hqos, hid⟩ := hvalid
  obtain ⟨m', hm', htopic, hmsgId, hpayload⟩ := publish_decoded hqos hid hsize
  have hbody := m.body_length
  by_cases hlt : m.body.length < exchanged m.body.length
  · have hstop := mqttDecPublish_of_lt htype hqos hsize hlt
    constructor
    · rintro ⟨n, c, m₁, hc, -⟩
      have hc' : mqttDecPublish (wirePacket m.header m.body) = .ok (n, c) := hc
      rw [hstop] at hc'
      cases hc'
    · rintro ⟨heq, -⟩
      omega
  · have hrun := mqttDecPublish_of_le htype hqos hid hsize hlt
    constructor
    · rintro ⟨n, c, m₁, hc, hm₁, hname, -, hlen, -⟩
      have hm₁' : Publish.decode.decode (wirePacket m.header m.body) = some m₁ := hm₁
      obtain rfl : m' = m₁ := Option.some.inj (hm'.symm.trans hm₁')
      have hc' : mqttDecPublish (wirePacket m.header m.body) = .ok (n, c) := hc
      rw [hrun] at hc'
      cases hnew : newString (wirePacket m.header m.body) ((front m.header m.body).length + (m.topicName.length + 2) + 2)
          ((exchanged m.body.length : Int) - (m.topicName.length + 2 + 2)) with
      | error e =>
          rw [hnew, error_bind] at hc'
          cases hc'
      | ok payload =>
          rw [hnew, ok_bind] at hc'
          cases hc'
          rw [htopic] at hname
          rw [hpayload] at hlen
          refine ⟨?_, charPtr_eq.mp hname⟩
          simp only at hlen
          omega
    · rintro ⟨heq, hnul⟩
      have hnew : newString (wirePacket m.header m.body) ((front m.header m.body).length + (m.topicName.length + 2) + 2)
          ((exchanged m.body.length : Int) - (m.topicName.length + 2 + 2)) = .ok (some (m.payload ++ [0])) := by
        have hwhole : wirePacket m.header m.body =
            (front m.header m.body ++ (shortString m.topicName ++ short m.msgId)) ++ (m.payload ++ []) := by
          rw [wirePacket_eq, Publish.body, List.append_nil]
          simp only [List.append_assoc]
        have hstart : (front m.header m.body).length + (m.topicName.length + 2) + 2 =
            (front m.header m.body ++ (shortString m.topicName ++ short m.msgId)).length := by
          rw [List.length_append, List.length_append, length_shortString]
          rfl
        have hlen : (exchanged m.body.length : Int) - (m.topicName.length + 2 + 2) = m.payload.length := by
          omega
        rw [hstart, hlen, hwhole]
        exact newString_bytes
      rw [hnew, ok_bind] at hrun
      refine ⟨_, _, m', hrun, hm', ?_, ?_, ?_, ?_⟩
      · rw [htopic]
        exact charPtr_eq.mpr hnul
      · exact hmsgId.symm
      · rw [hpayload, heq]
        simp only
        omega
      · rw [hpayload]
        exact congrArg some List.take_left

/-! ### CONNECT -/

/-- The protocol name is compared with the bytes of the packet. -/
theorem checkProtocolName_append {w rest : ByteStr} :
    checkProtocolName (w ++ (shortString mqIsdp ++ rest)) { start := w.length + 2, len := mqIsdp.length } = .ok () := by
  have hsplit : w ++ (shortString mqIsdp ++ rest) = (w ++ short 6) ++ (mqIsdp ++ rest) := by
    rw [List.append_assoc]
    rfl
  have hlen : w.length + 2 = (w ++ short 6).length := by
    rw [List.length_append]
    rfl
  have hsame : differs (w ++ (shortString mqIsdp ++ rest)) (w.length + 2) mqIsdp = .ok false := by
    unfold differs
    rw [hsplit, hlen, List.drop_left, List.take_left, if_pos (by simp only [List.length_append]; omega)]
    rfl
  unfold checkProtocolName
  rw [if_pos (show mqIsdp.length = 6 from rfl), hsame]
  rfl

theorem connect_strings {c : ConnectFields} {buf w : ByteStr} (hbuf : buf = w ++ c.strings) (hsize : c.strings.length < 65536) :
    ∃ p₁ p₂ p₃ p₄ o₁ o₂ o₃,
      getStringIf (willBit c.flags) buf w.length = .ok (p₁, o₁) ∧
      getStringIf (willBit c.flags) buf o₁ = .ok (p₂, o₂) ∧
      getStringIf (usernameBit c.flags) buf o₂ = .ok (p₃, o₃) ∧
      getStringIf (passwordBit c.flags) buf o₃ = .ok (p₄, buf.length) ∧
      newStringIf (willBit c.flags) buf p₁ = .ok (if willBit c.flags then some (c.willTopic ++ [0]) else none) ∧
      newStringIf (willBit c.flags) buf p₂ = .ok (if willBit c.flags then some (c.willMessage ++ [0]) else none) ∧
      newStringIf (usernameBit c.flags) buf p₃ = .ok (if usernameBit c.flags then some (c.userName ++ [0]) else none) ∧
      newStringIf (passwordBit c.flags) buf p₄ = .ok (if passwordBit c.flags then some (c.password ++ [0]) else none) := by
  obtain ⟨hmsg, huser, hpass⟩ := ConnectFields.strings_fit hsize
  unfold ConnectFields.strings at hbuf hsize
  have hbuf₁ := hbuf.trans (List.append_assoc ..).symm
  have hbuf₂ := hbuf₁.trans (List.append_assoc ..).symm
  have hbuf₃ := hbuf₂.trans (List.append_assoc ..).symm
  obtain ⟨p₁, hget₁, hnew₁⟩ := getStringIf_append hbuf hsize
  obtain ⟨p₂, hget₂, hnew₂⟩ := getStringIf_append hbuf₁ hmsg
  obtain ⟨p₃, hget₃, hnew₃⟩ := getStringIf_append hbuf₂ huser
  obtain ⟨p₄, hget₄, hnew₄⟩ := getStringIf_append (hbuf₃.trans (by rw [List.append_nil])) hpass
  rw [← hbuf₃] at hget₄
  exact ⟨p₁, p₂, p₃, p₄, _, _, _, hget₁, hget₂, hget₃, hget₄, hnew₁, hnew₂, hnew₃, hnew₄⟩

/-- The fields in front of the strings, each found where the one before it ends. -/
theorem connect_fixed {c : ConnectFields} {buf w : ByteStr} (hbuf : buf = w ++ c.body) (hkeep : c.keepAlive < 65536)
    (hsize : c.body.length < 16384) :
    getString buf w.length = .ok ({ start := w.length + 2, len := mqIsdp.length }, w.length + 8) ∧
      checkProtocolName buf { start := w.length + 2, len := mqIsdp.length } = .ok () ∧
      newString buf (w.length + 2) mqIsdp.length = .ok (some (mqIsdp ++ [0])) ∧
      byteAt buf (w.length + 8) = .ok 3 ∧ byteAt buf (w.length + 9) = .ok c.flags ∧
      getShort (buf.drop (w.length + 10)) = c.keepAlive ∧
      getShort (buf.drop (w.length + 12)) = c.clientId.length ∧
      newString buf (w.length + 12 + 2) c.clientId.length = .ok (some (c.clientId ++ [0])) ∧
      ∃ w', buf = w' ++ c.strings ∧ w'.length = w.length + 12 + 2 + c.clientId.length := by
  have hbody := c.body_length
  have hfit : (shortString mqIsdp ++ (3 :: c.flags :: (short c.keepAlive ++ (shortString c.clientId ++ c.strings)))).length <
      65536 := Nat.lt_trans hsize (by decide)
  -- the packet, split in front of each of the fields
  have hname : buf = w ++ (shortString mqIsdp ++
      (3 :: c.flags :: (short c.keepAlive ++ (shortString c.clientId ++ c.strings)))) := hbuf
  have hver := hname.trans (List.append_assoc ..).symm
  have hflags := hver.trans (List.append_cons ..)
  have halive := hflags.trans (List.append_cons ..)
  have hclient := halive.trans (List.append_assoc ..).symm
  have hrest := hclient.trans (List.append_assoc ..).symm
  have hlen₁ : (w ++ shortString mqIsdp).length = w.length + 8 := List.length_append
  have hlen₂ : (w ++ shortString mqIsdp ++ [3]).length = w.length + 9 := by rw [List.length_append, hlen₁]; rfl
  have hlen₃ : (w ++ shortString mqIsdp ++ [3] ++ [c.flags]).length = w.length + 10 := by rw [List.length_append, hlen₂]; rfl
  have hlen₄ : (w ++ shortString mqIsdp ++ [3] ++ [c.flags] ++ short c.keepAlive).length = w.length + 12 := by
    rw [List.length_append, hlen₃]
    rfl
  refine ⟨?_, ?_, ?_, ?_, ?_, ?_, ?_, ?_, _, hrest, ?_⟩
  · rw [← hlen₁, hname]
    exact getString_append hfit
  · rw [hname]
    exact checkProtocolName_append
  · rw [hname]
    exact newString_append
  · rw [← hlen₁, hver]
    exact byteAt_append 3
  · rw [← hlen₂, hflags]
    exact byteAt_append c.flags
  · rw [← hlen₃, halive]
    exact getShort_drop hkeep
  · have hstring : shortString c.clientId = short c.clientId.length ++ c.clientId := by
      rw [shortString, Nat.mod_eq_of_lt (by omega)]
    rw [← hlen₄, hclient, hstring, List.append_assoc (short c.clientId.length)]
    exact getShort_drop (by omega)
  · rw [← hlen₄, hclient]
    exact newString_append
  · rw [List.length_append, hlen₄, length_shortString]
    omega

/-- What `TMqttConnect` holds after the fields have been read, the two strings of the will exchanged. -/
def ConnectFields.readInC (c : ConnectFields) (header : UInt8) : TMqttConnect :=
  { header, remainLength := c.body.length, flags := c.flags, protocolVer := 3
    protocolName := some (mqIsdp ++ [0]), clientId := some (c.clientId ++ [0])
    willTopic := if willBit c.flags then some (c.willMessage ++ [0]) else none
    willMsg := if willBit c.flags then some (c.willTopic ++ [0]) else none
    userName := if usernameBit c.flags then some (c.userName ++ [0]) else none
    userPasswd := if passwordBit c.flags then some (c.password ++ [0]) else none
    keepAliveTimer := c.keepAlive }

theorem mqttDecConnect_of_lt {h : FixedHeader} {c : ConnectFields} (htype : h.msgType = .connect) (hqos : h.qos ≤ 3)
    (hsize : c.body.length < 16384) (hlt : c.body.length < exchanged c.body.length) :
    mqttDecConnect (wirePacket h c.body) = .error (.returned needMoreData) := by
  have hnibble : h.encode.toNat / 16 = 1 := header_nibble htype hqos
  unfold mqttDecConnect
  rw [byteAt_wirePacket, ok_bind, if_neg (not_not.mpr hnibble), mqttRemainLength_wirePacket _ hsize, if_pos hlt, error_bind]

/-- The fields are read to the end of the packet, which must not be behind the end that the length gives. -/
theorem mqttDecConnect_of_le {h : FixedHeader} {c : ConnectFields} (htype : h.msgType = .connect) (hqos : h.qos ≤ 3)
    (hkeep : c.keepAlive < 65536) (hsize : c.body.length < 16384) (hle : ¬ c.body.length < exchanged c.body.length) :
    mqttDecConnect (wirePacket h c.body) =
      if exchanged c.body.length = c.body.length then .ok ((wirePacket h c.body).length, c.readInC h.encode) else fail := by
  have hnibble : h.encode.toNat / 16 = 1 := header_nibble htype hqos
  have hfront := length_front h c.body
  have hbody := c.body_length
  have hstrings : c.strings.length < 65536 := by omega
  obtain ⟨w, hw⟩ : ∃ w, w = front h c.body := ⟨_, rfl⟩
  obtain ⟨buf, hbuf⟩ : ∃ buf, buf = wirePacket h c.body := ⟨_, rfl⟩
  rw [← hw] at hfront
  have hsplit : buf = w ++ c.body := by rw [hbuf, hw, wirePacket_eq]
  obtain ⟨hproto, hcheck, hnewProto, hverByte, hflagsByte, haliveShort, hclientShort, hnewClient, w', hrest, hlen'⟩ :=
    connect_fixed hsplit hkeep hsize
  obtain ⟨p₁, p₂, p₃, p₄, o₁, o₂, o₃, hget₁, hget₂, hget₃, hget₄, hnew₁, hnew₂, hnew₃, hnew₄⟩ := connect_strings hrest hstrings
  rw [hlen'] at hget₁
  have hbyte : byteAt buf 0 = .ok h.encode := hbuf ▸ byteAt_wirePacket _ _
  have hlength : mqttRemainLength (buf.drop 1) = .ok (exchanged c.body.length, (Pkt.lengthDigits 5 c.body.length).length) := by
    rw [hbuf, mqttRemainLength_wirePacket _ hsize, if_neg hle]
  have hwhole : buf.length = w.length + c.body.length := by rw [hsplit, List.length_append]
  have hnine : w.length + 8 + 1 = w.length + 9 := rfl
  have hten : w.length + 9 + 1 = w.length + 10 := rfl
  have htwelve : w.length + 10 + 2 = w.length + 12 := rfl
  unfold mqttDecConnect
  rw [← hbuf, hbyte, ok_bind, if_neg (not_not.mpr hnibble), hlength, ok_bind]
  simp only
  rw [← hfront, hproto, ok_bind]
  simp only
  rw [hcheck, ok_bind, hverByte, ok_bind, if_neg (not_not.mpr rfl), hnine, hflagsByte, ok_bind, hten, haliveShort, htwelve,
    hclientShort, hget₁, ok_bind]
  simp only
  rw [hget₂, ok_bind]
  simp only
  rw [hget₃, ok_bind]
  simp only
  rw [hget₄, ok_bind]
  simp only
  rw [hnewProto, ok_bind, hnewClient, ok_bind, hnew₁, ok_bind, hnew₂, ok_bind, hnew₃, ok_bind, hnew₄, ok_bind]
  by_cases heq : exchanged c.body.length = c.body.length
  · rw [if_neg (by omega), if_pos heq, heq]
    rfl
  · rw [if_pos (by omega), if_neg heq]

/-- The messages of the two decoders, field by field. -/
theorem readInC_agree_iff (header : UInt8) (c : ConnectFields) :
    (charPtr (c.readInC header).protocolName = c.decoded.protoName ∧
      (c.readInC header).protocolVer.toNat = c.decoded.protoVersion ∧
      ConnectFlags.ofByte (c.readInC header).flags = ConnectFlags.ofByte c.flags ∧
      (c.readInC header).keepAliveTimer = c.decoded.keepAlive ∧
      charPtr (c.readInC header).clientId = c.decoded.clientId ∧
      charPtr (c.readInC header).willTopic = c.decoded.willTopic ∧
      charPtr (c.readInC header).willMsg = c.decoded.willMessage ∧
      charPtr (c.readInC header).userName = c.decoded.userName ∧
      charPtr (c.readInC header).userPasswd = c.decoded.password) ↔
    NoNul c.clientId ∧ (willBit c.flags = true → c.willTopic = c.willMessage) ∧ NoNulIf (willBit c.flags) c.willTopic ∧
      NoNulIf (usernameBit c.flags) c.userName ∧ NoNulIf (passwordBit c.flags) c.password := by
  have hwill := charPtr_swap (willBit c.flags) c.willTopic c.willMessage
  have huser := charPtr_if (usernameBit c.flags) c.userName
  have hpass := charPtr_if (passwordBit c.flags) c.password
  constructor
  · rintro ⟨-, -, -, -, hclient, htopic, hmsg, hname, hpasswd⟩
    have hboth := hwill.mp ⟨htopic, hmsg⟩
    exact ⟨charPtr_eq.mp hclient, hboth.1, hboth.2, huser.mp hname, hpass.mp hpasswd⟩
  · rintro ⟨hclient, hsame, hnul, hname, hpasswd⟩
    have hboth := hwill.mpr ⟨hsame, hnul⟩
    exact ⟨charPtr_eq.mpr (by decide), rfl, rfl, rfl, charPtr_eq.mpr hclient, hboth.1, hboth.2, huser.mpr hname, hpass.mpr hpasswd⟩

/-- **CONNECT**: a length that shrinks puts the end of the packet in front of the last field. -/
theorem connect_agree_iff {h : FixedHeader} {c : ConnectFields} (hvalid : (Packet.connect h c).Valid)
    (hsize : c.body.length < 16384) : (Packet.connect h c).Agree ↔ (Packet.connect h c).Plain := by
  obtain ⟨htype, hqos, hkeep⟩ := hvalid
  have hwire := ConnectFields.decodeFull_wire htype hqos hkeep hsize
  by_cases heq : exchanged c.body.length = c.body.length
  · have hrun := mqttDecConnect_of_le htype hqos hkeep hsize (by omega)
    rw [if_pos heq] at hrun
    constructor
    · rintro ⟨n, m, flags, m', hc, hcpp, hfields⟩
      have hc' : mqttDecConnect (wirePacket h c.body) = .ok (n, m) := hc
      have hcpp' : Connect.decodeFull.decode (wirePacket h c.body) = some (flags, m') := hcpp
      rw [hrun] at hc'
      rw [hwire] at hcpp'
      cases hc'
      cases hcpp'
      exact ⟨heq, (readInC_agree_iff h.encode c).mp hfields⟩
    · rintro ⟨-, hfields⟩
      exact ⟨_, _, _, _, hrun, hwire, (readInC_agree_iff h.encode c).mpr hfields⟩
  · have hstop : ∃ e, mqttDecConnect (wirePacket h c.body) = .error e := by
      by_cases hlt : c.body.length < exchanged c.body.length
      · exact ⟨_, mqttDecConnect_of_lt htype hqos hsize hlt⟩
      · have hrun := mqttDecConnect_of_le htype hqos hkeep hsize hlt
        rw [if_neg heq] at hrun
        exact ⟨_, hrun⟩
    obtain ⟨e, he⟩ := hstop
    constructor
    · rintro ⟨n, m, flags, m', hc, -⟩
      have hc' : mqttDecConnect (wirePacket h c.body) = .ok (n, m) := hc
      rw [he] at hc'
      cases hc'
    · rintro ⟨heq', -⟩
      exact absurd heq' heq

/-! ### SUBSCRIBE -/

/-- The topics that begin in front of `pktEnd`, the first at `offset`. -/
def reached (pktEnd : Nat) : (offset : Nat) → List Topic → List Topic
  | _, [] => []
  | offset, t :: ts => if offset < pktEnd then t :: reached pktEnd (offset + t.wire.length) ts else []

/-- A topic as it is stored. -/
def storedTopic (t : Topic) : TMqttTopic := { topicName := some (t.topicName ++ [0]), topicQos := t.qos.toNat % 4 }

theorem reached_prefix (pktEnd : Nat) (ts : List Topic) : ∀ offset, reached pktEnd offset ts <+: ts := by
  induction ts with
  | nil => exact fun _ => List.prefix_refl _
  | cons t ts ih =>
      intro offset
      unfold reached
      split
      · exact List.cons_prefix_cons.mpr ⟨rfl, ih _⟩
      · exact List.nil_prefix

/-- All of them are, when the last one is. -/
theorem reached_eq_iff (pktEnd : Nat) (ts : List Topic) : ∀ offset, reached pktEnd offset ts = ts ↔
    (ts ≠ [] → offset + (ts.dropLast.flatMap Topic.wire).length < pktEnd) := by
  induction ts with
  | nil => exact fun _ => ⟨fun _ h => absurd rfl h, fun _ => rfl⟩
  | cons t ts ih =>
      intro offset
      have ih' := ih (offset + t.wire.length)
      unfold reached
      by_cases hlast : ts = []
      · subst hlast
        by_cases hin : offset < pktEnd
        · rw [if_pos hin]
          exact ⟨fun _ _ => hin, fun _ => rfl⟩
        · rw [if_neg hin]
          exact ⟨fun h => absurd h (List.cons_ne_nil _ _).symm, fun h => absurd (h (List.cons_ne_nil _ _)) hin⟩
      · have hdrop : ((t :: ts).dropLast.flatMap Topic.wire).length =
            t.wire.length + (ts.dropLast.flatMap Topic.wire).length := by
          rw [List.dropLast_cons_of_ne_nil hlast, List.flatMap_cons, List.length_append]
        rw [hdrop]
        by_cases hin : offset < pktEnd
        · rw [if_pos hin, List.cons_eq_cons]
          constructor
          · rintro ⟨-, h⟩ -
            have hlt := ih'.mp h hlast
            omega
          · intro h
            have hlt := h (List.cons_ne_nil _ _)
            exact ⟨rfl, ih'.mpr fun _ => by omega⟩
        · rw [if_neg hin]
          refine ⟨fun h => absurd h (List.cons_ne_nil _ _).symm, fun h => ?_⟩
          have hlt := h (List.cons_ne_nil _ _)
          omega

theorem decTopics_wire {buf : ByteStr} {pktEnd : Nat} (hsize : buf.length < 65536) (ts : List Topic) :
    ∀ (fuel : Nat) (w : ByteStr) (topicQos : Nat) (topics : List TMqttTopic), buf = w ++ ts.flatMap Topic.wire →
      ts.length < fuel → topics.length + ts.length ≤ maxTopicNum →
      ∃ offset, decTopics buf pktEnd true fuel w.length topicQos topics =
        .ok (offset, topics ++ (reached pktEnd w.length ts).map storedTopic) := by
  -- on the topics that are left; `w` is what the decoder has behind it
  induction ts with
  | nil =>
      intro fuel w topicQos topics hbuf hfuel _
      cases fuel with
      | zero => exact absurd hfuel (Nat.not_lt_zero _)
      | succ fuel =>
          have hout : ¬ (w.length < buf.length ∧ w.length < pktEnd) := by
            rw [hbuf, List.flatMap_nil, List.append_nil]
            exact fun h => Nat.lt_irrefl _ h.1
          refine ⟨w.length, ?_⟩
          unfold decTopics
          rw [if_neg hout, reached, List.map_nil, List.append_nil]
  | cons t ts ih =>
      intro fuel w topicQos topics hbuf hfuel hroom
      rw [List.length_cons] at hfuel hroom
      cases fuel with
      | zero => exact absurd hfuel (Nat.not_lt_zero _)
      | succ fuel =>
          have hname : buf = w ++ (shortString t.topicName ++ (t.qos :: ts.flatMap Topic.wire)) := by
            rw [hbuf, List.flatMap_cons, Topic.wire, List.append_assoc]
            rfl
          have hqos := hname.trans (List.append_assoc ..).symm
          have hrest := hqos.trans (List.append_cons ..)
          have hfit : (shortString t.topicName ++ (t.qos :: ts.flatMap Topic.wire)).length < 65536 := by
            rw [hname, List.length_append] at hsize
            omega
          have hget : getString buf w.length =
              .ok ({ start := w.length + 2, len := t.topicName.length }, (w ++ shortString t.topicName).length) := by
            rw [hname]
            exact getString_append hfit
          have hbyte : byteAt buf (w ++ shortString t.topicName).length = .ok t.qos := by
            rw [hqos]
            exact byteAt_append t.qos
          have hnew : newString buf (w.length + 2) t.topicName.length = .ok (some (t.topicName ++ [0])) := by
            rw [hname]
            exact newString_append
          unfold decTopics reached
          by_cases hin : w.length < pktEnd
          · have hlt : w.length < buf.length := by
              rw [hname]
              simp only [List.length_append, List.length_cons]
              omega
            have hfew : ¬ topics.length > maxTopicNum - 1 := by omega
            obtain ⟨offset, hrun⟩ := ih fuel (w ++ shortString t.topicName ++ [t.qos]) (t.qos.toNat % 4)
              (topics ++ [storedTopic t]) hrest (Nat.lt_of_succ_lt_succ hfuel)
              (by rw [List.length_append, List.length_singleton]; omega)
            have hstep : (w ++ shortString t.topicName ++ [t.qos]).length = (w ++ shortString t.topicName).length + 1 :=
              List.length_append
            have hnext : w.length + t.wire.length = (w ++ shortString t.topicName).length + 1 := by
              rw [← hstep, List.append_assoc, List.length_append]
              rfl
            refine ⟨offset, ?_⟩
            rw [if_pos ⟨hlt, hin⟩, if_pos hin, hget, ok_bind]
            simp only
            rw [if_pos trivial, hbyte, ok_bind]
            show (if topics.length > maxTopicNum - 1 then _ else _) = _
            rw [hstep, List.append_assoc topics] at hrun
            rw [if_neg hfew, hnew, ok_bind, hnext, List.map_cons]
            exact hrun
          · -- the packet ends here, whatever bytes follow it
            refine ⟨w.length, ?_⟩
            rw [if_neg (fun h => hin h.2), if_neg hin, List.map_nil, List.append_nil]

theorem mqttDecSubscribe_of_lt {h : FixedHeader} {m : Subscribe} (htype : h.msgType = .subscribe) (hqos : h.qos ≤ 3)
    (hsize : m.body.length < 16384) (hlt : m.body.length < exchanged m.body.length) :
    mqttDecSubscribe (wirePacket h m.body) true = .error (.returned needMoreData) := by
  have hnibble : h.encode.toNat / 16 = 8 := header_nibble htype hqos
  unfold mqttDecSubscribe
  rw [byteAt_wirePacket, ok_bind, if_neg (not_not.mpr hnibble), mqttRemainLength_wirePacket _ hsize, if_pos hlt, error_bind]

/-- The topics in front of the end that the length gives are stored. -/
theorem mqttDecSubscribe_of_le {h : FixedHeader} {m : Subscribe} (htype : h.msgType = .subscribe) (hqos : h.qos ≤ 3)
    (hid : m.msgId < 65536) (hfew : m.subTopics.length ≤ maxTopicNum) (hsize : m.body.length < 16384)
    (hle : ¬ m.body.length < exchanged m.body.length) :
    ∃ offset, mqttDecSubscribe (wirePacket h m.body) true = .ok (offset,
      { header := h.encode, remainLength := exchanged m.body.length, msgId := m.msgId
        topics := (reached ((front h m.body).length + exchanged m.body.length) ((front h m.body).length + 2)
          m.subTopics).map storedTopic }) := by
  have hnibble : h.encode.toNat / 16 = 8 := header_nibble htype hqos
  have hfront := length_front h m.body
  have hdigits := Pkt.lengthDigits_length 5 m.body.length
  obtain ⟨w, hw⟩ : ∃ w, w = front h m.body := ⟨_, rfl⟩
  obtain ⟨buf, hbuf⟩ : ∃ buf, buf = wirePacket h m.body := ⟨_, rfl⟩
  rw [← hw] at hfront ⊢
  have hwhole : buf = w ++ (short m.msgId ++ m.subTopics.flatMap Topic.wire) := by
    rw [hbuf, hw]
    rfl
  have htopics := hwhole.trans (List.append_assoc ..).symm
  have hlen : buf.length = w.length + m.body.length := by
    rw [hwhole, List.length_append]
    rfl
  have hbyte : byteAt buf 0 = .ok h.encode := hbuf ▸ byteAt_wirePacket _ _
  have hlength : mqttRemainLength (buf.drop 1) = .ok (exchanged m.body.length, (Pkt.lengthDigits 5 m.body.length).length) := by
    rw [hbuf, mqttRemainLength_wirePacket _ hsize, if_neg hle]
  have hmsgId : getShort (buf.drop w.length) = m.msgId := by
    rw [hwhole]
    exact getShort_drop hid
  have hcount : m.subTopics.length < buf.length := by
    have hle := length_le_topics m.subTopics
    rw [hwhole, List.length_append, List.length_append]
    have hshort : (short m.msgId).length = 2 := rfl
    omega
  have hstart : (w ++ short m.msgId).length = w.length + 2 := List.length_append
  have hend : exchanged m.body.length + 1 + (Pkt.lengthDigits 5 m.body.length).length = w.length + exchanged m.body.length := by
    omega
  obtain ⟨offset, hrun⟩ := @decTopics_wire buf (w.length + exchanged m.body.length) (by omega) m.subTopics
    buf.length (w ++ short m.msgId) 0 [] htopics hcount (by rw [List.length_nil, Nat.zero_add]; exact hfew)
  rw [hstart, List.nil_append] at hrun
  refine ⟨offset, ?_⟩
  unfold mqttDecSubscribe
  rw [← hbuf, hbyte, ok_bind, if_neg (not_not.mpr hnibble), hlength, ok_bind]
  simp only
  rw [← hfront, hmsgId, hend, hrun, ok_bind]
  rfl

theorem subscribe_decode_wire {h : FixedHeader} {m : Subscribe} (htype : h.msgType = .subscribe) (hqos : h.qos ≤ 3)
    (hid : m.msgId < 65536) (hsize : m.body.length < 16384) : Subscribe.decode.decode (wirePacket h m.body) = some m := by
  have hfull := Subscribe.decode_wire htype hqos hid hsize
  unfold PktM.decode at hfull ⊢
  unfold Subscribe.decode
  rcases hx : Subscribe.decodeFull (Pkt.ofBuf (wirePacket h m.body)) with ⟨_ | ⟨h', m'⟩, p⟩
  · rw [hx] at hfull
    cases hfull
  · rw [hx] at hfull
    cases hfull
    rw [PktM.bind_some hx]
    rfl

/-- The stored topics give the packet's when none is left out and none is cut short. -/
theorem storedTopics_iff {ts topics : List Topic} (hfirst : ts <+: topics) (htwo : ∀ t ∈ topics, t.qos.toNat ≤ 2) :
    (ts.map storedTopic).map (fun t => (charPtr t.topicName, t.topicQos)) =
        topics.map (fun t => (t.topicName, t.qos.toNat)) ↔
      ts = topics ∧ ∀ t ∈ topics, NoNul t.topicName := by
  rw [List.map_map]
  constructor
  · intro h
    have hlen := congrArg List.length h
    rw [List.length_map, List.length_map] at hlen
    obtain rfl := hfirst.eq_of_length hlen
    refine ⟨rfl, fun t ht => ?_⟩
    exact charPtr_eq.mp (Prod.mk.inj (List.map_inj_left.mp h t ht)).1
  · rintro ⟨rfl, hnul⟩
    refine List.map_inj_left.mpr fun t ht => Prod.ext (charPtr_eq.mpr (hnul t ht)) ?_
    have hle := htwo t ht
    exact Nat.mod_eq_of_lt (by omega)

/-- **SUBSCRIBE**: a length that shrinks may still reach to the last topic. -/
theorem subscribe_agree_iff {h : FixedHeader} {m : Subscribe} (hvalid : (Packet.subscribe h m).Valid)
    (hsize : m.body.length < 16384) : (Packet.subscribe h m).Agree ↔ (Packet.subscribe h m).Plain := by
  obtain ⟨htype, hqos, hid, hfew, htwo⟩ := hvalid
  have hcpp := subscribe_decode_wire htype hqos hid hsize
  by_cases hlt : m.body.length < exchanged m.body.length
  · have hstop := mqttDecSubscribe_of_lt htype hqos hsize hlt
    constructor
    · rintro ⟨n, c, m', hc, -⟩
      have hc' : mqttDecSubscribe (wirePacket h m.body) true = .ok (n, c) := hc
      rw [hstop] at hc'
      cases hc'
    · rintro ⟨hle, -⟩
      omega
  · obtain ⟨offset, hrun⟩ := mqttDecSubscribe_of_le htype hqos hid hfew hsize hlt
    have hall := reached_eq_iff ((front h m.body).length + exchanged m.body.length) m.subTopics ((front h m.body).length + 2)
    have hfirst := reached_prefix ((front h m.body).length + exchanged m.body.length) m.subTopics ((front h m.body).length + 2)
    obtain ⟨ts, hts⟩ : ∃ ts, ts = reached ((front h m.body).length + exchanged m.body.length) ((front h m.body).length + 2)
      m.subTopics := ⟨_, rfl⟩
    rw [← hts] at hall hfirst hrun
    have hstored := storedTopics_iff hfirst htwo
    have hlast : (m.subTopics ≠ [] → (front h m.body).length + 2 + (m.subTopics.dropLast.flatMap Topic.wire).length <
        (front h m.body).length + exchanged m.body.length) ↔
        (m.subTopics ≠ [] → lastTopic m < exchanged m.body.length) := by
      refine forall_congr' fun _ => ?_
      unfold lastTopic
      omega
    constructor
    · rintro ⟨n, c, m', hc, hm', -, htopics⟩
      have hc' : mqttDecSubscribe (wirePacket h m.body) true = .ok (n, c) := hc
      have hm₁ : Subscribe.decode.decode (wirePacket h m.body) = some m' := hm'
      rw [hrun] at hc'
      rw [hcpp] at hm₁
      cases hc'
      cases hm₁
      obtain ⟨heq, hnul⟩ := hstored.mp htopics
      exact ⟨Nat.le_of_not_lt hlt, hlast.mp (hall.mp heq), hnul⟩
    · rintro ⟨-, hreach, hnul⟩
      exact ⟨_, _, _, hrun, hcpp, rfl, hstored.mpr ⟨hall.mpr (hlast.mpr hreach), hnul⟩⟩

/-! ## Where they agree -/

/-- **The decoders in C and in C++ agree on a packet exactly when it is plain.** -/
theorem decoders_agree_iff (p : Packet) (hvalid : p.Valid) (hlen : p.bytes.length ≤ 4096) : p.Agree ↔ p.Plain := by
  have hwire := wirePacket_length p.header p.body
  have hbytes : p.bytes.length = (wirePacket p.header p.body).length := rfl
  cases p with
  | publish m =>
      have hbody : (Packet.publish m).body.length = m.body.length := rfl
      exact publish_agree_iff hvalid (by omega)
  | connect h c =>
      have hbody : (Packet.connect h c).body.length = c.body.length := rfl
      exact connect_agree_iff hvalid (by omega)
  | subscribe h m =>
      have hbody : (Packet.subscribe h m).body.length = m.body.length := rfl
      exact subscribe_agree_iff hvalid (by omega)

/-- Two topics, in a packet of eleven bytes. -/
theorem decoders_agree_two : (Packet.subscribe { msgType := .subscribe, qos := 1 }
    { msgId := 1, subTopics := [{ topicName := [97], qos := 0 }, { topicName := [98], qos := 2 }] }).Agree :=
  (decoders_agree_iff _ (by decide) (by decide)).mpr (by decide)

/-- A client with a will: topic "t" and message "m". -/
def connectWithWill : Packet :=
  .connect { msgType := .connect }
    { flags := 6, keepAlive := 60, clientId := [99], willTopic := [116], willMessage := [109], userName := [], password := [] }

/-- A PUBLISH whose length takes two bytes, 130. -/
def publishOfTwoDigits : Packet :=
  .publish { header := { msgType := .publish, qos := 1 }, topicName := [97], msgId := 1, payload := List.replicate 125 120 }

/-- **They do not always.** -/
theorem not_decoders_agree :
    (connectWithWill.Valid ∧ connectWithWill.bytes.length ≤ 4096 ∧ ¬ connectWithWill.Agree) ∧
      publishOfTwoDigits.Valid ∧ publishOfTwoDigits.bytes.length ≤ 4096 ∧ ¬ publishOfTwoDigits.Agree := by
  have hwill : connectWithWill.Valid := by decide
  have hdigits : publishOfTwoDigits.Valid := by decide
  refine ⟨⟨hwill, by decide, fun h => ?_⟩, hdigits, by decide +kernel, fun h => ?_⟩
  · have hplain := (connect_agree_iff hwill (by decide)).mp h
    exact absurd hplain (show ¬ connectWithWill.Plain by decide)
  · have hplain := (publish_agree_iff hdigits (by decide +kernel)).mp h
    exact absurd hplain (show ¬ publishOfTwoDigits.Plain by decide +kernel)

end Ansi
end MqttServer
