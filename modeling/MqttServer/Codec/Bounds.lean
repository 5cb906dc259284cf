import MqttServer.Codec.Ansi

/-!
# `Codec.Bounds` — when the decoders in C stay inside the buffer

The decoders in C add up lengths taken from the packet and check them late or against a bound of their own. A run stays inside
the buffer (`Inside`) when each of its reads does; a sequence of reads is inside when every part of it is (`inside_bind`). For
each decoder the reads that are not guarded by a check are named (`ConnectFits`, `PublishFits`, `SubscribeFits`), and
`decoders_inside_iff` says that nothing else can go wrong.
-/

namespace MqttServer
namespace Ansi

/-! ## Runs inside the buffer -/

/-- No read outside the buffer. -/
def Inside {α : Type} (x : DecM α) : Prop := x ≠ .error .outOfBounds

instance {α : Type} [DecidableEq α] (x : DecM α) : Decidable (Inside x) := inferInstanceAs (Decidable (x ≠ _))

section Inside

variable {α β : Type} {x : DecM α} {f : α → DecM β} {buf : ByteStr} {offset : Nat}

theorem inside_ok (a : α) : Inside (.ok a : DecM α) := fun h => by cases h

theorem inside_returned (res : Int) : Inside (.error (.returned res) : DecM α) := fun h => by cases h

theorem inside_fail : Inside (fail : DecM α) := inside_returned failure

theorem not_inside : ¬ Inside (.error .outOfBounds : DecM α) := fun h => h rfl

/-- A run that stops early. -/
theorem inside_error {e : Stop} (h : Inside x) (he : x = .error e) : Inside (.error e : DecM β) := by
  intro hout
  cases hout
  exact h he

/-- **A sequence is inside** when its first part is, and what follows it as well. -/
theorem inside_bind : Inside (x >>= f) ↔ Inside x ∧ ∀ a, x = .ok a → Inside (f a) := by
  cases x with
  | ok a =>
      refine ⟨fun h => ⟨inside_ok a, ?_⟩, fun h => h.2 a rfl⟩
      rintro b ⟨⟩
      exact h
  | error e =>
      refine ⟨fun h => ⟨fun he => h (congrArg _ (Except.error.inj he)), ?_⟩, fun h he => h.1 (congrArg _ (Except.error.inj he))⟩
      rintro b ⟨⟩

theorem byteAt_inside : Inside (byteAt buf offset) ↔ offset < buf.length := by
  unfold byteAt
  by_cases hin : offset < buf.length
  · rw [List.getElem?_eq_getElem hin]
    exact ⟨fun _ => hin, fun _ => inside_ok _⟩
  · rw [List.getElem?_eq_none (Nat.le_of_not_lt hin)]
    exact ⟨fun h => absurd h not_inside, fun h => absurd h hin⟩

theorem mqttRemainLength_inside : Inside (mqttRemainLength buf) := by
  unfold mqttRemainLength
  split
  · exact inside_returned _
  · split
    · exact inside_returned _
    · exact inside_ok _

theorem getString_inside : Inside (getString buf offset) := by
  unfold getString
  simp only
  split
  · exact inside_fail
  · exact inside_ok _

/-- A string ends where the next field begins. -/
theorem getString_ok {p : Part} {next : Nat} (h : getString buf offset = .ok (p, next)) :
    p.start = offset + 2 ∧ p.start + p.len = next := by
  unfold getString at h
  simp only at h
  split at h
  · cases h
  · cases h
    exact ⟨rfl, by simp only; omega⟩

theorem getStringIf_inside {flag : Bool} : Inside (getStringIf flag buf offset) := by
  cases flag with
  | false => exact inside_ok _
  | true => exact getString_inside

theorem getStringIf_ok {flag : Bool} {p : Part} {next : Nat} (h : getStringIf flag buf offset = .ok (p, next)) :
    offset ≤ next ∧ (flag = true → p.start + p.len = next) := by
  cases flag with
  | false =>
      cases h
      exact ⟨Nat.le_refl _, fun h => absurd h Bool.false_ne_true⟩
  | true =>
      obtain ⟨hstart, hnext⟩ := getString_ok h
      exact ⟨by omega, fun _ => hnext⟩

/-- The copy of a string reads its bytes. -/
theorem newString_inside {start len : Nat} : Inside (newString buf start len) ↔ len = 0 ∨ start + len ≤ buf.length := by
  unfold newString
  rw [if_neg (by omega), Int.toNat_natCast]
  by_cases hfit : len = 0 ∨ start + len ≤ buf.length
  · rw [if_pos ⟨Int.natCast_nonneg _, hfit.imp_left fun h => by rw [h]; rfl⟩]
    exact ⟨fun _ => hfit, fun _ => inside_ok _⟩
  · rw [if_neg (fun h => hfit (h.2.imp_left fun h => Int.natCast_eq_zero.mp h))]
    exact ⟨fun h => absurd h not_inside, fun h => absurd h hfit⟩

/-- A copy fails in no other way. -/
theorem newString_ok {start : Nat} {len : Int} (h : Inside (newString buf start len)) : ∃ p, newString buf start len = .ok p := by
  unfold newString at h ⊢
  split
  · exact ⟨none, rfl⟩
  · rename_i hlarge
    rw [if_neg hlarge] at h
    split
    · exact ⟨_, rfl⟩
    · rename_i hfit
      rw [if_neg hfit] at h
      exact absurd h not_inside

theorem newStringIf_inside {flag : Bool} {p : Part} (h : flag = true → p.start + p.len ≤ buf.length) :
    Inside (newStringIf flag buf p) := by
  cases flag with
  | false => exact inside_ok _
  | true => exact newString_inside.mpr (Or.inr (h rfl))

end Inside

/-! ## CONNECT -/

/-- The type of a packet. -/
def packetType (buf : ByteStr) : Nat := (buf.getD 0 0).toNat / 16

/-- The bytes are those of one of the two protocol names. -/
def NameRight (buf : ByteStr) (p : Part) : Prop :=
  p.len = 6 ∧ (buf.drop p.start).take 6 = mqIsdp ∨ p.len = 4 ∧ (buf.drop p.start).take 4 = [77, 81, 84, 84]

/-- The reads of `mqtt_dec_connect` that nothing guards: the bytes of a name of the right length, the version behind the right
    name, the flags behind the right version. -/
def ConnectFits (buf : ByteStr) : Prop :=
  packetType buf = 1 → ∀ value bytes name next, mqttRemainLength (buf.drop 1) = .ok (value, bytes) →
    getString buf (1 + bytes) = .ok (name, next) → name.len = 6 ∨ name.len = 4 →
    next ≤ buf.length ∧ (NameRight buf name → next < buf.length ∧ (byteAt buf next = .ok 3 → next + 1 < buf.length))

section Connect

variable {buf : ByteStr}

theorem byteAt_zero (hlen : 2 ≤ buf.length) : byteAt buf 0 = .ok (buf.getD 0 0) := by
  unfold byteAt
  rw [List.getD_eq_getElem?_getD, List.getElem?_eq_getElem (by omega)]
  rfl

/-- The comparison with one name. -/
theorem compared_inside {start : Nat} {name : ByteStr} :
    Inside (differs buf start name >>= fun wrong => if wrong then fail else pure () : DecM Unit) ↔
      start + name.length ≤ buf.length := by
  unfold differs
  by_cases hin : start + name.length ≤ buf.length
  · rw [if_pos hin]
    refine ⟨fun _ => hin, fun _ => ?_⟩
    show Inside (if _ then _ else _)
    split
    · exact inside_fail
    · exact inside_ok ()
  · rw [if_neg hin]
    exact ⟨fun h => absurd h not_inside, fun h => absurd h hin⟩

theorem compared_ok {start : Nat} {name : ByteStr} (hin : start + name.length ≤ buf.length) :
    (differs buf start name >>= fun wrong => if wrong then fail else pure () : DecM Unit) = .ok () ↔
      (buf.drop start).take name.length = name := by
  unfold differs
  rw [if_pos hin]
  show (if decide ((buf.drop start).take name.length ≠ name) = true then fail else pure ()) = .ok () ↔ _
  by_cases hname : (buf.drop start).take name.length = name
  · rw [if_neg (by simp [hname])]
    exact ⟨fun _ => hname, fun _ => rfl⟩
  · rw [if_pos (by simp [hname])]
    exact ⟨(fun h => by cases h), fun h => absurd h hname⟩

theorem checkProtocolName_inside {p : Part} :
    Inside (checkProtocolName buf p) ↔ (p.len = 6 ∨ p.len = 4 → p.start + p.len ≤ buf.length) := by
  unfold checkProtocolName
  by_cases hsix : p.len = 6
  · rw [if_pos hsix, compared_inside, hsix]
    exact ⟨fun h _ => h, fun h => h (Or.inl rfl)⟩
  · rw [if_neg hsix]
    by_cases hfour : p.len = 4
    · rw [if_pos hfour, compared_inside, hfour]
      exact ⟨fun h _ => h, fun h => h (Or.inr rfl)⟩
    · rw [if_neg hfour]
      exact ⟨fun _ h => absurd h (not_or.mpr ⟨hsix, hfour⟩), fun _ => inside_fail⟩

/-- Any other name is refused. -/
theorem checkProtocolName_ok {p : Part} (hin : p.len = 6 ∨ p.len = 4 → p.start + p.len ≤ buf.length) :
    checkProtocolName buf p = .ok () ↔ NameRight buf p := by
  unfold checkProtocolName NameRight
  by_cases hsix : p.len = 6
  · have hfit : p.start + mqIsdp.length ≤ buf.length := by
      have h := hin (Or.inl hsix)
      rwa [hsix] at h
    rw [if_pos hsix, compared_ok hfit]
    exact ⟨fun h => Or.inl ⟨hsix, h⟩, fun h => h.elim (fun h => h.2) fun h => by omega⟩
  · rw [if_neg hsix]
    by_cases hfour : p.len = 4
    · have hfit : p.start + ([77, 81, 84, 84] : ByteStr).length ≤ buf.length := by
        have h := hin (Or.inr hfour)
        rwa [hfour] at h
      rw [if_pos hfour, compared_ok hfit]
      exact ⟨fun h => Or.inr ⟨hfour, h⟩, fun h => h.elim (fun h => absurd h.1 hsix) fun h => h.2⟩
    · rw [if_neg hfour]
      exact ⟨(fun h => by cases h), fun h => h.elim (fun h => absurd h.1 hsix) fun h => absurd h.1 hfour⟩

theorem connect_inside_iff (hlen : 2 ≤ buf.length) : Inside (mqttDecConnect buf) ↔ ConnectFits buf := by
  unfold mqttDecConnect ConnectFits packetType
  rw [byteAt_zero hlen]
  show Inside (if _ then _ else _) ↔ _
  by_cases htype : (buf.getD 0 0).toNat / 16 = 1
  · rw [if_neg (not_not.mpr htype)]
    constructor
    · intro h _ value bytes name next hlength hname hkind
      rw [hlength, ok_bind] at h
      simp only at h
      rw [hname, ok_bind] at h
      simp only at h
      obtain ⟨hcheck, hrest⟩ := inside_bind.mp h
      have hend := (getString_ok hname).2
      have hin := checkProtocolName_inside.mp hcheck hkind
      refine ⟨by omega, fun hright => ?_⟩
      obtain ⟨hver, hrest⟩ := inside_bind.mp (hrest () ((checkProtocolName_ok fun _ => hin).mpr hright))
      refine ⟨byteAt_inside.mp hver, fun hthree => ?_⟩
      have hflags := hrest 3 hthree
      rw [if_neg (not_not.mpr rfl)] at hflags
      exact byteAt_inside.mp (inside_bind.mp hflags).1
    · intro h
      refine inside_bind.mpr ⟨mqttRemainLength_inside, ?_⟩
      rintro ⟨value, bytes⟩ hlength
      refine inside_bind.mpr ⟨getString_inside, ?_⟩
      rintro ⟨name, next⟩ hname
      have hfits := h htype value bytes name next hlength hname
      have hend := (getString_ok hname).2
      have hin : name.len = 6 ∨ name.len = 4 → name.start + name.len ≤ buf.length := by
        intro hkind
        have hle := (hfits hkind).1
        omega
      refine inside_bind.mpr ⟨checkProtocolName_inside.mpr hin, ?_⟩
      rintro ⟨⟩ hcheck
      have hright := (checkProtocolName_ok hin).mp hcheck
      obtain ⟨hnext, hver⟩ := (hfits (hright.imp And.left And.left)).2 hright
      refine inside_bind.mpr ⟨byteAt_inside.mpr hnext, ?_⟩
      intro protocolVer hprotocolVer
      by_cases hthree : protocolVer = 3
      · rw [if_neg (not_not.mpr hthree)]
        rw [hthree] at hprotocolVer
        refine inside_bind.mpr ⟨byteAt_inside.mpr (hver hprotocolVer), ?_⟩
        intro flags _
        -- from here on only strings are read, and they end in front of the offset that is checked at the end
        refine inside_bind.mpr ⟨getStringIf_inside, ?_⟩
        rintro ⟨willMsg, offset₁⟩ hwillMsg
        refine inside_bind.mpr ⟨getStringIf_inside, ?_⟩
        rintro ⟨willTopic, offset₂⟩ hwillTopic
        refine inside_bind.mpr ⟨getStringIf_inside, ?_⟩
        rintro ⟨userName, offset₃⟩ huserName
        refine inside_bind.mpr ⟨getStringIf_inside, ?_⟩
        rintro ⟨userPasswd, offset⟩ huserPasswd
        obtain ⟨hle₁, hwillMsg⟩ := getStringIf_ok hwillMsg
        obtain ⟨hle₂, hwillTopic⟩ := getStringIf_ok hwillTopic
        obtain ⟨hle₃, huserName⟩ := getStringIf_ok huserName
        obtain ⟨hle₄, huserPasswd⟩ := getStringIf_ok huserPasswd
        simp only
        by_cases hover : offset > buf.length ∨ offset > value + 1 + bytes
        · rw [if_pos hover]
          exact inside_fail
        · have hoffset : offset ≤ buf.length := Nat.le_of_not_lt (not_or.mp hover).1
          rw [if_neg hover]
          refine inside_bind.mpr ⟨newString_inside.mpr (Or.inr (by omega)), fun _ _ => ?_⟩
          refine inside_bind.mpr ⟨newString_inside.mpr (Or.inr (by omega)), fun _ _ => ?_⟩
          refine inside_bind.mpr ⟨newStringIf_inside fun hflag => ?_, fun _ _ => ?_⟩
          · have hlast := hwillMsg hflag
            omega
          refine inside_bind.mpr ⟨newStringIf_inside fun hflag => ?_, fun _ _ => ?_⟩
          · have hlast := hwillTopic hflag
            omega
          refine inside_bind.mpr ⟨newStringIf_inside fun hflag => ?_, fun _ _ => ?_⟩
          · have hlast := huserName hflag
            omega
          refine inside_bind.mpr ⟨newStringIf_inside fun hflag => ?_, fun _ _ => inside_ok _⟩
          have hlast := huserPasswd hflag
          omega
      · rw [if_pos hthree]
        exact inside_fail
  · rw [if_pos htype]
    exact ⟨fun _ h => absurd h htype, fun _ => inside_fail⟩

end Connect

/-! ## PUBLISH -/

/-- The run stays inside the buffer, and the length of the payload is not negative. -/
def PublishInside (buf : ByteStr) : Prop :=
  Inside (mqttDecPublish buf) ∧ ∀ n m, mqttDecPublish buf = .ok (n, m) → 0 ≤ m.payloadLen

/-- What nothing checks in `mqtt_dec_publish`: that the topic ends in the buffer, that the message id ends in the packet, and that
    a payload ends in the buffer. -/
def PublishFits (buf : ByteStr) : Prop :=
  packetType buf = 3 → ∀ value bytes topic next, mqttRemainLength (buf.drop 1) = .ok (value, bytes) →
    getString buf (1 + bytes) = .ok (topic, next) →
    (topic.len = 0 ∨ next ≤ buf.length) ∧ next + 2 ≤ value + 1 + bytes ∧
      (next + 2 = value + 1 + bytes ∨ value + 1 + bytes ≤ buf.length)

section Publish

variable {buf : ByteStr}

/-- The copy of the payload, with its length. -/
theorem payload_inside {start : Nat} {len : Int} :
    Inside (newString buf start len) ∧ 0 ≤ len ↔ 0 ≤ len ∧ (len = 0 ∨ start + len ≤ buf.length) := by
  by_cases hneg : 0 ≤ len
  · obtain ⟨n, rfl⟩ := Int.eq_ofNat_of_zero_le hneg
    rw [newString_inside]
    refine ⟨fun h => ⟨hneg, h.1.imp (fun h => by rw [h]; rfl) fun h => by exact_mod_cast h⟩, fun h => ⟨?_, hneg⟩⟩
    exact h.2.imp Int.natCast_eq_zero.mp fun h => by exact_mod_cast h
  · exact ⟨fun h => absurd h.2 hneg, fun h => absurd h.1 hneg⟩

theorem publish_inside_iff (hlen : 2 ≤ buf.length) : PublishInside buf ↔ PublishFits buf := by
  unfold PublishInside mqttDecPublish PublishFits packetType
  rw [byteAt_zero hlen, ok_bind]
  by_cases htype : (buf.getD 0 0).toNat / 16 = 3
  · rw [if_neg (not_not.mpr htype)]
    constructor
    · rintro ⟨h, hpos⟩ - value bytes topic next hlength htopic
      rw [hlength, ok_bind] at h hpos
      simp only at h hpos
      rw [htopic, ok_bind] at h hpos
      simp only at h hpos
      have hend := (getString_ok htopic).2
      obtain ⟨hname, -⟩ := inside_bind.mp h
      obtain ⟨name, hcopy⟩ := newString_ok hname
      rw [hcopy, ok_bind] at h hpos
      obtain ⟨hdata, -⟩ := inside_bind.mp h
      obtain ⟨data, hcopy⟩ := newString_ok hdata
      rw [hcopy, ok_bind] at hpos
      obtain ⟨hlong, hfit⟩ := payload_inside.mp ⟨hdata, hpos _ _ rfl⟩
      refine ⟨(newString_inside.mp hname).imp id fun h => by omega, by omega, ?_⟩
      omega
    · intro h
      cases hlength : mqttRemainLength (buf.drop 1) with
      | error e => exact ⟨inside_error mqttRemainLength_inside hlength, fun n m hm => by cases hm⟩
      | ok length =>
          obtain ⟨value, bytes⟩ := length
          rw [ok_bind]
          simp only
          cases htopic : getString buf (1 + bytes) with
          | error e => exact ⟨inside_error getString_inside htopic, fun n m hm => by cases hm⟩
          | ok part =>
              obtain ⟨topic, next⟩ := part
              have hend := (getString_ok htopic).2
              obtain ⟨hname, hpos, hfit⟩ := h htype value bytes topic next hlength htopic
              obtain ⟨name, hcopy⟩ := newString_ok (newString_inside.mpr (hname.imp_right fun h => hend ▸ h))
              have hdata : Inside (newString buf (next + 2) ((value + 1 + bytes : Nat) - (next + 2 : Nat) : Int)) :=
                (payload_inside.mpr ⟨by omega, by omega⟩).1
              obtain ⟨data, hcopy'⟩ := newString_ok hdata
              rw [ok_bind]
              simp only
              rw [hcopy, ok_bind, hcopy', ok_bind]
              refine ⟨inside_ok _, ?_⟩
              rintro n m ⟨⟩
              simp only
              omega
  · rw [if_pos htype]
    refine ⟨fun _ h => absurd h htype, fun _ => ⟨inside_fail, fun n m h => by cases h⟩⟩

end Publish

/-! ## SUBSCRIBE -/

/-- The run stays inside the buffer, and no more topics are stored than there is room for. -/
def SubscribeInside (buf : ByteStr) (subcribe : Bool) : Prop :=
  Inside (mqttDecSubscribe buf subcribe) ∧
    ∀ n m, mqttDecSubscribe buf subcribe = .ok (n, m) → m.topics.length ≤ maxTopicNum

/-- Where the entry behind a topic begins. -/
def entryEnd (subcribe : Bool) (next : Nat) : Nat := if subcribe then next + 1 else next

/-- `Entries buf pktEnd subcribe n first offset`: the entry `n` places behind the one at `first` begins at `offset`. -/
inductive Entries (buf : ByteStr) (pktEnd : Nat) (subcribe : Bool) : Nat → Nat → Nat → Prop
  | here (offset : Nat) : Entries buf pktEnd subcribe 0 offset offset
  | behind {n first offset next : Nat} {topic : Part} (hbuf : first < buf.length) (hpkt : first < pktEnd)
      (htopic : getString buf first = .ok (topic, next))
      (hrest : Entries buf pktEnd subcribe n (entryEnd subcribe next) offset) :
      Entries buf pktEnd subcribe (n + 1) first offset

/-- The entries from the one at `first` on, the first of them being number `count`: those that begin in the packet have their QoS
    in the buffer, and the topics that are stored end in it. -/
def EntriesFit (buf : ByteStr) (pktEnd : Nat) (subcribe : Bool) (count first : Nat) : Prop :=
  ∀ n offset topic next, count + n ≤ maxTopicNum → Entries buf pktEnd subcribe n first offset → offset < buf.length →
    offset < pktEnd → getString buf offset = .ok (topic, next) →
    (subcribe = true → next < buf.length) ∧ (count + n < maxTopicNum → topic.len = 0 ∨ next ≤ buf.length)

/-- What nothing checks in `mqtt_dec_subscribe`: where its entries end. One entry more is looked at than is stored. -/
def SubscribeFits (buf : ByteStr) (subcribe : Bool) : Prop :=
  packetType buf = 8 → ∀ value bytes, mqttRemainLength (buf.drop 1) = .ok (value, bytes) →
    EntriesFit buf (value + 1 + bytes) subcribe 0 (1 + bytes + 2)

section Subscribe

variable {buf : ByteStr} {pktEnd : Nat} {subcribe : Bool}

/-- The QoS behind a topic. -/
def readQos (buf : ByteStr) (subcribe : Bool) (topicQos offset : Nat) : DecM (Nat × Nat) :=
  if subcribe then do
    let b ← byteAt buf offset
    pure (b.toNat % 4, offset + 1)
  else pure (topicQos, offset)

theorem readQos_inside {topicQos offset : Nat} :
    Inside (readQos buf subcribe topicQos offset) ↔ (subcribe = true → offset < buf.length) := by
  cases subcribe with
  | false => exact ⟨fun _ h => absurd h Bool.false_ne_true, fun _ => inside_ok _⟩
  | true =>
      show Inside (byteAt buf offset >>= fun b => pure (b.toNat % 4, offset + 1)) ↔ _
      refine ⟨fun h _ => byteAt_inside.mp (inside_bind.mp h).1, fun h => ?_⟩
      exact inside_bind.mpr ⟨byteAt_inside.mpr (h rfl), fun _ _ => inside_ok _⟩

theorem readQos_ok {topicQos offset : Nat} {r : Nat × Nat} (h : readQos buf subcribe topicQos offset = .ok r) :
    r.2 = entryEnd subcribe offset := by
  cases subcribe with
  | false =>
      cases h
      rfl
  | true =>
      obtain ⟨b, -, hb⟩ := ok_of_bind (x := byteAt buf offset) h
      cases hb
      rfl

theorem readQos_total {topicQos offset : Nat} (h : Inside (readQos buf subcribe topicQos offset)) :
    ∃ r, readQos buf subcribe topicQos offset = .ok r := by
  cases subcribe with
  | false => exact ⟨_, rfl⟩
  | true =>
      have hin := readQos_inside.mp h rfl
      unfold readQos byteAt
      rw [if_pos rfl, List.getElem?_eq_getElem hin]
      exact ⟨_, rfl⟩

theorem le_entryEnd (subcribe : Bool) (next : Nat) : next ≤ entryEnd subcribe next := by
  unfold entryEnd
  split
  · exact Nat.le_succ next
  · exact Nat.le_refl next

/-- One round of the loop. -/
theorem decTopics_succ (fuel offset topicQos : Nat) (topics : List TMqttTopic) :
    decTopics buf pktEnd subcribe (fuel + 1) offset topicQos topics =
      if offset < buf.length ∧ offset < pktEnd then
        getString buf offset >>= fun s => readQos buf subcribe topicQos s.2 >>= fun r =>
          if topics.length > maxTopicNum - 1 then pure (r.2, topics)
          else newString buf s.1.start s.1.len >>= fun topicName =>
            decTopics buf pktEnd subcribe fuel r.2 r.1 (topics ++ [{ topicName, topicQos := r.1 }])
      else .ok (offset, topics) := rfl

theorem decTopics_few (fuel : Nat) : ∀ (offset topicQos : Nat) (topics : List TMqttTopic), topics.length ≤ maxTopicNum →
    ∀ r, decTopics buf pktEnd subcribe fuel offset topicQos topics = .ok r → r.2.length ≤ maxTopicNum := by
  induction fuel with
  | zero =>
      rintro offset topicQos topics hfew r ⟨⟩
      exact hfew
  | succ fuel ih =>
      intro offset topicQos topics hfew r h
      rw [decTopics_succ] at h
      by_cases hin : offset < buf.length ∧ offset < pktEnd
      · rw [if_pos hin] at h
        obtain ⟨s, -, h⟩ := ok_of_bind h
        obtain ⟨q, -, h⟩ := ok_of_bind h
        by_cases hfull : topics.length > maxTopicNum - 1
        · rw [if_pos hfull] at h
          cases h
          exact hfew
        · rw [if_neg hfull] at h
          obtain ⟨name, -, h⟩ := ok_of_bind h
          have hroom : maxTopicNum = 5 := rfl
          refine ih _ _ _ ?_ r h
          rw [List.length_append, List.length_singleton]
          omega
      · rw [if_neg hin] at h
        cases h
        exact hfew

/-- Behind the packet there is nothing to fit. -/
theorem entriesFit_out {count offset : Nat} (h : ¬ (offset < buf.length ∧ offset < pktEnd)) :
    EntriesFit buf pktEnd subcribe count offset := by
  intro n last topic next _ hentries hbuf hpkt _
  cases hentries with
  | here => exact absurd ⟨hbuf, hpkt⟩ h
  | behind hbuf' hpkt' => exact absurd ⟨hbuf', hpkt'⟩ h

/-- Nor behind an entry that is refused. -/
theorem entriesFit_stop {count offset : Nat} {e : Stop} (h : getString buf offset = .error e) :
    EntriesFit buf pktEnd subcribe count offset := by
  intro n last topic next _ hentries _ _ htopic
  cases hentries with
  | here =>
      rw [h] at htopic
      cases htopic
  | behind _ _ htopic' =>
      rw [h] at htopic'
      cases htopic'

theorem entriesFit_step {count offset next : Nat} {topic : Part} (hin : offset < buf.length ∧ offset < pktEnd)
    (hcount : count ≤ maxTopicNum) (htopic : getString buf offset = .ok (topic, next)) :
    EntriesFit buf pktEnd subcribe count offset ↔
      (subcribe = true → next < buf.length) ∧
        (count < maxTopicNum → (topic.len = 0 ∨ next ≤ buf.length) ∧
          EntriesFit buf pktEnd subcribe (count + 1) (entryEnd subcribe next)) := by
  constructor
  · intro h
    obtain ⟨hqos, hname⟩ := h 0 offset topic next hcount (.here offset) hin.1 hin.2 htopic
    refine ⟨hqos, fun hlt => ⟨hname hlt, ?_⟩⟩
    intro n last topic' next' hn hentries hbuf hpkt htopic'
    obtain ⟨hqos', hname'⟩ := h (n + 1) last topic' next' (by omega) (.behind hin.1 hin.2 htopic hentries) hbuf hpkt htopic'
    exact ⟨hqos', fun hlt' => hname' (by omega)⟩
  · rintro ⟨hqos, hrest⟩ n last topic' next' hn hentries hbuf hpkt htopic'
    cases hentries with
    | here =>
        rw [htopic] at htopic'
        cases htopic'
        exact ⟨hqos, fun hlt => (hrest hlt).1⟩
    | @behind n _ _ _ _ _ _ htopic'' hentries =>
        rw [htopic] at htopic''
        cases htopic''
        obtain ⟨hqos', hname'⟩ := (hrest (by omega)).2 n last topic' next' (by omega) hentries hbuf hpkt htopic'
        exact ⟨hqos', fun hlt' => hname' (by omega)⟩

/-- **The loop**: every round reads one entry, and a round moves the offset by two at least. -/
theorem decTopics_inside_iff (fuel : Nat) : ∀ (offset topicQos : Nat) (topics : List TMqttTopic),
    buf.length ≤ offset + fuel → topics.length ≤ maxTopicNum →
    (Inside (decTopics buf pktEnd subcribe fuel offset topicQos topics) ↔
      EntriesFit buf pktEnd subcribe topics.length offset) := by
  induction fuel with
  | zero =>
      intro offset topicQos topics hfuel _
      exact ⟨fun _ => entriesFit_out fun h => by omega, fun _ => inside_ok _⟩
  | succ fuel ih =>
      intro offset topicQos topics hfuel hfew
      rw [decTopics_succ]
      by_cases hin : offset < buf.length ∧ offset < pktEnd
      · rw [if_pos hin]
        cases htopic : getString buf offset with
        | error e => exact ⟨fun _ => entriesFit_stop htopic, fun _ => inside_error getString_inside htopic⟩
        | ok part =>
            obtain ⟨topic, next⟩ := part
            obtain ⟨hstart, hend⟩ := getString_ok htopic
            have hnext := le_entryEnd subcribe next
            have hcount : maxTopicNum = 5 := rfl
            rw [ok_bind, entriesFit_step hin hfew htopic, inside_bind]
            simp only
            constructor
            · rintro ⟨hqos, hrest⟩
              refine ⟨readQos_inside.mp hqos, fun hlt => ?_⟩
              obtain ⟨r, hr⟩ := readQos_total hqos
              have hround := hrest r hr
              rw [if_neg (by omega)] at hround
              obtain ⟨hname, hloop⟩ := inside_bind.mp hround
              obtain ⟨name, hcopy⟩ := newString_ok hname
              have hfits := (ih _ _ _ (by rw [readQos_ok hr]; omega) (by rw [List.length_append, List.length_singleton]; omega)).mp
                (hloop name hcopy)
              rw [readQos_ok hr, List.length_append, List.length_singleton] at hfits
              exact ⟨(newString_inside.mp hname).imp_right fun h => by omega, hfits⟩
            · rintro ⟨hqos, hrest⟩
              refine ⟨readQos_inside.mpr hqos, fun r hr => ?_⟩
              by_cases hfull : topics.length > maxTopicNum - 1
              · rw [if_pos hfull]
                exact inside_ok _
              · rw [if_neg hfull]
                obtain ⟨hname, hfits⟩ := hrest (by omega)
                refine inside_bind.mpr ⟨newString_inside.mpr (hname.imp_right fun h => by omega), fun name _ => ?_⟩
                refine (ih _ _ _ (by rw [readQos_ok hr]; omega) (by rw [List.length_append, List.length_singleton]; omega)).mpr ?_
                rw [readQos_ok hr, List.length_append, List.length_singleton]
                exact hfits
      · rw [if_neg hin]
        exact ⟨fun _ => entriesFit_out hin, fun _ => inside_ok _⟩

theorem subscribe_inside_iff (hlen : 2 ≤ buf.length) : SubscribeInside buf subcribe ↔ SubscribeFits buf subcribe := by
  unfold SubscribeInside mqttDecSubscribe SubscribeFits packetType
  rw [byteAt_zero hlen, ok_bind]
  by_cases htype : (buf.getD 0 0).toNat / 16 = 8
  · rw [if_neg (not_not.mpr htype)]
    cases hlength : mqttRemainLength (buf.drop 1) with
    | error e =>
        refine ⟨fun _ _ value bytes h => (by cases h), fun _ => ?_⟩
        exact ⟨inside_error mqttRemainLength_inside hlength, fun n m hm => by cases hm⟩
    | ok length =>
        obtain ⟨value, bytes⟩ := length
        have hloop := @decTopics_inside_iff buf (value + 1 + bytes) subcribe buf.length (1 + bytes + 2) 0 [] (by omega)
          (Nat.zero_le _)
        rw [ok_bind]
        simp only
        constructor
        · rintro ⟨h, -⟩ - value' bytes' heq
          cases heq
          exact hloop.mp (inside_bind.mp h).1
        · intro h
          refine ⟨inside_bind.mpr ⟨hloop.mpr (h htype value bytes rfl), fun _ _ => inside_ok _⟩, fun n m hm => ?_⟩
          obtain ⟨r, hr, hpure⟩ := ok_of_bind hm
          cases hpure
          exact decTopics_few buf.length _ _ [] (Nat.zero_le _) r hr
  · rw [if_pos htype]
    exact ⟨fun _ h => absurd h htype, fun _ => ⟨inside_fail, fun n m h => by cases h⟩⟩

end Subscribe

/-! ## When they stay inside -/

/-- **Each decoder stays inside the buffer exactly when the reads that nothing guards fit.** -/
theorem decoders_inside_iff (buf : ByteStr) (hlen : 2 ≤ buf.length) :
    (Inside (mqttDecConnect buf) ↔ ConnectFits buf) ∧ (PublishInside buf ↔ PublishFits buf) ∧
      ∀ subcribe, SubscribeInside buf subcribe ↔ SubscribeFits buf subcribe :=
  ⟨connect_inside_iff hlen, publish_inside_iff hlen, fun _ => subscribe_inside_iff hlen⟩

/-- A CONNECT of version 3. -/
theorem decoders_inside_connect : ConnectFits [16, 15, 0, 6, 77, 81, 73, 115, 100, 112, 3, 2, 0, 60, 0, 1, 99] :=
  (decoders_inside_iff [16, 15, 0, 6, 77, 81, 73, 115, 100, 112, 3, 2, 0, 60, 0, 1, 99] (by decide)).1.mp (by decide +kernel)

/-- **They leave it** on a CONNECT that ends with its protocol name, on a PUBLISH without a message id (topic "a", payload "x"),
    and on a SUBSCRIBE that ends with its topic. -/
theorem not_decoders_inside :
    ¬ Inside (mqttDecConnect [16, 6, 0, 4, 77, 81, 84, 84]) ∧ ¬ PublishInside [48, 4, 0, 1, 97, 120] ∧
      ¬ SubscribeInside [130, 5, 0, 1, 0, 1, 97] true :=
  ⟨by decide +kernel, fun h => absurd h.1 (by decide +kernel), fun h => absurd h.1 (by decide +kernel)⟩

end Ansi
end MqttServer
