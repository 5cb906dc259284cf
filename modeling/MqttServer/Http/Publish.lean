import MqttServer.Http.Cuts

/-!
# `Http.Publish` — what a publish request is made into

`notify_mqtt_publish` reads the parameters of a request and makes a PUBLISH of them. Topic and message are those of the
request. The retain parameter is looked at only when it is missing, so that the flag is never set, and the QoS goes through
eight bits before it is clamped (`publish_translates_iff`).
-/

namespace MqttServer

open StrTools

/-! ## The parameters -/

/-- **A faithful translation** of the parameters of a request. -/
structure Translates (req : HTTPRequest) (topic msg : ByteStr) (m : Publish) : Prop where
  topicName : m.topicName = topic
  payload : m.payload = msg
  retain : m.header.retainFlag = true ↔ ∃ value, req.queryParam (text "retain") = some value ∧ atoi value ≠ 0
  qos : (m.header.qos : Int) = match req.queryParam (text "qos") with
    | some value => min (atoi value) 1
    | none => 1

/-- The retain parameter, if there is one, is zero. -/
def RetainZero (req : HTTPRequest) : Prop := ∀ value, req.queryParam (text "retain") = some value → atoi value = 0

/-- The QoS parameter, if there is one, is not negative, and zero when its low eight bits are. -/
def QosKept (req : HTTPRequest) : Prop := ∀ value, req.queryParam (text "qos") = some value →
  0 ≤ atoi value ∧ (atoi value % 256 = 0 → atoi value = 0)

/-- No request sets the retain flag. -/
theorem publishParams_retain (req : HTTPRequest) (dup : Bool) : (publishParams req dup).header.retainFlag = false := by
  unfold publishParams
  cases req.queryParam (text "retain") with
  | none => rfl
  | some value => rfl

theorem flagParam_eq_iff (value : ByteStr) :
    (flagParam value : Int) = min (atoi value) 1 ↔ 0 ≤ atoi value ∧ (atoi value % 256 = 0 → atoi value = 0) := by
  unfold flagParam
  omega

/-- The QoS of the packet is the parameter, clamped, exactly when the eight bits do not lose it. -/
theorem publishParams_qos_iff (req : HTTPRequest) (dup : Bool) :
    (((publishParams req dup).header.qos : Int) = match req.queryParam (text "qos") with
      | some value => min (atoi value) 1
      | none => 1) ↔ QosKept req := by
  unfold publishParams QosKept
  cases req.queryParam (text "qos") with
  | none => exact ⟨(fun _ _ h => by cases h), fun _ => rfl⟩
  | some value =>
      refine (flagParam_eq_iff value).trans ⟨?_, fun h => h value rfl⟩
      rintro h _ ⟨⟩
      exact h

/-- **When the parameters of a request are translated faithfully**, whatever message id it is given. -/
theorem publish_translates_iff (c : HttpConnection) {req : HTTPRequest} {topic msg : ByteStr}
    (htopic : req.queryParam (text "topic") = some topic) (hmsg : req.queryParam (text "msg") = some msg)
    (hfit : topic.length + msg.length ≤ httpBufSize) (msgId : Nat) (dup : Bool) :
    ∃ bytes m, (c.notifyMqttPublish req msgId dup).2.notified = c.notified ++ [bytes] ∧
      Publish.decode.decode bytes = some m ∧ (Translates req topic msg m ↔ RetainZero req ∧ QosKept req) := by
  have hpt : (publishParams req dup).topic = topic := congrArg (fun t => t.getD []) htopic
  have hpm : (publishParams req dup).msg = msg := congrArg (fun t => t.getD []) hmsg
  obtain ⟨bytes, henc, hdec⟩ := packet_encodes (publishParams_header req dup).2 (by rw [hpt, hpm]; omega) msgId
  obtain ⟨m, hm, hheader, hname, hpayload⟩ := fields_of_map hdec
  have hheader' : m.header = (publishParams req dup).header := hheader
  refine ⟨bytes, m, ?_, hm, ?_⟩
  · unfold HttpConnection.notifyMqttPublish
    simp only [henc]
  · have hqos := publishParams_qos_iff req dup
    have hretain := publishParams_retain req dup
    rw [← hheader'] at hqos hretain
    constructor
    · intro h
      refine ⟨fun value hvalue => ?_, hqos.mp h.qos⟩
      by_contra hne
      rw [h.retain.mpr ⟨value, hvalue, hne⟩] at hretain
      cases hretain
    · rintro ⟨hzero, hkept⟩
      refine ⟨hname.trans hpt, hpayload.trans hpm, ⟨fun h => ?_, ?_⟩, hqos.mpr hkept⟩
      · rw [hretain] at h
        cases h
      · rintro ⟨value, hvalue, hne⟩
        exact absurd (hzero value hvalue) hne

/-- A request with the three parameters it must have. -/
def plainRequest : HTTPRequest :=
  { method := text "GET", path := text "/publish"
    query := ((AList.insert (text "client") (text "a") ∅).insert (text "topic") (text "b")).insert (text "msg") (text "c") }

/-- The same with one more. -/
def HTTPRequest.with (req : HTTPRequest) (name value : ByteStr) : HTTPRequest := { req with query := req.query.insert name value }

theorem publish_translates_plain : ∃ bytes m,
    (({} : HttpConnection).notifyMqttPublish (plainRequest.with (text "qos") (text "0")) 1 false).2.notified = [bytes] ∧
      Publish.decode.decode bytes = some m ∧
      Translates (plainRequest.with (text "qos") (text "0")) (text "b") (text "c") m := by
  obtain ⟨bytes, m, hnotified, hm, hiff⟩ := @publish_translates_iff {} (plainRequest.with (text "qos") (text "0"))
    (text "b") (text "c") (by decide) (by decide) (by decide) 1 false
  have hretain : RetainZero (plainRequest.with (text "qos") (text "0")) := by
    intro value hvalue
    have hnone : (plainRequest.with (text "qos") (text "0")).queryParam (text "retain") = none := by decide
    rw [hnone] at hvalue
    cases hvalue
  have hqos : QosKept (plainRequest.with (text "qos") (text "0")) := by
    intro value hvalue
    have hzero : (plainRequest.with (text "qos") (text "0")).queryParam (text "qos") = some (text "0") := by decide
    rw [hzero] at hvalue
    cases hvalue
    decide
  exact ⟨bytes, m, hnotified, hm, hiff.mpr ⟨hretain, hqos⟩⟩

/-- A request with `retain=1` is published without the flag. -/
theorem publish_loses_retain :
    (({} : HttpConnection).notifyMqttPublish (plainRequest.with (text "retain") (text "1")) 1 false).2.notified =
      [[0x32, 6, 0, 1, 98, 0, 1, 99]] ∧
    ∃ m, Publish.decode.decode [0x32, 6, 0, 1, 98, 0, 1, 99] = some m ∧ m.header.retainFlag = false ∧
      ¬ Translates (plainRequest.with (text "retain") (text "1")) (text "b") (text "c") m := by
  have hdec : Publish.decode.decode [0x32, 6, 0, 1, 98, 0, 1, 99] =
      some { header := { msgType := .publish, qos := 1 }, topicName := text "b", msgId := 1, payload := text "c"
             msgIdOffset := 5 } := by decide +kernel
  refine ⟨by decide +kernel, _, hdec, rfl, fun h => ?_⟩
  have hone : (plainRequest.with (text "retain") (text "1")).queryParam (text "retain") = some (text "1") := by decide
  exact absurd (h.retain.mpr ⟨_, hone, by decide⟩) (by decide)

end MqttServer
