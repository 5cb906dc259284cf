import MqttServer.Http.Request

/-!
# `Http.Connection` — `HttpConnection`

`handle_input` appends what one `::read` delivered to the receive buffer and runs `process` on all of it. The
buffer is never taken from the front, and `parse_headers` leaves its NULs in it, so the next `process` sees the
C string that ends at the first of them. `process` answers every time, and hands a publish request to the
reactor of the broker.

The response object is a member: its code is set anew by each answer, its body only grows.
-/

namespace MqttServer

open StrTools

/-- `HTTPResponse`; the date is the one of its creation. -/
structure HTTPResponse where
  code : Nat := 200
  phrase : ByteStr := text "OK"
  type : ByteStr := text "text/html"
  date : ByteStr := []
  body : ByteStr := []

namespace HTTPResponse

/-- `append(str)`. -/
def append (res : HTTPResponse) (str : ByteStr) : HTTPResponse := { res with body := res.body ++ str }

end HTTPResponse

/-- A number as `%d` prints it. -/
def decimal (n : Nat) : ByteStr := (Nat.toDigits 10 n).map fun c => UInt8.ofNat c.toNat

/-- `snprintf(str_buf, 1024, json_error, …)`. -/
def jsonError (error errorCode request : ByteStr) : ByteStr :=
  (text "\x7b\n\"error\":\"" ++ error ++ text "\",\n\"error_code\":" ++ errorCode ++ text ",\n\"request\":\"" ++
    request ++ text "\"\n\x7d\n").take 1023

/-- The bytes `http_send` writes. -/
def responseData (res : HTTPResponse) : ByteStr :=
  (text "HTTP/1.0 " ++ decimal res.code ++ text " " ++ res.phrase ++ text "\r\nServer: HttpServer 1.0\r\nDate: " ++
    res.date ++ text "\r\nContent-Type: " ++ res.type ++ text "\r\nContent-Length: " ++ decimal res.body.length ++
    text "\r\n").take 1023 ++ text "\r\n" ++ res.body

/-! ## Publishing -/

/-- What `notify_mqtt_publish` makes of the parameters: the packet to publish, and the description of what is
    missing. -/
structure PublishParams where
  header : FixedHeader
  topic : ByteStr
  msg : ByteStr
  error : ByteStr

/-- A text when a parameter is missing. -/
def missed (param : Option ByteStr) (error : String) : ByteStr :=
  match param with
  | none => text error
  | some _ => []

/-- A number parameter in a `uint8_t`, at most one. -/
def flagParam (value : ByteStr) : Nat := min (atoi value % 256).toNat 1

/-- The first half of `notify_mqtt_publish(req, error)`. The retain flag is read when there is none, and `dup` is
    the uninitialised `m_dup_flag` of the header. -/
def publishParams (req : HTTPRequest) (dup : Bool) : PublishParams :=
  let client := req.queryParam (text "client")
  let topic := req.queryParam (text "topic")
  let msg := req.queryParam (text "msg")
  let qos := match req.queryParam (text "qos") with
    | some value => flagParam value
    | none => 1
  let retain := match req.queryParam (text "retain") with
    | none => flagParam []
    | some _ => 0
  { header := { msgType := .publish, dupFlag := dup, qos, retainFlag := retain = 1 }
    topic := topic.getD []
    msg := msg.getD []
    error := missed client "client param missed. " ++ missed topic "topic param missed. " ++
      missed msg "msg param missed" }

namespace PublishParams

/-- The size of the buffer. -/
def bufLen (p : PublishParams) : Nat := p.msg.length + p.topic.length + 8

/-- The packet, with the low sixteen bits of its message id. -/
def packet (p : PublishParams) (msgId : Nat) : Publish :=
  { header := p.header, topicName := p.topic, msgId := msgId % 65536, payload := p.msg }

end PublishParams

/-! ## The connection -/

/-- `HttpConnection`: the first `m_cur_buf_pos` bytes of the receive buffer and the response, with what was
    passed to the notify reactor and the responses written. -/
structure HttpConnection where
  recvBuffer : ByteStr := []
  response : HTTPResponse := {}
  notified : List ByteStr := []
  written : List ByteStr := []

/-- `HttpConnection::MAX_BUF_SIZE`. -/
def httpBufSize : Nat := 4096

/-- The bytes of a C string. -/
def cString (bytes : ByteStr) : ByteStr := bytes.takeWhile (· ≠ 0)

namespace HttpConnection

/-- `http_send(res)`. -/
def httpSend (c : HttpConnection) : HttpConnection := { c with written := c.written ++ [responseData c.response] }

/-- `notify_mqtt_publish(req, error)`, where `msgId` is what `next_msg_id()` returns: the text of the error.
    What is encoded is passed on also when a parameter is missing. -/
def notifyMqttPublish (c : HttpConnection) (req : HTTPRequest) (msgId : Nat) (dup : Bool) :
    ByteStr × HttpConnection :=
  let p := publishParams req dup
  match (p.packet msgId).encode p.bufLen with
  | none => (p.error ++ text "publish msg encode failed", c)
  | some bytes => (p.error, { c with notified := c.notified ++ [bytes] })

/-- What `parse_headers` leaves in the receive buffer. -/
def mark (c : HttpConnection) (tokens : Nat) : HttpConnection :=
  let headers := cString c.recvBuffer
  { c with recvBuffer := strtokMark tokens false headers ++ c.recvBuffer.drop headers.length }

/-- Set the code of the response, append to its body and send it. -/
def respond (c : HttpConnection) (code : Nat) (body : ByteStr) : HttpConnection :=
  { c with response := { c.response with code }.append body }.httpSend

/-- The answer to a request for anything but `/publish`. -/
def notFound (c : HttpConnection) (path : ByteStr) : HttpConnection :=
  { c with response := { c.response with phrase := text "Not Found" } }.respond 404
    (jsonError (text "not found") (text "400") path)

/-- The publish branch of `process`. -/
def publish (c : HttpConnection) (req : HTTPRequest) (msgId : Nat) (dup : Bool) : HttpConnection :=
  let r := c.notifyMqttPublish req msgId dup
  if r.1 ≠ [] then r.2.respond 400 (jsonError r.1 (text "400") req.path)
  else r.2.respond 200 (text "\x7b\"msg\":\"succeed\"\x7d")

/-- `process(buf, len)`. -/
def process (c : HttpConnection) (msgId : Nat) (dup : Bool) : Except HttpFault (Int × HttpConnection) :=
  match parseHeaders (cString c.recvBuffer) with
  | .error e => .error e
  | .ok parsed =>
      let c := c.mark parsed.tokens
      if parsed.req.path = text "/favicon.ico" then .ok (-1, c)
      else
        let c := { c with response := { c.response with type := text "text/json" } }
        if parsed.res = -1 ∨ parsed.req.path ≠ text "/publish" then .ok (0, c.notFound parsed.req.path)
        else .ok (0, c.publish parsed.req msgId dup)

end HttpConnection

/-- One `::read` that delivers bytes, with the value of the message counter and the content of uninitialised
    memory at that moment. -/
structure HttpRead where
  data : ByteStr
  msgId : Nat
  dup : Bool := false

namespace HttpConnection

/-- `handle_input()` for a read that delivers bytes. A terminator is stored behind them. -/
def handleInput (c : HttpConnection) (r : HttpRead) : Except HttpFault (Int × HttpConnection) :=
  let data := r.data.take (httpBufSize - c.recvBuffer.length)
  if data = [] then .ok (-1, c)
  else
    let c := { c with recvBuffer := c.recvBuffer ++ data }
    if c.recvBuffer.length < httpBufSize then c.process r.msgId r.dup else .error .overrun

/-- The reads of a connection, up to the first that makes the reactor close it. -/
def serve (c : HttpConnection) : List HttpRead → Except HttpFault HttpConnection
  | [] => .ok c
  | r :: rs =>
      match c.handleInput r with
      | .error e => .error e
      | .ok (res, c) => if res < 0 then .ok c else serve c rs

end HttpConnection
end MqttServer
