import Mathlib.Data.List.GetD
import MqttServer.Common.Mbuf
import MqttServer.Http.Connection

/-!
# `Http.Send` — `http::HttpConnection::http_send` of `http/http_connection.cpp`

The response goes into one buffer, 256 bytes larger than the body. Three size checks follow each other: `snprintf` cuts the
header off at the end of the buffer but reports its whole length, `write_ptr` ignores a length that does not fit, and `copy`
refuses a body that does not fit. What is put on the connection is header and body exactly when the header leaves the body its
room and itself that of the terminator (`httpSend_whole_iff`).
-/

namespace MqttServer

open StrTools

namespace Http

/-- `HTTPResponse`. -/
structure HTTPResponse where
  code : Int := 200
  phrase : ByteStr := text "OK"
  type : ByteStr := text "text/html"
  date : ByteStr := []
  body : ByteStr := []

/-- An `int` as `%d` prints it. -/
def decimalInt (n : Int) : ByteStr := if n < 0 then text "-" ++ decimal n.natAbs else decimal n.natAbs

/-- The header as `snprintf` formats it, with its blank line. -/
def HTTPResponse.header (res : HTTPResponse) : ByteStr :=
  text "HTTP/1.0 " ++ decimalInt res.code ++ text " " ++ cString res.phrase ++
    text "\r\nServer: HttpServer 1.0\r\nDate: " ++ cString res.date ++ text "\r\nContent-Type: " ++ cString res.type ++
    text "\r\nContent-Length: " ++ decimal res.body.length ++ text "\r\n\r\n"

/-- `snprintf(ptr, size, …)`: what it stores, at most `size - 1` bytes of the text and a terminator. -/
def snprintfBytes (size : Nat) (formatted : ByteStr) : ByteStr := formatted.take (size - 1) ++ [0]

/-- What it returns, as the `uint32_t` it is passed on as: the length of the whole text, or `-1` when that is no `int`. -/
def snprintfLen (formatted : ByteStr) : Nat := if formatted.length < 2 ^ 31 then formatted.length else 2 ^ 32 - 1

/-- `available_buf()`. -/
def availableBuf (m : Mbuf) : Nat := (2 ^ 32 + m.data.length - m.writePos) % 2 ^ 32

/-- `http_send(res)`: the buffer it passes to `put`. -/
def httpSend (time : Nat) (res : HTTPResponse) : Mbuf :=
  let length := res.body.length % 2 ^ 32
  let mbuf := Mbuf.create ((length + 256) % 2 ^ 32) time
  let mbuf := (mbuf.fill (snprintfBytes (availableBuf mbuf) res.header)).writePtr (snprintfLen res.header)
  mbuf.copy (res.body.take length)

/-- **The whole response**: the header with its blank line and the body it announces, and nothing else. -/
def Whole (time : Nat) (res : HTTPResponse) : Prop := (httpSend time res).unread = res.header ++ res.body

/-! ## The three checks, for any size -/

section Assemble

variable {size time : Nat} {header body : ByteStr}

/-- A fresh buffer with what `snprintf` stored in it. -/
def formatted (size time : Nat) (header : ByteStr) : Mbuf :=
  (Mbuf.create size time).fill (snprintfBytes size header)

/-- A text and what follows it, in a buffer of any size. -/
def assemble (size time : Nat) (header body : ByteStr) : Mbuf :=
  ((formatted size time header).writePtr (snprintfLen header)).copy body

theorem availableBuf_create (hsize : size < 2 ^ 32) : availableBuf (Mbuf.create size time) = size := by
  show (2 ^ 32 + (List.replicate size (0 : UInt8)).length - 0) % 2 ^ 32 = size
  rw [List.length_replicate]
  omega

/-- The text, or as much of it as leaves room for a terminator, stands at the start of the array. -/
theorem formatted_data (time : Nat) (header : ByteStr) (hpos : 0 < size) : ∃ rest, (formatted size time header).data =
    header.take (size - 1) ++ 0 :: rest ∧ (formatted size time header).data.length = size := by
  have hstored : (snprintfBytes size header).length = min (size - 1) header.length + 1 := by
    unfold snprintfBytes
    rw [List.length_append, List.length_take]
    rfl
  have hdata : (formatted size time header).data =
      snprintfBytes size header ++ (List.replicate size (0 : UInt8)).drop (snprintfBytes size header).length := by
    show Pkt.store (List.replicate size 0) 0 _ = _
    unfold Pkt.store
    rw [List.take_zero, List.nil_append, Nat.zero_add]
  refine ⟨(List.replicate size (0 : UInt8)).drop (snprintfBytes size header).length, ?_, ?_⟩
  · rw [hdata]
    unfold snprintfBytes
    rw [List.append_assoc, List.singleton_append]
  · rw [hdata, List.length_append, List.length_drop, List.length_replicate, hstored]
    omega

/-- A buffer read from its start does not give more than was written. -/
theorem unread_length_le {m : Mbuf} (hread : m.readPos = 0) : m.unread.length ≤ m.writePos := by
  unfold Mbuf.unread Mbuf.length
  rw [hread, List.length_take]
  omega

/-- `write_ptr` moves the cursor behind a text that the buffer has the size for. -/
theorem formatted_writePtr (hpos : 0 < size) (hsize : size < 2 ^ 32 - 1) :
    (formatted size time header).writePtr (snprintfLen header) =
      if header.length < 2 ^ 31 ∧ header.length ≤ size then
        { formatted size time header with writePos := header.length } else formatted size time header := by
  obtain ⟨-, -, hlen⟩ := formatted_data time header hpos
  have hstart : (formatted size time header).writePos = 0 := rfl
  unfold Mbuf.writePtr snprintfLen
  rw [hstart, hlen, Nat.zero_add]
  by_cases hint : header.length < 2 ^ 31
  · rw [if_pos hint, Nat.mod_eq_of_lt (by omega)]
    by_cases hfit : header.length ≤ size
    · rw [if_neg (Nat.not_lt.mpr hfit), if_pos ⟨hint, hfit⟩]
    · rw [if_pos (Nat.lt_of_not_le hfit), if_neg (fun h => hfit h.2)]
  · -- a length that is no `int` is passed on as `-1`, for which no buffer has room
    rw [if_neg hint, Nat.mod_eq_of_lt (by omega), if_pos (by omega), if_neg (fun h => hint h.1)]

/-- `copy` at a cursor, below the range of `uint32_t`. -/
theorem copy_cases {m : Mbuf} (hsum : m.writePos + body.length < 2 ^ 32) :
    m.copy body = if m.writePos + body.length ≤ m.data.length then
      { m.fill body with writePos := m.writePos + body.length } else m := by
  unfold Mbuf.copy
  rw [Nat.mod_eq_of_lt hsum]
  by_cases hfit : m.writePos + body.length ≤ m.data.length
  · rw [if_neg (Nat.not_lt.mpr hfit), if_pos hfit]
  · rw [if_pos (Nat.lt_of_not_le hfit), if_neg hfit]

/-- **Enough room**: the text with its terminator, and the text with what follows it. -/
theorem assemble_unread (hsize : size < 2 ^ 32 - 1) (hbody : body.length < 2 ^ 31) (hint : header.length < 2 ^ 31)
    (hterm : header.length < size) (hfit : header.length + body.length ≤ size) :
    (assemble size time header body).unread = header ++ body := by
  have hpos : 0 < size := Nat.lt_of_le_of_lt (Nat.zero_le _) hterm
  obtain ⟨rest, hdata, hlen⟩ := formatted_data time header hpos
  rw [List.take_of_length_le (by omega)] at hdata
  unfold assemble
  rw [formatted_writePtr hpos hsize, if_pos ⟨hint, Nat.le_of_lt hterm⟩]
  rw [copy_cases (by show header.length + body.length < 2 ^ 32; omega), if_pos (by rw [hlen]; exact hfit)]
  have hstored : ∃ rest', Pkt.store (formatted size time header).data header.length body = header ++ body ++ rest' := by
    unfold Pkt.store
    rw [hdata, List.take_left]
    exact ⟨_, rfl⟩
  obtain ⟨rest', hstored⟩ := hstored
  have hunread : (2 ^ 32 + (header.length + body.length) - 0) % 2 ^ 32 = (header ++ body).length := by
    rw [List.length_append]
    omega
  show ((Pkt.store (formatted size time header).data header.length body).drop 0).take
    ((2 ^ 32 + (header.length + body.length) - 0) % 2 ^ 32) = _
  rw [hunread, hstored, List.drop_zero, List.take_left]

/-- A text whose last byte is the terminator. -/
theorem terminator_last {rest : ByteStr} (h : header.take (header.length - 1) ++ 0 :: rest = header) :
    header.getD (header.length - 1) 0 = 0 := by
  have hcut : (header.take (header.length - 1)).length = header.length - 1 := by
    rw [List.length_take]
    omega
  calc header.getD (header.length - 1) 0
      = (header.take (header.length - 1) ++ 0 :: rest).getD (header.length - 1) 0 := by rw [h]
    _ = 0 := by
      rw [List.getD_append_right _ _ _ _ (Nat.le_of_eq hcut), hcut, Nat.sub_self]
      rfl

/-- **No less will do** for a text that does not end with a NUL. -/
theorem assemble_room (hpos : 0 < size) (hsize : size < 2 ^ 32 - 1) (hbody : body.length < 2 ^ 31)
    (hlast : header.getD (header.length - 1) 0 ≠ 0) (h : (assemble size time header body).unread = header ++ body) :
    header.length < 2 ^ 31 ∧ header.length < size ∧ header.length + body.length ≤ size := by
  obtain ⟨rest, hdata, hlen⟩ := formatted_data time header hpos
  have hne : 0 < header.length := by
    rw [List.length_pos_iff]
    rintro rfl
    exact hlast rfl
  have hlength := congrArg List.length h
  rw [List.length_append] at hlength
  have hread : (formatted size time header).readPos = 0 := rfl
  unfold assemble at h hlength
  rw [formatted_writePtr hpos hsize] at h hlength
  by_cases hmoved : header.length < 2 ^ 31 ∧ header.length ≤ size
  · rw [if_pos hmoved, copy_cases (by show header.length + body.length < 2 ^ 32; omega)] at h hlength
    by_cases hfit : header.length + body.length ≤ size
    · refine ⟨hmoved.1, ?_, hfit⟩
      -- a text of the size of the buffer has lost its last byte to the terminator
      by_contra hfull
      have hnil : body = [] := List.length_eq_zero_iff.mp (by omega)
      rw [if_pos (by rw [hlen]; exact hfit)] at h
      have hsame : Pkt.store (formatted size time header).data header.length [] = (formatted size time header).data := by
        unfold Pkt.store
        rw [List.append_nil, List.length_nil, Nat.add_zero, List.take_append_drop]
      have hbytes : header.length = (2 ^ 32 + (header.length + 0) - 0) % 2 ^ 32 := by omega
      subst hnil
      have hall : ((Pkt.store (formatted size time header).data header.length []).drop 0).take
          ((2 ^ 32 + (header.length + 0) - 0) % 2 ^ 32) = header ++ [] := h
      rw [← hbytes, hsame, List.drop_zero, List.take_of_length_le (by omega), List.append_nil, hdata] at hall
      have hsize : size = header.length := by omega
      rw [hsize] at hall
      exact hlast (terminator_last hall)
    · -- the body was refused, and the text alone is too short
      rw [if_neg (by rw [hlen]; exact hfit)] at hlength
      have hle := unread_length_le (m := { formatted size time header with writePos := header.length }) hread
      have hle' : _ ≤ header.length := hle
      omega
  · rw [if_neg hmoved, copy_cases (by show 0 + body.length < 2 ^ 32; omega)] at hlength
    -- the cursor has stayed at the start, so what can be read is the body at most
    have hlost : ∀ m : Mbuf, m.readPos = 0 → m.writePos ≤ body.length → m.unread.length ≠ header.length + body.length := by
      intro m hm hw hall
      have hle := unread_length_le hm
      omega
    refine absurd hlength (hlost _ ?_ ?_)
    · split
      · exact hread
      · exact hread
    · split
      · exact Nat.le_of_eq (Nat.zero_add _)
      · exact Nat.zero_le _

end Assemble

/-! ## The response -/

theorem httpSend_eq {time : Nat} {res : HTTPResponse} (hbody : res.body.length < 2 ^ 31) :
    httpSend time res = assemble (res.body.length + 256) time res.header res.body := by
  have hlen : res.body.length % 2 ^ 32 = res.body.length := Nat.mod_eq_of_lt (by omega)
  have hsize : (res.body.length + 256) % 2 ^ 32 = res.body.length + 256 := Nat.mod_eq_of_lt (by omega)
  unfold httpSend
  simp only [hlen, hsize]
  rw [availableBuf_create (by omega), List.take_length]
  rfl

/-- The header ends with its blank line. -/
theorem HTTPResponse.header_last (res : HTTPResponse) : res.header.getD (res.header.length - 1) 0 ≠ 0 := by
  have hend : ∀ front : ByteStr, (front ++ text "\r\n\r\n").getD ((front ++ text "\r\n\r\n").length - 1) 0 = 10 := by
    intro front
    have hblank : (text "\r\n\r\n").length = 4 := rfl
    rw [List.getD_append_right _ _ _ _ (by rw [List.length_append]; omega), List.length_append, hblank]
    have hidx : front.length + 4 - 1 - front.length = 3 := by omega
    rw [hidx]
    rfl
  unfold HTTPResponse.header
  rw [hend]
  decide

/-- **When the whole response is put on the connection.** -/
theorem httpSend_whole_iff (time : Nat) {res : HTTPResponse} (hbody : res.body.length < 2 ^ 31) :
    Whole time res ↔ res.header.length ≤ 255 ∨ res.header.length = 256 ∧ res.body ≠ [] := by
  have hsize : res.body.length + 256 < 2 ^ 32 - 1 := by omega
  unfold Whole
  rw [httpSend_eq hbody, ← List.length_pos_iff]
  constructor
  · intro h
    obtain ⟨-, hterm, hfit⟩ := assemble_room (Nat.succ_pos _) hsize hbody res.header_last h
    omega
  · intro h
    exact assemble_unread hsize hbody (by omega) (by omega) (by omega)

/-- The answer `ok` as the server makes it. -/
theorem httpSend_whole_ok : Whole 0 { date := text "Mon, 01 Jan 2018 00:00:00 GMT", body := text "ok" } :=
  (httpSend_whole_iff 0 (by decide)).mpr (Or.inl (by decide +kernel))

/-- The same answer with a phrase of 135 bytes. -/
def wordyResponse : HTTPResponse :=
  { phrase := List.replicate 135 97, date := text "Mon, 01 Jan 2018 00:00:00 GMT", body := text "ok" }

/-- Its header has taken one byte of the room of the body, and the body is not sent. -/
theorem httpSend_not_whole : (httpSend 0 wordyResponse).unread = wordyResponse.header ∧ ¬ Whole 0 wordyResponse := by
  have hsent : (httpSend 0 wordyResponse).unread = wordyResponse.header := by decide +kernel
  refine ⟨hsent, fun h => ?_⟩
  have hlength := congrArg List.length (hsent.symm.trans h)
  exact absurd hlength (by decide +kernel)

end Http
end MqttServer
