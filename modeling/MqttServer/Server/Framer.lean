import MqttServer.Lib.Exec
import MqttServer.Codec.Pkt

/-!
# `Server.Framer` — the receive buffer and the framing loop of `CMqttConnection`

`handle_input` appends what one `::read` delivered behind the bytes left over from the last one, and
`process_mqtt` cuts complete packets off the front, hands each to `process`, and moves an incomplete tail
to the front of the buffer.

The loop is written over any handler `process`, which may rewrite the bytes of its own packet (the PUBLISH
handler replaces the packet identifier in place) and may destroy the connection while it runs; `touch` is
run before every access to a member of the connection, so that the broker can report such an access.

Memory is a function of the address. Below `maxBufSize` it is `m_recv_buffer`; above it is whatever lies
behind the array, which `remain_length` reads when a header sits in the last bytes of a full buffer.
-/

namespace MqttServer

open Lib

/-- `CMqttConnection::MAX_BUF_SIZE`. -/
def maxBufSize : Nat := 4096

/-- `m_recv_buffer` (with what lies behind it) and `m_cur_buf_pos`. -/
structure RecvBuffer where
  mem : Nat → UInt8
  curBufPos : Nat

namespace RecvBuffer

/-- `len` bytes of memory from `start` on. -/
def slice (mem : Nat → UInt8) (start len : Nat) : ByteStr :=
  (List.range len).map fun i => mem (start + i)

/-- Memory with `bytes` stored from `start` on. -/
def splice (mem : Nat → UInt8) (start : Nat) (bytes : ByteStr) : Nat → UInt8 := fun i =>
  if start ≤ i ∧ i < start + bytes.length then bytes.getD (i - start) 0 else mem i

/-- Memory seen from an address on: the pointer `buf + offset`. -/
def shift (mem : Nat → UInt8) (offset : Nat) : Nat → UInt8 := fun i => mem (offset + i)

/-- The bytes not yet framed. -/
def pending (b : RecvBuffer) : ByteStr := slice b.mem 0 b.curBufPos

/-- The memory behind the array as it is at this moment; the array itself keeps its bytes. -/
def overlay (mem behind : Nat → UInt8) : Nat → UInt8 := fun i =>
  if i < maxBufSize then mem i else behind i

/-- `m_cur_buf_pos += read_len` after the kernel stored `data` behind the pending bytes. -/
def append (b : RecvBuffer) (data : ByteStr) : RecvBuffer :=
  { mem := splice b.mem b.curBufPos data, curBufPos := b.curBufPos + data.length }

end RecvBuffer

open RecvBuffer

/-- One `::read`: the bytes delivered, and the memory behind the array at that moment. -/
structure Read where
  data : ByteStr
  behind : Nat → UInt8

/-- The buffer `process_mqtt` is called on after a read. -/
def RecvBuffer.receive (b : RecvBuffer) (r : Read) : RecvBuffer :=
  { b with mem := overlay b.mem r.behind }.append r.data

variable {σ ε : Type}

/-- A packet handler: it gets the bytes of one packet and returns its result code and the bytes as it left
    them in the buffer. -/
abbrev Handler (σ ε : Type) := ByteStr → Exec σ ε (Int × ByteStr)

/-- The `while (offset < len)` loop of `process_mqtt`. `none` is the source's `-1`; otherwise the loop
    returns the memory and the new `m_cur_buf_pos`. Every packet has at least two bytes, so the `len + 1`
    rounds `processMqtt` gives it are enough. -/
def processLoop (touch : Exec σ ε Unit) (process : Handler σ ε) :
    (fuel : Nat) → (mem : Nat → UInt8) → (len offset : Nat) → Exec σ ε (Option RecvBuffer)
  | 0, _, _, _ => pure none
  | fuel + 1, mem, len, offset => do
      touch
      if offset < len then
        match remainLength (shift mem offset) (len - offset) with
        | .needMoreData =>
            -- `memmove` of the tail; with `offset = 0` it is already in place
            if offset ≠ 0 then
              pure (some { mem := splice mem 0 (slice mem offset (len - offset))
                           curBufPos := len - offset })
            else pure (some { mem := mem, curBufPos := len })
        | .failture => pure none
        | .length value bytes => do
            let pktTotalLen := value + bytes + 1
            let (res, pkt) ← process (slice mem offset pktTotalLen)
            let mem' := splice mem offset (pkt.take pktTotalLen)
            if res < 0 then pure none
            else processLoop touch process fuel mem' len (offset + pktTotalLen)
      else pure (some { mem := mem, curBufPos := 0 })

/-- `process_mqtt(m_recv_buffer, m_cur_buf_pos)`. -/
def processMqtt (touch : Exec σ ε Unit) (process : Handler σ ε) (b : RecvBuffer) :
    Exec σ ε (Option RecvBuffer) :=
  processLoop touch process (b.curBufPos + 1) b.mem b.curBufPos 0

end MqttServer
