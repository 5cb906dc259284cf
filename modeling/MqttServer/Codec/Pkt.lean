import Mathlib.Tactic

/-!
# `Codec.Pkt` — `remain_length` and the packet cursor `CMqttPkt`

`mqttc++/mqtt_pkt.cpp`. A `CMqttPkt` is a cursor over a buffer of `m_max_size` bytes. Reads return `none`
for `FAILTURE`; the cursor they leave is returned in both cases, because a composite read may fail after it
has already moved. Writes are bounded by `left_size()` except `write_remain_length`, which checks nothing.

`remain_length` is the length decoder shared by the framing loops and by every message decoder. It reads the
four bytes after the fixed header without looking at `len`, and it shifts every continuation byte by seven
only; both are kept.
-/

namespace MqttServer

/-- A `std::string` or a raw buffer: any bytes. -/
abbrev ByteStr := List UInt8

instance : LawfulBEq ByteStr := inferInstance

/-! ## `remain_length` -/

/-- What `remain_length` answers: `NEED_MORE_DATA`, `FAILTURE`, or the remaining length together with the
    number of bytes that encode it. -/
inductive RemainLength where
  | needMoreData
  | failture
  | length (value bytes : Nat)
deriving DecidableEq, Repr

/-- `MAX_REMAIN_LENGTH_BYTES`. -/
def maxRemainLengthBytes : Nat := 4

/-- The scan of the length bytes, `mem 0` being the fixed header. Returns the value built so far and, when a
    byte without the continuation bit was met, its offset. -/
def scanLength (mem : Nat → UInt8) : (fuel offset value : Nat) → Nat × Option Nat
  | 0, _, value => (value, none)
  | fuel + 1, offset, value =>
      let byteValue := (mem (offset + 1)).toNat
      let value' := if offset = 0 then byteValue % 128 else ((byteValue % 128) <<< 7) ||| value
      if byteValue < 128 then (value', some offset) else scanLength mem fuel (offset + 1) value'

/-- `remain_length(pkt_buf, len, …)`. The scan never runs out of the buffer in the source's own terms: it
    looks at four bytes whatever `len` is, so `NEED_MORE_DATA` is answered only for a decoded length that
    exceeds `len`, and a missing last byte is always `FAILTURE`. -/
def remainLength (mem : Nat → UInt8) (len : Nat) : RemainLength :=
  match scanLength mem maxRemainLengthBytes 0 0 with
  | (_, none) => .failture
  | (value, some offset) =>
      let bytes := offset + 1
      if value + bytes + 1 > len then .needMoreData else .length value bytes

/-! ### Which bytes `remain_length` depends on -/

/-- The unfolded scan: the first of the four bytes without a continuation bit ends it. -/
theorem remainLength_eq (mem : Nat → UInt8) (len : Nat) :
    remainLength mem len =
      if (mem 1).toNat < 128 then
        (if (mem 1).toNat % 128 + 1 + 1 > len then .needMoreData
          else .length ((mem 1).toNat % 128) 1)
      else if (mem 2).toNat < 128 then
        (if (((mem 2).toNat % 128) <<< 7 ||| (mem 1).toNat % 128) + 2 + 1 > len then .needMoreData
          else .length (((mem 2).toNat % 128) <<< 7 ||| (mem 1).toNat % 128) 2)
      else if (mem 3).toNat < 128 then
        (if (((mem 3).toNat % 128) <<< 7 ||| (((mem 2).toNat % 128) <<< 7 ||| (mem 1).toNat % 128))
            + 3 + 1 > len then .needMoreData
          else .length (((mem 3).toNat % 128) <<< 7 |||
            (((mem 2).toNat % 128) <<< 7 ||| (mem 1).toNat % 128)) 3)
      else if (mem 4).toNat < 128 then
        (if (((mem 4).toNat % 128) <<< 7 ||| (((mem 3).toNat % 128) <<< 7 |||
            (((mem 2).toNat % 128) <<< 7 ||| (mem 1).toNat % 128))) + 4 + 1 > len then .needMoreData
          else .length (((mem 4).toNat % 128) <<< 7 ||| (((mem 3).toNat % 128) <<< 7 |||
            (((mem 2).toNat % 128) <<< 7 ||| (mem 1).toNat % 128))) 4)
      else .failture := by
  simp only [remainLength, maxRemainLengthBytes, scanLength]
  split_ifs <;> simp_all

section Agree

variable {mem mem' : Nat → UInt8} {len len' value bytes : Nat}

/-- A decoded length has at least one length byte, and the packet it announces lies within `len`. -/
theorem remainLength_length (h : remainLength mem len = .length value bytes) :
    1 ≤ bytes ∧ value + bytes + 1 ≤ len := by
  rw [remainLength_eq] at h
  split_ifs at h <;> simp only [RemainLength.length.injEq] at h <;> omega

/-- A decoded length depends on the received bytes only, and survives more of them. -/
theorem remainLength_agree_length (h : remainLength mem len = .length value bytes)
    (hag : ∀ i < len, mem' i = mem i) (hle : len ≤ len') :
    remainLength mem' len' = .length value bytes := by
  rw [remainLength_eq] at h ⊢
  split_ifs at h <;> simp only [RemainLength.length.injEq] at h
  · have := hag 1 (by omega)
    grind
  · have := hag 1 (by omega)
    have := hag 2 (by omega)
    grind
  · have := hag 1 (by omega)
    have := hag 2 (by omega)
    have := hag 3 (by omega)
    grind
  · have := hag 1 (by omega)
    have := hag 2 (by omega)
    have := hag 3 (by omega)
    have := hag 4 (by omega)
    grind

/-- So does a failure, once the fixed header and all four length bytes have been received. -/
theorem remainLength_agree_failture (h : remainLength mem len = .failture) (hlen : 5 ≤ len)
    (hag : ∀ i < len, mem' i = mem i) : remainLength mem' len' = .failture := by
  rw [remainLength_eq] at h ⊢
  rw [hag 1 (by omega), hag 2 (by omega), hag 3 (by omega), hag 4 (by omega)]
  grind

/-- Before that, bytes that were never received decide between waiting and failing. -/
theorem remainLength_agree_needMoreData (h : remainLength mem len = .needMoreData)
    (hag : ∀ i < len, mem' i = mem i) :
    remainLength mem' len = .needMoreData ∨ remainLength mem' len = .failture ∧ len < 5 := by
  cases h' : remainLength mem' len with
  | needMoreData => exact Or.inl rfl
  | failture =>
      refine Or.inr ⟨rfl, ?_⟩
      by_contra hlen
      rw [remainLength_agree_failture h' (by omega) (fun i hi => (hag i hi).symm)] at h
      exact absurd h (by simp)
  | length value bytes =>
      rw [remainLength_agree_length h' (fun i hi => (hag i hi).symm) (Nat.le_refl _)] at h
      exact absurd h (by simp)

end Agree

/-! ## The cursor -/

/-- `CMqttPkt`: the buffer (`m_max_size` is its length) and `m_offset`. -/
structure Pkt where
  buf : ByteStr
  offset : Nat
deriving DecidableEq, Repr

namespace Pkt

/-- `CMqttPkt(buf, len)`. -/
def ofBuf (buf : ByteStr) : Pkt := { buf := buf, offset := 0 }

/-- `left_size()`, a signed difference. -/
def leftSize (p : Pkt) : Int := (p.buf.length : Int) - p.offset

/-- The byte at an index of the buffer. -/
def byteAt (p : Pkt) (i : Nat) : UInt8 := p.buf.getD i 0

/-- The `n` bytes from the cursor on. -/
def here (p : Pkt) (n : Nat) : ByteStr := (p.buf.drop p.offset).take n

/-- Move the cursor. -/
def advance (p : Pkt) (n : Nat) : Pkt := { p with offset := p.offset + n }

end Pkt

/-- A read: `none` is `FAILTURE`, and the cursor is returned either way. -/
def PktM (α : Type) := Pkt → Option α × Pkt

instance : Monad PktM where
  pure a := fun p => (some a, p)
  bind x f := fun p =>
    match x p with
    | (some a, p') => f a p'
    | (none, p') => (none, p')

namespace PktM

variable {α β : Type} {x : PktM α} {f : α → PktM β} {p p' : Pkt}

theorem bind_some {a : α} (h : x p = (some a, p')) : (x >>= f) p = f a p' := by
  simp only [bind, h]

theorem bind_none (h : x p = (none, p')) : (x >>= f) p = (none, p') := by
  simp only [bind, h]

/-- Return `FAILTURE`. -/
def failture {α : Type} : PktM α := fun p => (none, p)

/-- `length()`: the cursor position. -/
def length : PktM Nat := fun p => (some p.offset, p)

/-- `read_byte(value)`. -/
def readByte : PktM UInt8 := fun p =>
  if p.leftSize < 1 then (none, p) else (some (p.byteAt p.offset), p.advance 1)

/-- `read_byte(payload, left_size())`: everything that is left. -/
def readRest : PktM ByteStr := fun p =>
  if p.leftSize < 0 then (none, p)
  else (some (p.here p.leftSize.toNat), p.advance p.leftSize.toNat)

/-- `read_short(value)`, big endian. -/
def readShort : PktM Nat := fun p =>
  if p.leftSize < 2 then (none, p)
  else (some ((p.byteAt p.offset).toNat * 256 + (p.byteAt (p.offset + 1)).toNat), p.advance 2)

/-- `read_string(str)`: a failure after the length has been read leaves the cursor behind it. -/
def readString : PktM ByteStr := do
  let strLen ← readShort
  fun p => if p.leftSize < strLen then (none, p) else (some (p.here strLen), p.advance strLen)

/-- `read_remain_length`: at least two bytes must be left; the length itself is decoded from the start of
    the buffer. -/
def readRemainLength : PktM (Nat × Nat) := fun p =>
  if p.leftSize < 2 then (none, p)
  else
    match remainLength p.byteAt p.buf.length with
    | .length value bytes => (some (value, bytes), p.advance bytes)
    | _ => (none, p)

end PktM

namespace Pkt

/-- `write_byte(value)`; a full buffer refuses it. -/
def writeByte (value : UInt8) (p : Pkt) : Pkt :=
  if p.leftSize < 1 then p else { buf := p.buf.set p.offset value, offset := p.offset + 1 }

/-- Store bytes from an index on. -/
def store (buf : ByteStr) (i : Nat) (bytes : ByteStr) : ByteStr :=
  buf.take i ++ bytes ++ buf.drop (i + bytes.length)

/-- `write_byte(buf, size)`. -/
def writeBytes (bytes : ByteStr) (p : Pkt) : Pkt :=
  if p.leftSize < bytes.length then p
  else { buf := store p.buf p.offset bytes, offset := p.offset + bytes.length }

/-- `write_short(value)`, big endian. -/
def writeShort (value : Nat) (p : Pkt) : Pkt :=
  if p.leftSize < 2 then p
  else
    { buf := store p.buf p.offset [UInt8.ofNat (value / 256), UInt8.ofNat value]
      offset := p.offset + 2 }

/-- `write_string(buf, size)`: the size is narrowed to sixteen bits by `write_short`, and nothing more is
    written when that fails. -/
def writeString (bytes : ByteStr) (p : Pkt) : Pkt :=
  if p.leftSize < 2 then p else (p.writeShort (bytes.length % 65536)).writeBytes bytes

/-- The digits `write_remain_length` emits. -/
def lengthDigits : (fuel length : Nat) → ByteStr
  | 0, _ => []
  | fuel + 1, length =>
      if length / 128 > 0 then
        UInt8.ofNat (length % 128 + 128) :: lengthDigits fuel (length / 128)
      else [UInt8.ofNat (length % 128)]

/-- `write_remain_length(length, …)`: no bound check. Five digits hold any 32-bit length. -/
def writeRemainLength (length : Nat) (p : Pkt) : Pkt :=
  { buf := store p.buf p.offset (lengthDigits 5 length)
    offset := p.offset + (lengthDigits 5 length).length }

end Pkt
end MqttServer
