import MqttServer.Codec.Msg
import MqttServer.Lib.Calls
import MqttServer.Reactor.WriteN

/-!
# `Codec.Cursor` — `CMqttPkt` with its memory

`Codec.Pkt` has the packet cursor as the decoders use it. Here it is what `mqtt_pkt.cpp` makes of it for any `m_max_size`: the
memory goes on behind the buffer, `left_size()` is an `int`, and each operation says which indexes it touches. `Keeps` is the
invariant for one operation and `Fits` the condition under which the operation keeps it (`keeps_iff`): most operations always do,
those that fail half-way or check nothing do not.
-/

namespace MqttServer

/-- `CMqttPkt` with `m_max_size` for `len`: the memory from `m_buf_ptr` on, and `m_offset`. -/
structure Cursor (len : UInt32) where
  mem : Nat → UInt8
  offset : Nat

/-- The operations of `CMqttPkt`; `readRest` is `read_byte(payload, left_size())`. -/
inductive PktOp where
  | length
  | leftSize
  | readRemainLength
  | readByte
  | readRest
  | readShort
  | readString
  | writeRemainLength (length : Nat)
  | writeByte (value : UInt8)
  | writeBytes (bytes : ByteStr)
  | writeShort (value : Nat)
  | writeString (bytes : ByteStr)
deriving DecidableEq, Repr

/-- What an operation returns, with the value it reads. -/
inductive PktAnswer where
  | failture
  | needMoreData
  | success
  | byte (value : UInt8)
  | short (value : Nat)
  | bytes (value : ByteStr)
  | length (value bytes : Nat)
  | position (value : Nat)
  | size (value : Int)
deriving DecidableEq, Repr

/-- What an operation does: its answer, the cursor it leaves, and the indexes it touches. -/
structure Performed (len : UInt32) where
  answer : PktAnswer
  after : Cursor len
  touched : List Nat

/-- The bytes of a buffer, index by index. -/
theorem range_getD {l : ByteStr} {i n : Nat} (h : i + n ≤ l.length) :
    (List.range n).map (fun j => l.getD (i + j) 0) = (l.drop i).take n := by
  refine List.ext_getElem ?_ fun j hj hj' => ?_
  · rw [List.length_map, List.length_range, List.length_take, List.length_drop]
    omega
  · rw [List.length_map, List.length_range] at hj
    rw [List.getElem_map, List.getElem_range, List.getElem_take, List.getElem_drop]
    exact (List.getElem_eq_getD 0).symm

namespace Cursor

/-! ## The operations -/

/-- `CMqttPkt(buf, len)`. -/
def new (mem : Nat → UInt8) (len : UInt32) : Cursor len := { mem, offset := 0 }

variable {len : UInt32}

/-- `left_size()`: the difference of two `uint32_t` as an `int`. -/
def leftSize (c : Cursor len) : Int := Int.bmod ((len.toNat : Int) - c.offset) (2 ^ 32)

/-- `m_offset += n`. -/
def advance (c : Cursor len) (n : Int) : Cursor len := { c with offset := ((n + c.offset) % 2 ^ 32).toNat }

/-- The `n` bytes from the cursor on. -/
def here (c : Cursor len) (n : Nat) : ByteStr := (List.range n).map fun i => c.mem (c.offset + i)

/-- The two bytes at the cursor as a number. -/
def shortHere (c : Cursor len) : Nat := (c.mem c.offset).toNat * 256 + (c.mem (c.offset + 1)).toNat

/-- Bytes stored at the cursor. -/
def store (c : Cursor len) (bytes : ByteStr) : Cursor len :=
  { c with mem := fun j => if c.offset ≤ j ∧ j < c.offset + bytes.length then bytes.getD (j - c.offset) 0 else c.mem j }

/-- The indexes from the cursor on. -/
def indexes (c : Cursor len) (n : Nat) : List Nat := List.range' c.offset n

/-- An `int` as the `size_t` of `memcpy`. -/
def sizeT (n : Int) : Nat := (n % 2 ^ 64).toNat

/-- `return FAILTURE`. -/
def refuse (c : Cursor len) : Performed len := { answer := .failture, after := c, touched := [] }

/-- `if (left_size() < n) return FAILTURE;` in front of the rest. -/
def guard (c : Cursor len) (n : Int) (rest : Performed len) : Performed len := if c.leftSize < n then c.refuse else rest

/-- The bytes that the scan of `remain_length` looks at. -/
def scanned (mem : Nat → UInt8) : (fuel offset : Nat) → List Nat
  | 0, _ => []
  | fuel + 1, offset => (offset + 1) :: if (mem (offset + 1)).toNat < 128 then [] else scanned mem fuel (offset + 1)

/-- What `read_remain_length` makes of the scan. -/
def lengthRead (c : Cursor len) : RemainLength → Performed len
  | .length value bytes =>
      { answer := .length value bytes, after := c.advance bytes, touched := scanned c.mem maxRemainLengthBytes 0 }
  | .needMoreData => { answer := .needMoreData, after := c, touched := scanned c.mem maxRemainLengthBytes 0 }
  | .failture => { answer := .failture, after := c, touched := scanned c.mem maxRemainLengthBytes 0 }

/-- `read_remain_length`. -/
def readRemainLength (c : Cursor len) : Performed len := c.guard 2 (c.lengthRead (remainLength c.mem len.toNat))

/-- `read_byte(value)`. -/
def readByte (c : Cursor len) : Performed len :=
  c.guard 1 { answer := .byte (c.mem c.offset), after := c.advance 1, touched := c.indexes 1 }

/-- `read_byte(payload, left_size())`: there is always as much as is asked for. -/
def readRest (c : Cursor len) : Performed len :=
  { answer := .bytes (c.here c.leftSize.toNat), after := c.advance c.leftSize, touched := c.indexes c.leftSize.toNat }

/-- `read_short(value)`. -/
def readShort (c : Cursor len) : Performed len :=
  c.guard 2 { answer := .short c.shortHere, after := c.advance 2, touched := c.indexes 2 }

/-- `read_string(str)`: a `read_short`, and the check of what is left behind it. -/
def readString (c : Cursor len) : Performed len :=
  c.guard 2 (if (c.advance 2).leftSize < c.shortHere then
      { answer := .failture, after := c.advance 2, touched := c.indexes 2 }
    else
      { answer := .bytes ((c.advance 2).here c.shortHere), after := (c.advance 2).advance c.shortHere
        touched := c.indexes 2 ++ (c.advance 2).indexes c.shortHere })

/-- `write_remain_length(length, …)`. -/
def writeRemainLength (c : Cursor len) (length : Nat) : Performed len :=
  { answer := .success, after := (c.store (Pkt.lengthDigits 5 length)).advance (Pkt.lengthDigits 5 length).length
    touched := c.indexes (Pkt.lengthDigits 5 length).length }

/-- `write_byte(value)`. -/
def writeByte (c : Cursor len) (value : UInt8) : Performed len :=
  c.guard 1 { answer := .success, after := (c.store [value]).advance 1, touched := c.indexes 1 }

/-- `write_byte(buf, size)` with the size of a container. -/
def writeBytes (c : Cursor len) (bytes : ByteStr) : Performed len :=
  c.guard (toInt32 bytes.length)
    { answer := .success, after := (c.store (bytes.take (sizeT (toInt32 bytes.length)))).advance (toInt32 bytes.length)
      touched := c.indexes (sizeT (toInt32 bytes.length)) }

/-- `write_short(value)`. -/
def writeShort (c : Cursor len) (value : Nat) : Performed len :=
  c.guard 2
    { answer := .success, after := (c.store [UInt8.ofNat (value / 256), UInt8.ofNat value]).advance 2, touched := c.indexes 2 }

/-- An operation and another one behind it, whose answer counts. -/
def followed (first rest : Performed len) : Performed len :=
  { answer := rest.answer, after := rest.after, touched := first.touched ++ rest.touched }

/-- `write_string(buf, size)`. -/
def writeString (c : Cursor len) (bytes : ByteStr) : Performed len :=
  c.guard 2 (followed (c.writeShort (bytes.length % 65536)) ((c.writeShort (bytes.length % 65536)).after.writeBytes bytes))

/-- An operation. -/
def perform (c : Cursor len) : PktOp → Performed len
  | .length => { answer := .position c.offset, after := c, touched := [] }
  | .leftSize => { answer := .size c.leftSize, after := c, touched := [] }
  | .readRemainLength => c.readRemainLength
  | .readByte => c.readByte
  | .readRest => c.readRest
  | .readShort => c.readShort
  | .readString => c.readString
  | .writeRemainLength length => c.writeRemainLength length
  | .writeByte value => c.writeByte value
  | .writeBytes bytes => c.writeBytes bytes
  | .writeShort value => c.writeShort value
  | .writeString bytes => c.writeString bytes

/-! ## The invariant -/

/-- The cursor lies in the buffer. -/
def Inside (c : Cursor len) : Prop := c.offset ≤ len.toNat

/-- **What an operation is to keep**: the cursor stays in the buffer, only indexes of the buffer are touched, and an operation that
    fails does not move. -/
structure Keeps (c : Cursor len) (op : PktOp) : Prop where
  inside : (c.perform op).after.offset ≤ len.toNat
  touches : ∀ i ∈ (c.perform op).touched, i < len.toNat
  refuses : (c.perform op).answer = .failture → (c.perform op).after.offset = c.offset

/-- The length that `read_remain_length` looks for ends in the buffer, or has its fourth byte there; and a length that is found
    ends there too, from the cursor on. -/
def LengthFits (c : Cursor len) : Prop :=
  (∃ i, 1 ≤ i ∧ i ≤ 4 ∧ i < len.toNat ∧ ((c.mem i).toNat < 128 ∨ i = 4)) ∧
    ∀ value bytes, remainLength c.mem len.toNat = .length value bytes → (c.offset + bytes) % 2 ^ 32 ≤ len.toNat

/-- When it keeps it. -/
def Fits (c : Cursor len) : PktOp → Prop
  | .readRemainLength => c.leftSize < 2 ∨ c.LengthFits
  | .readString => c.leftSize < 2 ∨ c.offset + 2 + c.shortHere ≤ len.toNat
  | .writeRemainLength length => c.offset + (Pkt.lengthDigits 5 length).length ≤ len.toNat
  | .writeBytes bytes => c.leftSize < toInt32 bytes.length ∨ 0 ≤ toInt32 bytes.length
  | .writeString bytes => c.leftSize < 2 ∨
      0 ≤ toInt32 bytes.length ∧ c.offset + 2 + toInt32 bytes.length ≤ len.toNat
  | _ => True

section Steps

variable {c : Cursor len} {op : PktOp}

/-- What is left: the difference, or something negative when that is too large for an `int`. -/
theorem leftSize_cases (h : c.Inside) :
    len.toNat < c.offset + 2 ^ 31 ∧ c.leftSize = (len.toNat : Int) - c.offset ∨
      c.leftSize = (len.toNat : Int) - c.offset - 2 ^ 32 ∧ c.leftSize < 0 := by
  have hle : c.offset ≤ len.toNat := h
  have hsmall := len.toNat_lt
  unfold leftSize Int.bmod
  norm_num at hle hsmall ⊢
  omega

theorem leftSize_eq (h : c.Inside) (hsmall : len.toNat < c.offset + 2 ^ 31) : c.leftSize = (len.toNat : Int) - c.offset := by
  have hle : c.offset ≤ len.toNat := h
  have hmax := len.toNat_lt
  unfold leftSize Int.bmod
  norm_num at hle hmax hsmall ⊢
  omega

theorem guard_of_lt {n : Int} {r : Performed len} (h : c.leftSize < n) : c.guard n r = c.refuse := if_pos h

theorem guard_of_not_lt {n : Int} {r : Performed len} (h : ¬ c.leftSize < n) : c.guard n r = r := if_neg h

/-- An operation that finds `n` bytes left. -/
theorem le_of_leftSize (h : c.Inside) {n : Nat} (hleft : ¬ c.leftSize < n) :
    c.offset + n ≤ len.toNat ∧ len.toNat < c.offset + 2 ^ 31 := by
  have hle : c.offset ≤ len.toNat := h
  rcases leftSize_cases h with ⟨hsmall, heq⟩ | ⟨-, hneg⟩
  · omega
  · omega

theorem advance_offset_mod (n : Nat) : (c.advance n).offset = (c.offset + n) % 2 ^ 32 := by
  unfold advance
  norm_num
  omega

theorem advance_offset {n : Nat} (hn : c.offset + n < 2 ^ 32) : (c.advance n).offset = c.offset + n := by
  rw [advance_offset_mod, Nat.mod_eq_of_lt hn]

theorem mem_indexes {n i : Nat} : i ∈ c.indexes n ↔ c.offset ≤ i ∧ i < c.offset + n := List.mem_range'_1

theorem Keeps.of_eq {r : Performed len} (hop : c.perform op = r) (hinside : r.after.offset ≤ len.toNat)
    (htouches : ∀ i ∈ r.touched, i < len.toNat) (hrefuses : r.answer = .failture → r.after.offset = c.offset) : c.Keeps op := by
  subst hop
  exact ⟨hinside, htouches, hrefuses⟩

theorem Keeps.of_refuse (h : c.Inside) (hop : c.perform op = c.refuse) : c.Keeps op :=
  .of_eq hop h (fun _ hi => absurd hi List.not_mem_nil) fun _ => rfl

/-- An operation that moves by what it touches. -/
theorem Keeps.of_moves {n : Nat} {r : Performed len} (hop : c.perform op = r) (hfit : c.offset + n ≤ len.toNat)
    (hoffset : r.after.offset = (c.advance n).offset) (htouched : ∀ i ∈ r.touched, i ∈ c.indexes n) (hanswer : r.answer ≠ .failture) : c.Keeps op := by
  have hlt : c.offset + n < 2 ^ 32 := Nat.lt_of_le_of_lt hfit len.toNat_lt
  refine .of_eq hop ?_ (fun i hi => Nat.lt_of_lt_of_le (mem_indexes.mp (htouched i hi)).2 hfit) fun hf => absurd hf hanswer
  rw [hoffset, advance_offset hlt]
  exact hfit

/-- An operation that asks for as much as it touches. -/
theorem Keeps.of_guard {n : Nat} {k : Int} {q r : Performed len} (h : c.Inside) (hop : c.perform op = q) (hq : q = c.guard k r)
    (hk : k = n) (hoffset : r.after.offset = (c.advance n).offset)
    (htouched : r.touched = c.indexes n) (hanswer : r.answer ≠ .failture) : c.Keeps op := by
  by_cases hleft : c.leftSize < n
  · exact .of_refuse h (hop.trans (hq.trans (guard_of_lt (hk ▸ hleft))))
  · refine .of_moves (hop.trans (hq.trans (guard_of_not_lt (hk ▸ hleft)))) (le_of_leftSize h hleft).1 hoffset ?_ hanswer
    exact fun i hi => htouched ▸ hi

theorem readByte_keeps (h : c.Inside) : c.Keeps .readByte :=
  .of_guard h (q := c.readByte) rfl rfl (n := 1) rfl rfl rfl PktAnswer.noConfusion

theorem readShort_keeps (h : c.Inside) : c.Keeps .readShort :=
  .of_guard h (q := c.readShort) rfl rfl (n := 2) rfl rfl rfl PktAnswer.noConfusion

theorem writeByte_keeps (h : c.Inside) (value : UInt8) : c.Keeps (.writeByte value) :=
  .of_guard h (q := c.writeByte value) rfl rfl (n := 1) rfl rfl rfl PktAnswer.noConfusion

theorem writeShort_keeps (h : c.Inside) (value : Nat) : c.Keeps (.writeShort value) :=
  .of_guard h (q := c.writeShort value) rfl rfl (n := 2) rfl rfl rfl PktAnswer.noConfusion

/-- Everything that is left is asked for, and when that looks negative the cursor ends up at the end all the same. -/
theorem readRest_keeps (h : c.Inside) : c.Keeps .readRest := by
  have hle : c.offset ≤ len.toNat := h
  have hsmall := len.toNat_lt
  have hop : c.perform .readRest = { answer := .bytes (c.here c.leftSize.toNat), after := c.advance c.leftSize
                                     touched := c.indexes c.leftSize.toNat } := rfl
  rcases leftSize_cases h with ⟨-, heq⟩ | ⟨heq, hneg⟩
  · obtain ⟨n, hn⟩ : ∃ n : Nat, c.leftSize = n := ⟨len.toNat - c.offset, by omega⟩
    rw [hn, Int.toNat_natCast] at hop
    exact .of_moves hop (by omega) rfl (fun _ hi => hi) PktAnswer.noConfusion
  · have hnone : c.leftSize.toNat = 0 := Int.toNat_of_nonpos (by omega)
    have hoffset : (c.advance c.leftSize).offset = len.toNat := by
      unfold advance
      rw [heq]
      norm_num at hle hsmall ⊢
      omega
    rw [hnone] at hop
    exact .of_eq hop (Nat.le_of_eq hoffset) (fun _ hi => absurd hi List.not_mem_nil) PktAnswer.noConfusion

/-- Behind two bytes that are there. -/
theorem advance_two (h : c.Inside) (hleft : ¬ c.leftSize < 2) :
    (c.advance 2).offset = c.offset + 2 ∧ (c.advance 2).Inside ∧ (c.advance 2).leftSize = (len.toNat : Int) - (c.offset + 2) := by
  obtain ⟨hfit, hsmall⟩ := @le_of_leftSize len c h 2 hleft
  have hoffset : (c.advance 2).offset = c.offset + 2 := @advance_offset len c 2 (Nat.lt_of_le_of_lt hfit len.toNat_lt)
  have hinside : (c.advance 2).Inside := by
    unfold Inside
    rw [hoffset]
    exact hfit
  have hrest := leftSize_eq hinside (by rw [hoffset]; omega)
  rw [hoffset] at hrest
  exact ⟨hoffset, hinside, by rw [hrest]; norm_num⟩

/-- A string whose bytes are not there has moved the cursor behind its length. -/
theorem readString_keeps_iff (h : c.Inside) : c.Keeps .readString ↔ c.Fits .readString := by
  have hop : c.perform .readString = c.readString := rfl
  unfold readString at hop
  show _ ↔ c.leftSize < 2 ∨ c.offset + 2 + c.shortHere ≤ len.toNat
  by_cases hleft : c.leftSize < 2
  · rw [guard_of_lt hleft] at hop
    exact ⟨fun _ => Or.inl hleft, fun _ => .of_refuse h hop⟩
  · rw [guard_of_not_lt hleft] at hop
    obtain ⟨hoffset, hinside, hrest⟩ := advance_two h hleft
    by_cases hshort : (c.advance 2).leftSize < c.shortHere
    · rw [if_pos hshort] at hop
      constructor
      · intro hk
        have hsame := hk.refuses (by rw [hop])
        rw [hop, hoffset] at hsame
        omega
      · rintro (hless | hle)
        · exact absurd hless hleft
        · omega
    · rw [if_neg hshort] at hop
      have hle := (le_of_leftSize hinside hshort).1
      rw [hoffset] at hle
      have hlt : c.offset + 2 + c.shortHere < 2 ^ 32 := Nat.lt_of_le_of_lt hle len.toNat_lt
      refine ⟨fun _ => Or.inr hle, fun _ => ?_⟩
      have hfit : c.offset + (2 + c.shortHere) ≤ len.toNat := by omega
      refine .of_moves hop hfit ?_ (fun i hi => ?_) PktAnswer.noConfusion
      · rw [advance_offset (by rw [hoffset]; exact hlt), advance_offset (by omega), hoffset, Nat.add_assoc]
      · rcases List.mem_append.mp hi with hi | hi
        · have hmem := mem_indexes.mp hi
          exact mem_indexes.mpr ⟨hmem.1, by omega⟩
        · have hmem := mem_indexes.mp hi
          rw [hoffset] at hmem
          exact mem_indexes.mpr ⟨by omega, by omega⟩

/-- A negative size is a huge one for `memcpy`. -/
theorem sizeT_of_neg {n : Int} (hneg : n < 0) (hlow : -2 ^ 31 ≤ n) : 2 ^ 32 ≤ sizeT n := by
  unfold sizeT
  norm_num at hlow ⊢
  omega

theorem sizeT_natCast {n : Nat} (hn : n < 2 ^ 64) : sizeT n = n := by
  unfold sizeT
  norm_num at hn ⊢
  omega

theorem toInt32_bounds (n : Nat) : -2 ^ 31 ≤ toInt32 n ∧ toInt32 n < 2 ^ 31 := by
  unfold toInt32 Int.bmod
  norm_num
  omega

/-- The size of a container, when it is not taken for a negative one. -/
theorem exists_size {bytes : ByteStr} (hpos : 0 ≤ toInt32 bytes.length) :
    ∃ n : Nat, toInt32 bytes.length = n ∧ n < 2 ^ 31 ∧ sizeT (toInt32 bytes.length) = n := by
  obtain ⟨n, hn⟩ := Int.eq_ofNat_of_zero_le hpos
  have hbound := (toInt32_bounds bytes.length).2
  rw [hn] at hbound
  have hlt : n < 2 ^ 31 := by exact_mod_cast hbound
  refine ⟨n, hn, hlt, ?_⟩
  rw [hn]
  exact sizeT_natCast (Nat.lt_trans hlt (by decide))

/-- The bytes of a container are copied when they fit. -/
theorem writeBytes_keeps_iff (h : c.Inside) (bytes : ByteStr) : c.Keeps (.writeBytes bytes) ↔ c.Fits (.writeBytes bytes) := by
  have hop : c.perform (.writeBytes bytes) = c.writeBytes bytes := rfl
  unfold writeBytes at hop
  show _ ↔ c.leftSize < toInt32 bytes.length ∨ 0 ≤ toInt32 bytes.length
  by_cases hleft : c.leftSize < toInt32 bytes.length
  · simp only [guard_of_lt hleft] at hop
    exact ⟨fun _ => Or.inl hleft, fun _ => .of_refuse h hop⟩
  · simp only [guard_of_not_lt hleft] at hop
    by_cases hpos : 0 ≤ toInt32 bytes.length
    · obtain ⟨n, hn, -, hsize⟩ := exists_size hpos
      rw [hsize, hn] at hop
      rw [hn] at hleft
      exact ⟨fun _ => Or.inr hpos, fun _ => .of_moves hop (le_of_leftSize h hleft).1 rfl (fun _ hi => hi) PktAnswer.noConfusion⟩
    · refine ⟨fun hk => ?_, fun hfits => absurd hfits (not_or.mpr ⟨hleft, hpos⟩)⟩
      have hhuge := sizeT_of_neg (Int.not_le.mp hpos) (toInt32_bounds bytes.length).1
      have hmax : len.toNat ∈ c.indexes (sizeT (toInt32 bytes.length)) :=
        mem_indexes.mpr ⟨h, by have hsmall := len.toNat_lt; omega⟩
      have htouches := hk.touches len.toNat
      rw [hop] at htouches
      simp only at htouches
      have hlt := htouches hmax
      exact absurd hlt (Nat.lt_irrefl _)

theorem store_inside (h : c.Inside) (bytes : ByteStr) : (c.store bytes).Inside := h

theorem store_leftSize (bytes : ByteStr) : (c.store bytes).leftSize = c.leftSize := rfl

theorem writeBytes_failture (bytes : ByteStr) :
    (c.writeBytes bytes).answer = .failture ↔ c.leftSize < toInt32 bytes.length := by
  unfold writeBytes
  by_cases hleft : c.leftSize < toInt32 bytes.length
  · rw [guard_of_lt hleft]
    exact ⟨fun _ => hleft, fun _ => rfl⟩
  · rw [guard_of_not_lt hleft]
    refine ⟨fun h => ?_, fun h => absurd h hleft⟩
    cases h

theorem writeShort_eq (hleft : ¬ c.leftSize < 2) (value : Nat) : c.writeShort value =
    { answer := .success, after := (c.store [UInt8.ofNat (value / 256), UInt8.ofNat value]).advance 2, touched := c.indexes 2 } := by
  unfold writeShort
  rw [guard_of_not_lt hleft]

/-- A string that does not fit has its length written all the same. -/
theorem writeString_keeps_iff (h : c.Inside) (bytes : ByteStr) : c.Keeps (.writeString bytes) ↔ c.Fits (.writeString bytes) := by
  have hop : c.perform (.writeString bytes) = c.writeString bytes := rfl
  unfold writeString at hop
  show _ ↔ c.leftSize < 2 ∨ 0 ≤ toInt32 bytes.length ∧ c.offset + 2 + toInt32 bytes.length ≤ len.toNat
  by_cases hleft : c.leftSize < 2
  · simp only [guard_of_lt hleft] at hop
    exact ⟨fun _ => Or.inl hleft, fun _ => .of_refuse h hop⟩
  · simp only [guard_of_not_lt hleft, writeShort_eq hleft] at hop
    obtain ⟨stored, hstored⟩ : ∃ stored, stored =
      c.store [UInt8.ofNat (bytes.length % 65536 / 256), UInt8.ofNat (bytes.length % 65536)] := ⟨_, rfl⟩
    have hoff : stored.offset = c.offset := by
      rw [hstored]
      rfl
    have hleft' : ¬ stored.leftSize < 2 := by
      rwa [hstored, store_leftSize]
    rw [← hstored] at hop
    obtain ⟨hoffset, hinside, hrest⟩ := advance_two (hstored ▸ store_inside h _) hleft'
    obtain ⟨first, hfirst⟩ : ∃ first, first = stored.advance 2 := ⟨_, rfl⟩
    rw [← hfirst] at hop hoffset hinside hrest
    rw [hoff] at hoffset hrest
    have hfails := @writeBytes_failture len first bytes
    have hkeeps := writeBytes_keeps_iff hinside bytes
    have hbytes : first.perform (.writeBytes bytes) = first.writeBytes bytes := rfl
    obtain ⟨rest, hrestEq⟩ : ∃ rest, rest = first.writeBytes bytes := ⟨_, rfl⟩
    rw [← hrestEq] at hop hfails hbytes
    by_cases hsize : first.leftSize < toInt32 bytes.length
    · -- refused behind the length
      have hback : rest.after = first := by
        rw [hrestEq]
        unfold writeBytes
        simp only [guard_of_lt hsize]
        rfl
      constructor
      · intro hk
        have hsame := hk.refuses (by rw [hop]; exact hfails.mpr hsize)
        rw [hop] at hsame
        have hmoved : rest.after.offset = c.offset := hsame
        rw [hback] at hmoved
        omega
      · rintro (hless | ⟨-, hle⟩)
        · exact absurd hless hleft
        · omega
    · have hfirst : c.Keeps (.writeString bytes) ↔ first.Keeps (.writeBytes bytes) := by
        have hle : first.offset ≤ len.toNat := hinside
        constructor
        · rintro ⟨hin, htouches, -⟩
          rw [hop] at hin htouches
          refine .of_eq hbytes hin (fun i hi => ?_) fun hf => absurd (hfails.mp hf) hsize
          exact htouches i (List.mem_append_right _ hi)
        · rintro ⟨hin, htouches, -⟩
          rw [hbytes] at hin htouches
          refine .of_eq hop hin (fun i hi => ?_) fun hf => absurd (hfails.mp hf) hsize
          rcases List.mem_append.mp hi with hi | hi
          · have hmem := mem_indexes.mp hi
            omega
          · exact htouches i hi
      rw [hfirst, hkeeps]
      constructor
      · rintro (hless | hpos)
        · exact absurd hless hsize
        · exact Or.inr ⟨hpos, by omega⟩
      · rintro (hless | ⟨hpos, -⟩)
        · exact absurd hless hleft
        · exact Or.inr hpos

theorem lengthDigits_pos (n : Nat) : 0 < (Pkt.lengthDigits 5 n).length := by
  unfold Pkt.lengthDigits
  split
  · exact Nat.succ_pos _
  · exact Nat.one_pos

theorem writeRemainLength_keeps_iff (length : Nat) :
    c.Keeps (.writeRemainLength length) ↔ c.Fits (.writeRemainLength length) := by
  have hop : c.perform (.writeRemainLength length) = c.writeRemainLength length := rfl
  have hpos := lengthDigits_pos length
  unfold writeRemainLength at hop
  show _ ↔ c.offset + (Pkt.lengthDigits 5 length).length ≤ len.toNat
  constructor
  · intro hk
    have htouches := hk.touches (c.offset + (Pkt.lengthDigits 5 length).length - 1)
    rw [hop] at htouches
    simp only at htouches
    have hlast := htouches (mem_indexes.mpr ⟨by omega, by omega⟩)
    omega
  · intro hfit
    exact .of_moves hop hfit rfl (fun _ hi => hi) PktAnswer.noConfusion

/-- The scan stays in the buffer when it ends there: with a last byte, or after as many as it looks at. -/
theorem scanned_lt_iff (mem : Nat → UInt8) (maxSize : Nat) (fuel : Nat) : ∀ offset,
    (∀ i ∈ scanned mem (fuel + 1) offset, i < maxSize) ↔
      ∃ i, offset + 1 ≤ i ∧ i ≤ offset + (fuel + 1) ∧ i < maxSize ∧ ((mem i).toNat < 128 ∨ i = offset + (fuel + 1)) := by
  induction fuel with
  | zero =>
      intro offset
      have hscan : scanned mem 1 offset = [offset + 1] := by
        unfold scanned
        rw [scanned, ite_self]
      rw [hscan, List.forall_mem_singleton]
      constructor
      · exact fun hlt => ⟨offset + 1, Nat.le_refl _, Nat.le_refl _, hlt, Or.inr rfl⟩
      · rintro ⟨i, hlo, -, hlt, -⟩
        exact Nat.lt_of_le_of_lt hlo hlt
  | succ fuel ih =>
      intro offset
      unfold scanned
      by_cases hlast : (mem (offset + 1)).toNat < 128
      · rw [if_pos hlast, List.forall_mem_singleton]
        constructor
        · exact fun hlt => ⟨offset + 1, Nat.le_refl _, by omega, hlt, Or.inl hlast⟩
        · rintro ⟨i, hlo, -, hlt, -⟩
          exact Nat.lt_of_le_of_lt hlo hlt
      · rw [if_neg hlast, List.forall_mem_cons, ih]
        constructor
        · rintro ⟨-, i, hlo, hhi, hlt, hend⟩
          exact ⟨i, by omega, by omega, hlt, hend.imp id fun h => by omega⟩
        · rintro ⟨i, hlo, hhi, hlt, hend⟩
          have hne : i ≠ offset + 1 := by
            rintro rfl
            exact hend.elim hlast fun h => by omega
          exact ⟨by omega, i, by omega, by omega, hlt, hend.imp id fun h => by omega⟩

theorem readRemainLength_keeps_iff (h : c.Inside) : c.Keeps .readRemainLength ↔ c.Fits .readRemainLength := by
  have hop : c.perform .readRemainLength = c.readRemainLength := rfl
  unfold readRemainLength at hop
  show _ ↔ c.leftSize < 2 ∨ c.LengthFits
  by_cases hleft : c.leftSize < 2
  · rw [guard_of_lt hleft] at hop
    exact ⟨fun _ => Or.inl hleft, fun _ => .of_refuse h hop⟩
  · rw [guard_of_not_lt hleft] at hop
    have hscan := scanned_lt_iff c.mem len.toNat 3 0
    simp only [Nat.zero_add] at hscan
    have hfits : c.leftSize < 2 ∨ c.LengthFits ↔ c.LengthFits := or_iff_right hleft
    rw [hfits]
    unfold LengthFits
    rw [← hscan]
    cases hlength : remainLength c.mem len.toNat with
    | length value bytes =>
        rw [hlength] at hop
        have hoffset := @advance_offset_mod len c bytes
        constructor
        · rintro ⟨hin, htouches, -⟩
          rw [hop] at hin htouches
          refine ⟨htouches, ?_⟩
          rintro value' bytes' ⟨⟩
          rw [← hoffset]
          exact hin
        · rintro ⟨htouches, hin⟩
          refine .of_eq hop ?_ htouches PktAnswer.noConfusion
          have hle := hin value bytes rfl
          rw [← hoffset] at hle
          exact hle
    | needMoreData =>
        rw [hlength] at hop
        refine ⟨fun hk => ⟨fun i hi => hk.touches i (by rw [hop]; exact hi), fun _ _ hl => by cases hl⟩, fun hfit => ?_⟩
        exact .of_eq hop h hfit.1 fun _ => rfl
    | failture =>
        rw [hlength] at hop
        refine ⟨fun hk => ⟨fun i hi => hk.touches i (by rw [hop]; exact hi), fun _ _ hl => by cases hl⟩, fun hfit => ?_⟩
        exact .of_eq hop h hfit.1 fun _ => rfl

/-- **Each operation keeps the invariant exactly when it fits.** -/
theorem keeps_iff (h : c.Inside) (op : PktOp) : c.Keeps op ↔ c.Fits op := by
  cases op with
  | length => exact ⟨fun _ => trivial, fun _ => .of_eq rfl h (fun _ hi => absurd hi List.not_mem_nil) PktAnswer.noConfusion⟩
  | leftSize => exact ⟨fun _ => trivial, fun _ => .of_eq rfl h (fun _ hi => absurd hi List.not_mem_nil) PktAnswer.noConfusion⟩
  | readRemainLength => exact readRemainLength_keeps_iff h
  | readByte => exact ⟨fun _ => trivial, fun _ => readByte_keeps h⟩
  | readRest => exact ⟨fun _ => trivial, fun _ => readRest_keeps h⟩
  | readShort => exact ⟨fun _ => trivial, fun _ => readShort_keeps h⟩
  | readString => exact readString_keeps_iff h
  | writeRemainLength length => exact writeRemainLength_keeps_iff length
  | writeByte value => exact ⟨fun _ => trivial, fun _ => writeByte_keeps h value⟩
  | writeBytes bytes => exact writeBytes_keeps_iff h bytes
  | writeShort value => exact ⟨fun _ => trivial, fun _ => writeShort_keeps h value⟩
  | writeString bytes => exact writeString_keeps_iff h bytes

end Steps

/-- The object as a machine: what an operation answers, and the cursor behind it. -/
def step (c : Cursor len) (op : PktOp) : PktAnswer × Cursor len := ((c.perform op).answer, (c.perform op).after)

/-- **Over a sequence of operations**: they all keep the invariant exactly when they all fit. -/
theorem along_keeps_iff (ops : List PktOp) (c : Cursor len) (h : c.Inside) :
    Lib.Along (fun c op => (c.step op).2) Fits c ops ↔ Lib.Along (fun c op => (c.step op).2) Keeps c ops := by
  have hstep : ∀ (c : Cursor len) (op : PktOp), c.Inside → True →
      (c.Fits op ↔ c.Keeps op) ∧ (c.Keeps op → (c.step op).2.Inside) :=
    fun c op hc _ => ⟨(keeps_iff hc op).symm, fun hk => hk.inside⟩
  exact Lib.along_iff hstep ops c h (Lib.along_of_forall (fun _ _ => trivial) ops c)

end Cursor
end MqttServer
