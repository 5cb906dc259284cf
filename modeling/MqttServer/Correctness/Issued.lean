import MqttServer.Codec.Issued
import MqttServer.Codec.Wire

/-!
# `Correctness.Issued` — the programs on the cursor are those of `Codec.Msg`

`Codec.Msg` has the decoders and encoders on a `Pkt`, for packets whose size an `int` holds. Here the programs of `Codec.Issued`
are compared with them: a cursor that `Shows` a packet answers as the packet does and shows what it becomes. On a new object the
decoders agree under no condition (`Decodes`), the encoders as far as the lengths they write fit (`Encodes`).
-/

namespace MqttServer

namespace Cursor

/-- The cursor is the packet, with zeros behind it. -/
structure Shows {len : UInt32} (c : Cursor len) (p : Pkt) : Prop where
  mem : c.mem = p.byteAt
  offset : c.offset = p.offset
  inside : p.offset ≤ p.buf.length
  size : p.buf.length = len.toNat
  small : len.toNat < 2 ^ 31

namespace Shows

variable {len : UInt32} {c : Cursor len} {p : Pkt}

theorem new {buf : ByteStr} (hsize : buf.length = len.toNat) (hsmall : len.toNat < 2 ^ 31) :
    Shows (Cursor.new (memory buf) len) (Pkt.ofBuf buf) :=
  ⟨rfl, rfl, Nat.zero_le _, hsize, hsmall⟩

theorem inside' (h : c.Shows p) : c.Inside := by
  have hinside := h.inside
  rw [h.size, ← h.offset] at hinside
  exact hinside

theorem leftSize (h : c.Shows p) : c.leftSize = p.leftSize := by
  rw [leftSize_eq h.inside' (Nat.lt_of_lt_of_le h.small (Nat.le_add_left _ _)), h.offset, ← h.size]
  rfl

/-- So many bytes left, as the packet counts them. -/
theorem le_of_not_lt {n : Nat} (hleft : ¬ p.leftSize < n) : p.offset + n ≤ p.buf.length := by
  unfold Pkt.leftSize at hleft
  omega

theorem here (h : c.Shows p) {n : Nat} (hn : p.offset + n ≤ p.buf.length) : c.here n = p.here n := by
  unfold Cursor.here Pkt.here
  rw [h.mem, h.offset]
  exact range_getD hn

theorem shortHere (h : c.Shows p) :
    c.shortHere = (p.byteAt p.offset).toNat * 256 + (p.byteAt (p.offset + 1)).toNat := by
  unfold Cursor.shortHere
  rw [h.mem, h.offset]

theorem advance (h : c.Shows p) {n : Nat} (hn : p.offset + n ≤ p.buf.length) : (c.advance n).Shows (p.advance n) := by
  refine ⟨h.mem, ?_, hn, h.size, h.small⟩
  have hlt : c.offset + n < 2 ^ 32 := by
    rw [h.offset]
    exact Nat.lt_of_le_of_lt (h.size ▸ hn) len.toNat_lt
  rw [advance_offset hlt, h.offset]
  rfl

/-! ## The reads -/

theorem readByte (h : c.Shows p) :
    (c.step .readByte).1.byte? = (PktM.readByte p).1 ∧ (c.step .readByte).2.Shows (PktM.readByte p).2 := by
  have hop : c.perform .readByte = c.readByte := rfl
  have hleft := h.leftSize
  unfold Cursor.readByte at hop
  unfold step PktM.readByte
  rw [hop]
  by_cases hless : p.leftSize < 1
  · rw [if_pos hless, guard_of_lt (hleft ▸ hless)]
    exact ⟨rfl, h⟩
  · rw [if_neg hless, guard_of_not_lt (hleft ▸ hless)]
    refine ⟨congrArg some ?_, h.advance (n := 1) (le_of_not_lt hless)⟩
    rw [h.mem, h.offset]

theorem readShort (h : c.Shows p) :
    (c.step .readShort).1.short? = (PktM.readShort p).1 ∧ (c.step .readShort).2.Shows (PktM.readShort p).2 := by
  have hop : c.perform .readShort = c.readShort := rfl
  have hleft := h.leftSize
  unfold Cursor.readShort at hop
  unfold step PktM.readShort
  rw [hop]
  by_cases hless : p.leftSize < 2
  · rw [if_pos hless, guard_of_lt (hleft ▸ hless)]
    exact ⟨rfl, h⟩
  · rw [if_neg hless, guard_of_not_lt (hleft ▸ hless)]
    exact ⟨congrArg some h.shortHere, h.advance (n := 2) (le_of_not_lt hless)⟩

theorem readRest (h : c.Shows p) :
    (c.step .readRest).1.bytes? = (PktM.readRest p).1 ∧ (c.step .readRest).2.Shows (PktM.readRest p).2 := by
  have hop : c.perform .readRest = c.readRest := rfl
  have hleft := h.leftSize
  have hinside := h.inside
  unfold Cursor.readRest at hop
  have hcount : p.leftSize = (p.buf.length - p.offset : Nat) := by
    unfold Pkt.leftSize
    omega
  unfold step PktM.readRest
  rw [hop, hleft, hcount, if_neg (Int.not_lt.mpr (Int.natCast_nonneg _)), Int.toNat_natCast]
  have hle : p.offset + (p.buf.length - p.offset) ≤ p.buf.length := by omega
  exact ⟨congrArg some (h.here hle), h.advance hle⟩

theorem readString (h : c.Shows p) :
    (c.step .readString).1.bytes? = (PktM.readString p).1 ∧ (c.step .readString).2.Shows (PktM.readString p).2 := by
  have hop : c.perform .readString = c.readString := rfl
  have hleft := h.leftSize
  unfold Cursor.readString at hop
  by_cases hless : p.leftSize < 2
  · have hread : PktM.readShort p = (none, p) := if_pos hless
    have hstring : PktM.readString p = (none, p) := PktM.bind_none hread
    unfold step
    rw [hop, hstring, guard_of_lt (hleft ▸ hless)]
    exact ⟨rfl, h⟩
  · have hread : PktM.readShort p = (some ((p.byteAt p.offset).toNat * 256 + (p.byteAt (p.offset + 1)).toNat), p.advance 2) :=
      if_neg hless
    have hnext := h.advance (n := 2) (le_of_not_lt hless)
    have hleft' := hnext.leftSize
    have hshort := h.shortHere
    obtain ⟨strLen, hlen⟩ : ∃ strLen, strLen = c.shortHere := ⟨_, rfl⟩
    rw [← hshort, ← hlen] at hread
    have hstring : PktM.readString p = if (p.advance 2).leftSize < strLen then (none, p.advance 2)
        else (some ((p.advance 2).here strLen), (p.advance 2).advance strLen) := PktM.bind_some hread
    unfold step
    rw [hop, hstring, guard_of_not_lt (hleft ▸ hless), ← hlen]
    by_cases hmore : (p.advance 2).leftSize < strLen
    · rw [if_pos hmore, if_pos (hleft' ▸ hmore)]
      exact ⟨rfl, hnext⟩
    · rw [if_neg hmore, if_neg (hleft' ▸ hmore)]
      exact ⟨congrArg some (hnext.here (le_of_not_lt hmore)), hnext.advance (le_of_not_lt hmore)⟩

/-- `read_remain_length` as the functions call it, behind the fixed header. -/
theorem readRemainLength (h : c.Shows p) (hoffset : p.offset ≤ 1) :
    (c.step .readRemainLength).1.length? = (PktM.readRemainLength p).1 ∧
      (c.step .readRemainLength).2.Shows (PktM.readRemainLength p).2 := by
  have hop : c.perform .readRemainLength = c.readRemainLength := rfl
  have hleft := h.leftSize
  unfold Cursor.readRemainLength at hop
  unfold step PktM.readRemainLength
  rw [hop]
  by_cases hless : p.leftSize < 2
  · rw [if_pos hless, guard_of_lt (hleft ▸ hless)]
    exact ⟨rfl, h⟩
  · rw [if_neg hless, guard_of_not_lt (hleft ▸ hless), h.mem, ← h.size]
    cases hlength : remainLength p.byteAt p.buf.length with
    | length value bytes =>
        have hends := remainLength_length hlength
        exact ⟨rfl, h.advance (by omega)⟩
    | needMoreData => exact ⟨rfl, h⟩
    | failture => exact ⟨rfl, h⟩

end Shows
/-! ## The decoders -/

section Decoders

variable {len : UInt32} {P : Cursor len → PktOp → Prop} {α β : Type}

/-- A program answers as a decoder does, as far as its operations meet `P`. -/
def As (P : Cursor len → PktOp → Prop) (x : PktCalls α) (y : PktM α) : Prop := Lib.Calls.Simulates step P Shows x y

theorem seq_eq (y : PktM α) (g : α → PktM β) : Lib.Calls.seq y g = (y >>= g) := by
  funext p
  unfold Lib.Calls.seq
  rcases hy : y p with ⟨_ | a, p'⟩
  · exact (PktM.bind_none hy).symm
  · exact (PktM.bind_some hy).symm

theorem As.bind {x : PktCalls α} {y : PktM α} {f : α → PktCalls β} {g : α → PktM β} (h : As P x y)
    (hf : ∀ a, As P (f a) (g a)) : As P (x >>= f) (y >>= g) := by
  rw [← seq_eq]
  exact Lib.Calls.Simulates.andThen h hf

/-- A read whose failure is a result. -/
def tried (y : PktM α) : PktM (Option α) := fun p => (some (y p).1, (y p).2)

theorem tried_none {y : PktM α} {f : Option α → PktM β} {p p' : Pkt} (h : y p = (none, p')) : (tried y >>= f) p = f none p' := by
  have htried : tried y p = (some none, p') := by rw [tried, h]
  exact PktM.bind_some htried

theorem tried_some {y : PktM α} {f : Option α → PktM β} {p p' : Pkt} {a : α} (h : y p = (some a, p')) :
    (tried y >>= f) p = f (some a) p' := by
  have htried : tried y p = (some (some a), p') := by rw [tried, h]
  exact PktM.bind_some htried

theorem As.attempt {x : PktCalls α} {y : PktM α} (h : As P x y) : As P x.attempt (tried y) := Lib.Calls.Simulates.attempt h

theorem As.pure (a : α) : As P (Pure.pure a) (Pure.pure a) := Lib.Calls.simulates_ret (some a)

theorem As.failture : As P (PktCalls.failture (α := α)) PktM.failture := Lib.Calls.simulates_ret none

theorem As.ite {q : Prop} [Decidable q] {x x' : PktCalls α} {y y' : PktM α} (h : As P x y) (h' : As P x' y') :
    As P (if q then x else x') (if q then y else y') := by
  by_cases hq : q
  · rw [if_pos hq, if_pos hq]
    exact h
  · rw [if_neg hq, if_neg hq]
    exact h'

theorem readByte_as : As P PktCalls.readByte PktM.readByte := Lib.Calls.simulates_ask fun _ _ h _ => h.readByte

theorem readShort_as : As P PktCalls.readShort PktM.readShort := Lib.Calls.simulates_ask fun _ _ h _ => h.readShort

theorem readRest_as : As P PktCalls.readRest PktM.readRest := Lib.Calls.simulates_ask fun _ _ h _ => h.readRest

theorem readString_as : As P PktCalls.readString PktM.readString := Lib.Calls.simulates_ask fun _ _ h _ => h.readString

theorem length_as : As P PktCalls.length PktM.length :=
  Lib.Calls.simulates_ask fun _ _ h _ => ⟨congrArg some h.offset, h⟩

theorem readStringIf_as (flag : Bool) : As P (PktCalls.readStringIf flag) (readStringIf flag) := .ite readString_as (.pure [])

theorem leftSize_as : As P PktCalls.leftSize fun p => (some p.leftSize, p) :=
  Lib.Calls.simulates_ask fun _ _ h _ => ⟨congrArg some h.leftSize, h⟩

/-! ### The loops -/

/-- A round of the SUBSCRIBE loop, read by read. -/
theorem readTopics_succ (rounds : Nat) : readTopics (rounds + 1) = (do
    let topicName? ← tried PktM.readString
    topicName?.elim (pure []) fun topicName => do
      let qos? ← tried PktM.readByte
      qos?.elim (pure []) fun qos => do
        let rest ← readTopics rounds
        pure ({ topicName, qos } :: rest)) := by
  funext p
  rw [readTopics]
  rcases hname : PktM.readString p with ⟨_ | topicName, p₁⟩
  · simp only [hname]
    rw [tried_none hname]
    rfl
  · simp only [hname, tried_some hname, Option.elim_some]
    rcases hqos : PktM.readByte p₁ with ⟨_ | qos, p₂⟩
    · rw [tried_none hqos]
      rfl
    · simp only [tried_some hqos, Option.elim_some]
      rcases hrest : readTopics rounds p₂ with ⟨_ | rest, p₃⟩
      · exact (PktM.bind_none hrest).symm
      · rw [PktM.bind_some hrest]
        rfl

theorem readTopics_as (rounds : Nat) : As P (PktCalls.readTopics rounds) (readTopics rounds) := by
  induction rounds with
  | zero => exact .pure []
  | succ rounds ih =>
      rw [readTopics_succ]
      refine readString_as.attempt.bind fun topicName? => ?_
      cases topicName? with
      | none => exact .pure []
      | some topicName =>
          refine readByte_as.attempt.bind fun qos? => ?_
          cases qos? with
          | none => exact .pure []
          | some qos => exact ih.bind fun rest => .pure _

/-- A round of the UNSUBSCRIBE loop. -/
theorem readNames_succ (rounds : Nat) : readNames (rounds + 1) = (do
    let topicName? ← tried PktM.readString
    topicName?.elim (pure []) fun topicName => do
      let rest ← readNames rounds
      pure (topicName :: rest)) := by
  funext p
  rw [readNames]
  rcases hname : PktM.readString p with ⟨_ | topicName, p₁⟩
  · simp only [hname]
    rw [tried_none hname]
    rfl
  · simp only [hname, tried_some hname, Option.elim_some]
    rcases hrest : readNames rounds p₁ with ⟨_ | rest, p₂⟩
    · exact (PktM.bind_none hrest).symm
    · rw [PktM.bind_some hrest]
      rfl

theorem readNames_as (rounds : Nat) : As P (PktCalls.readNames rounds) (readNames rounds) := by
  induction rounds with
  | zero => exact .pure []
  | succ rounds ih =>
      rw [readNames_succ]
      refine readString_as.attempt.bind fun topicName? => ?_
      cases topicName? with
      | none => exact .pure []
      | some topicName => exact ih.bind fun rest => .pure _

theorem readCodes_as (leftSize : Nat) : ∀ qos, As P (PktCalls.readCodes leftSize qos) (readCodes leftSize qos) := by
  induction leftSize with
  | zero => exact fun _ => .pure []
  | succ leftSize ih =>
      intro qos c p h hP
      have hread := (readByte_as (P := P)).attempt.bind (f := fun read => do
          let subQos ← PktCalls.readCodes leftSize (read.getD qos)
          pure (read.getD qos :: subQos)) (g := fun read => do
          let subQos ← readCodes leftSize (read.getD qos)
          pure (read.getD qos :: subQos)) fun read => (ih _).bind fun subQos => .pure _
      exact hread c p h hP

/-! ### Whole decoders -/

/-- The header is read on a new object, where the length begins at the cursor. -/
theorem decodeHeader_as : As (fun (c : Cursor len) op => op = .readRemainLength → c.offset ≤ 1)
    PktCalls.decodeHeader decodeHeader := by
  have hlength : As (fun (c : Cursor len) op => op = .readRemainLength → c.offset ≤ 1)
      PktCalls.readRemainLength PktM.readRemainLength :=
    Lib.Calls.simulates_ask fun _ _ h hop => h.readRemainLength (h.offset ▸ hop rfl)
  exact readByte_as.bind fun _ => hlength.bind fun _ => .pure _

theorem readByte_offset (p : Pkt) : (PktM.readByte p).2.offset ≤ p.offset + 1 := by
  unfold PktM.readByte
  split
  · exact Nat.le_add_right _ _
  · exact Nat.le_refl _

theorem decodeHeader_along {c : Cursor len} {p : Pkt} (h : c.Shows p) (hnew : p.offset = 0) :
    Lib.Along (fun c op => (c.step op).2) (fun (c : Cursor len) op => op = .readRemainLength → c.offset ≤ 1) c
      (PktCalls.decodeHeader.issued step c) := by
  have hnext := h.readByte.2
  have hle := readByte_offset p
  rw [hnew, ← hnext.offset] at hle
  refine ⟨fun hop => PktOp.noConfusion hop, ?_⟩
  show Lib.Along _ _ (c.step .readByte).2 (((Lib.Calls.ret (c.step .readByte).1.byte?).andThen _).issued step (c.step .readByte).2)
  cases (c.step .readByte).1.byte? with
  | none => trivial
  | some fixedHeader =>
      refine ⟨fun _ => hle, ?_⟩
      show Lib.Along _ _ _ (((Lib.Calls.ret ((c.step .readByte).2.step .readRemainLength).1.length?).andThen _).issued step _)
      cases ((c.step .readByte).2.step .readRemainLength).1.length? with
      | none => trivial
      | some read => trivial

/-- A decoder answers on a new object as it does on the packet. -/
def Decodes (len : UInt32) (x : PktCalls α) (y : PktM α) : Prop := ∀ (c : Cursor len) (p : Pkt), c.Shows p → p.offset = 0 →
  (x.eval step c).1 = (y p).1 ∧ (x.eval step c).2.Shows (y p).2

theorem Decodes.of_header {f : FixedHeader → PktCalls α} {g : FixedHeader → PktM α}
    (h : ∀ header, As (fun (_ : Cursor len) _ => True) (f header) (g header)) :
    Decodes len (PktCalls.decodeHeader >>= f) (decodeHeader >>= g) := by
  intro c p hshows hnew
  have hheader := decodeHeader_as c p hshows (decodeHeader_along hshows hnew)
  rw [← seq_eq]
  exact Lib.Calls.andThen_agrees hheader h (Lib.along_of_forall (fun _ _ => trivial) _ _)

theorem decodeConnect_decodes : Decodes len PktCalls.decodeConnect Connect.decode :=
  .of_header fun _ => .ite .failture <| readString_as.bind fun _ => readByte_as.bind fun _ => readByte_as.bind fun _ =>
    readShort_as.bind fun _ => readString_as.bind fun _ => (readStringIf_as _).bind fun _ => (readStringIf_as _).bind fun _ =>
      (readStringIf_as _).bind fun _ => (readStringIf_as _).bind fun _ => .pure _

theorem decodeConnAck_decodes : Decodes len PktCalls.decodeConnAck ConnAck.decode :=
  .of_header fun _ => .ite .failture <| readByte_as.bind fun _ => readByte_as.bind fun _ => .pure _

theorem decodeSubscribe_decodes : Decodes len (PktCalls.decodeSubscribe len.toNat) Subscribe.decodeFull := by
  have hloop : As (fun (_ : Cursor len) _ => True) (PktCalls.readTopics len.toNat) readAllTopics := by
    intro c p h hP
    unfold readAllTopics
    rw [h.size]
    exact readTopics_as len.toNat c p h hP
  exact .of_header fun _ => .ite .failture <| readShort_as.bind fun _ => hloop.bind fun _ => .pure _

theorem decodeSubAck_decodes (msgId : Nat) : Decodes len (PktCalls.decodeSubAck msgId) (SubAck.decode msgId) :=
  .of_header fun _ => .ite .failture <| leftSize_as.bind fun _ => (readCodes_as _ 0).bind fun _ => .pure _

theorem decodeUnsubscribe_decodes : Decodes len (PktCalls.decodeUnsubscribe len.toNat) Unsubscribe.decode := by
  have hloop : As (fun (_ : Cursor len) _ => True) (PktCalls.readNames len.toNat) fun p => readNames p.buf.length p := by
    intro c p h hP
    have hrounds : readNames p.buf.length p = readNames len.toNat p := by rw [h.size]
    have hread := readNames_as len.toNat c p h hP
    rw [← hrounds] at hread
    exact hread
  exact .of_header fun _ => .ite .failture <| readShort_as.bind fun _ => hloop.bind fun _ => .pure _

theorem decodePublish_decodes : Decodes len PktCalls.decodePublish Publish.decode :=
  .of_header fun _ => readString_as.bind fun _ => length_as.bind fun _ => readShort_as.bind fun _ => readRest_as.bind fun _ => .pure _

theorem decodePublishAck_decodes : Decodes len PktCalls.decodePublishAck PublishAck.decodeFull :=
  .of_header fun _ => .ite .failture <| readShort_as.bind fun _ => .pure _

end Decoders

/-! ## The encoders -/

section Encoders

variable {len : UInt32} {c : Cursor len} {p : Pkt} {α : Type}

/-- The writes of `Codec.Msg`: lengths that end in the buffer, and only sizes that an `int` holds. -/
def Plain (c : Cursor len) : PktOp → Prop
  | .writeRemainLength length => c.Fits (.writeRemainLength length)
  | .writeBytes bytes => bytes.length < 2 ^ 31
  | .writeString bytes => bytes.length < 2 ^ 31
  | _ => True

theorem getD_store {buf bytes : ByteStr} {i : Nat} (h : i + bytes.length ≤ buf.length) (j : Nat) :
    (Pkt.store buf i bytes).getD j 0 = if i ≤ j ∧ j < i + bytes.length then bytes.getD (j - i) 0 else buf.getD j 0 := by
  have hfront : (buf.take i).length = i := by
    rw [List.length_take]
    omega
  have hboth : (buf.take i ++ bytes).length = i + bytes.length := by rw [List.length_append, hfront]
  simp only [List.getD_eq_getElem?_getD]
  unfold Pkt.store
  rw [List.getElem?_append, hboth, List.getElem?_append, hfront]
  by_cases hlow : j < i
  · rw [if_pos (by omega), if_pos hlow, if_neg (by omega), List.getElem?_take_of_lt hlow]
  · by_cases hhigh : j < i + bytes.length
    · rw [if_pos hhigh, if_neg hlow, if_pos ⟨Nat.not_lt.mp hlow, hhigh⟩]
    · rw [if_neg hhigh, if_neg fun hin => hhigh hin.2, List.getElem?_drop, Nat.add_sub_cancel' (Nat.not_lt.mp hhigh)]

/-- Storing and moving on. -/
theorem Shows.stored (h : c.Shows p) (bytes : ByteStr) (hfit : p.offset + bytes.length ≤ p.buf.length) :
    ((c.store bytes).advance bytes.length).Shows
      { buf := Pkt.store p.buf p.offset bytes, offset := p.offset + bytes.length } := by
  have hlen := Pkt.store_length hfit
  have hstored : (c.store bytes).Shows { buf := Pkt.store p.buf p.offset bytes, offset := p.offset } := by
    refine ⟨funext fun j => ?_, h.offset, hlen.symm ▸ h.inside, hlen.trans h.size, h.small⟩
    show (if c.offset ≤ j ∧ j < c.offset + bytes.length then bytes.getD (j - c.offset) 0 else c.mem j) = _
    rw [h.mem, h.offset]
    exact (getD_store hfit j).symm
  exact hstored.advance (hlen.symm ▸ hfit)

theorem step_after (op : PktOp) : (c.step op).2 = (c.perform op).after := rfl

theorem set_eq_store {buf : ByteStr} {i : Nat} (h : i < buf.length) (value : UInt8) :
    buf.set i value = Pkt.store buf i [value] := by
  rw [List.set_eq_take_append_cons_drop, if_pos h]
  unfold Pkt.store
  rw [List.append_assoc]
  rfl

theorem Shows.writeByte (h : c.Shows p) (value : UInt8) : (c.writeByte value).after.Shows (p.writeByte value) := by
  have hleft := h.leftSize
  unfold Cursor.writeByte Pkt.writeByte
  by_cases hless : p.leftSize < 1
  · rw [if_pos hless, guard_of_lt (hleft ▸ hless)]
    exact h
  · have hfit : p.offset + [value].length ≤ p.buf.length := le_of_not_lt hless
    rw [if_neg hless, guard_of_not_lt (hleft ▸ hless), set_eq_store hfit]
    exact h.stored [value] hfit

theorem Shows.writeShort (h : c.Shows p) (value : Nat) : (c.writeShort value).after.Shows (p.writeShort value) := by
  have hleft := h.leftSize
  unfold Cursor.writeShort Pkt.writeShort
  by_cases hless : p.leftSize < 2
  · rw [if_pos hless, guard_of_lt (hleft ▸ hless)]
    exact h
  · rw [if_neg hless, guard_of_not_lt (hleft ▸ hless)]
    exact h.stored [UInt8.ofNat (value / 256), UInt8.ofNat value] (le_of_not_lt hless)

theorem Shows.writeBytes (h : c.Shows p) (bytes : ByteStr) (hsize : bytes.length < 2 ^ 31) :
    (c.writeBytes bytes).after.Shows (p.writeBytes bytes) := by
  have hleft := h.leftSize
  have hcount : sizeT bytes.length = bytes.length := by
    unfold sizeT
    omega
  unfold Cursor.writeBytes Pkt.writeBytes
  rw [toInt32_small hsize]
  by_cases hless : p.leftSize < bytes.length
  · rw [if_pos hless, guard_of_lt (hleft ▸ hless)]
    exact h
  · rw [if_neg hless, guard_of_not_lt (hleft ▸ hless), hcount, List.take_length]
    exact h.stored bytes (le_of_not_lt hless)

theorem followed_after (first rest : Performed len) : (followed first rest).after = rest.after := rfl

theorem Shows.writeString (h : c.Shows p) (bytes : ByteStr) (hsize : bytes.length < 2 ^ 31) :
    (c.writeString bytes).after.Shows (p.writeString bytes) := by
  have hleft := h.leftSize
  have hshort := h.writeShort (bytes.length % 65536)
  unfold Cursor.writeString Pkt.writeString
  by_cases hless : p.leftSize < 2
  · rw [if_pos hless, guard_of_lt (hleft ▸ hless)]
    exact h
  · rw [if_neg hless, guard_of_not_lt (hleft ▸ hless)]
    rw [followed_after]
    exact hshort.writeBytes bytes hsize

theorem Shows.writeRemainLength (h : c.Shows p) (length : Nat) (hfits : c.Fits (.writeRemainLength length)) :
    (c.writeRemainLength length).after.Shows (p.writeRemainLength length) := by
  have hfit : c.offset + (Pkt.lengthDigits 5 length).length ≤ len.toNat := hfits
  rw [h.offset, ← h.size] at hfit
  exact h.stored _ hfit

/-- A write, as a read without a value. -/
def wrote (g : Pkt → Pkt) : PktM Unit := fun p => (some (), g p)

theorem writeByte_as (value : UInt8) : As (@Plain len) (PktCalls.writeByte value) (wrote (Pkt.writeByte value)) :=
  Lib.Calls.simulates_tell fun _ _ h _ => h.writeByte value

theorem writeShort_as (value : Nat) : As (@Plain len) (PktCalls.writeShort value) (wrote (Pkt.writeShort value)) :=
  Lib.Calls.simulates_tell fun _ _ h _ => h.writeShort value

theorem writeBytes_as (bytes : ByteStr) : As (@Plain len) (PktCalls.writeBytes bytes) (wrote (Pkt.writeBytes bytes)) := by
  refine Lib.Calls.simulates_tell fun c p h hplain => ?_
  have hop : c.perform (.writeBytes bytes) = c.writeBytes bytes := rfl
  rw [step_after, hop]
  exact h.writeBytes bytes hplain

theorem writeString_as (bytes : ByteStr) : As (@Plain len) (PktCalls.writeString bytes) (wrote (Pkt.writeString bytes)) := by
  refine Lib.Calls.simulates_tell fun c p h hplain => ?_
  have hop : c.perform (.writeString bytes) = c.writeString bytes := rfl
  rw [step_after, hop]
  exact h.writeString bytes hplain

theorem writeRemainLength_as (length : Nat) :
    As (@Plain len) (PktCalls.writeRemainLength length) (wrote (Pkt.writeRemainLength length)) :=
  Lib.Calls.simulates_tell fun _ _ h hplain => h.writeRemainLength length hplain

/-- A write and what comes behind it. -/
theorem As.after {P : Cursor len → PktOp → Prop} {w : PktCalls Unit} {g : Pkt → Pkt} {x : PktCalls α} {y : PktM α}
    (h : As P w (wrote g)) (hx : As P x y) : As P (w >>= fun _ => x) fun p => y (g p) :=
  h.bind fun _ => hx

/-- `finish` on the packet. -/
def reached (pktLen : Nat) : PktM Nat := fun p => (if p.offset = pktLen then some p.offset else none, p)

theorem finish_as {P : Cursor len → PktOp → Prop} (pktLen : Nat) : As P (PktCalls.finish pktLen) (reached pktLen) := by
  intro c p h hP
  have hfinish := length_as.bind (P := P) (g := fun n => if n = pktLen then pure n else PktM.failture)
    (fun n => As.ite (.pure n) .failture) c p h hP
  have hreached : (PktM.length >>= fun n => if n = pktLen then pure n else PktM.failture) p = reached pktLen p := by
    rw [PktM.bind_some (PktM.length_eq p)]
    unfold reached
    by_cases heq : p.offset = pktLen
    · rw [if_pos heq, if_pos heq]
      rfl
    · rw [if_neg heq, if_neg heq]
      rfl
  rw [hreached] at hfinish
  exact hfinish

theorem writeTopics_as (topics : List Topic) :
    As (@Plain len) (PktCalls.writeTopics topics) (wrote fun p => writeTopics p topics) := by
  induction topics with
  | nil => exact .pure ()
  | cons topic topics ih => exact (writeString_as topic.topicName).after <| (writeByte_as topic.qos).after ih

theorem writeCodes_as (codes : List UInt8) : As (@Plain len) (PktCalls.writeCodes codes)
    (wrote fun p => codes.foldl (fun p qos => p.writeByte qos) p) := by
  induction codes with
  | nil => exact .pure ()
  | cons qos codes ih => exact (writeByte_as qos).after ih

/-- An encoder fills the buffer as it does in `Codec.Msg`: when its writes are plain, its result is the number of bytes that are
    then in front of the cursor, and these are the bytes of the packet. -/
def Encodes (len : UInt32) (x : PktCalls Nat) (e : ByteStr → Option ByteStr) : Prop :=
  ∀ (c : Cursor len) (buf : ByteStr), c.Shows (Pkt.ofBuf buf) →
    Lib.Along (fun c op => (c.step op).2) Plain c (x.issued step c) →
    e buf = (x.eval step c).1.map fun n => (List.range n).map (x.eval step c).2.mem

theorem Encodes.of_as {x : PktCalls Nat} {g : Pkt → Pkt} {pktLen : Nat} (h : As (@Plain len) x fun p => reached pktLen (g p)) :
    Encodes len x fun buf => (g (Pkt.ofBuf buf)).finish pktLen := by
  intro c buf hshows hplain
  obtain ⟨hres, hnext⟩ := h c _ hshows hplain
  have hinside := hnext.inside
  unfold reached at hres hnext hinside
  simp only at hres hnext hinside
  rw [hres, hnext.mem]
  unfold Pkt.finish
  simp only
  by_cases heq : (g (Pkt.ofBuf buf)).offset = pktLen
  · have hbytes := @range_getD (g (Pkt.ofBuf buf)).buf 0 pktLen (by omega)
    simp only [Nat.zero_add, List.drop_zero] at hbytes
    rw [if_pos heq, if_pos heq, Option.map_some, heq, ← hbytes]
    rfl
  · rw [if_neg heq, if_neg heq, Option.map_none]

theorem encodeConnAck_encodes (header : FixedHeader) (code : UInt8) :
    Encodes len (PktCalls.encodeConnAck header code) fun buf => ConnAck.encodeInto buf header code := by
  have hwrites : As (@Plain len) (PktCalls.encodeConnAck header code) fun p =>
      reached 4 ((((p.writeByte header.encode).writeRemainLength 2).writeByte 0).writeByte code) :=
    (writeByte_as _).after <| (writeRemainLength_as 2).after <| (writeByte_as 0).after <| (writeByte_as code).after <| finish_as 4
  have hencodes := Encodes.of_as hwrites
  exact hencodes

theorem encodePublish_encodes (m : Publish) : Encodes len (PktCalls.encodePublish m) fun buf => Publish.encodeInto buf m := by
  obtain ⟨n, hn⟩ : ∃ n, n = (m.topicName.length + 2 + 2 + m.payload.length) % 2 ^ 32 := ⟨_, rfl⟩
  have hwrites : As (@Plain len) (PktCalls.encodePublish m) fun p => reached (n + (Pkt.lengthDigits 5 n).length + 1)
      (((((p.writeByte m.header.encode).writeRemainLength n).writeString m.topicName).writeShort m.msgId).writeBytes m.payload) := by
    unfold PktCalls.encodePublish
    rw [← hn]
    exact (writeByte_as _).after <| (writeRemainLength_as n).after <| (writeString_as _).after <| (writeShort_as _).after <|
      (writeBytes_as _).after <| finish_as _
  have hencodes := Encodes.of_as hwrites
  unfold Publish.encodeInto
  rw [← hn]
  exact hencodes

/-- PUBACK, and UNSUBACK with it. -/
theorem encodeMsgId_encodes (header : FixedHeader) (msgId : Nat) :
    Encodes len (PktCalls.encodeMsgId header msgId) fun buf => PublishAck.encodeInto buf header msgId := by
  have hwrites : As (@Plain len) (PktCalls.encodeMsgId header msgId) fun p =>
      reached 4 (((p.writeByte header.encode).writeRemainLength 2).writeShort msgId) :=
    (writeByte_as _).after <| (writeRemainLength_as 2).after <| (writeShort_as msgId).after <| finish_as 4
  have hencodes := Encodes.of_as hwrites
  exact hencodes

theorem encodeEmpty_encodes (header : FixedHeader) : Encodes len (PktCalls.encodeEmpty header) fun buf =>
    ((encodeHeaderInto buf header).writeRemainLength 0).finish 2 := by
  have hwrites : As (@Plain len) (PktCalls.encodeEmpty header) fun p =>
      reached 2 ((p.writeByte header.encode).writeRemainLength 0) :=
    (writeByte_as _).after <| (writeRemainLength_as 0).after <| finish_as 2
  have hencodes := Encodes.of_as hwrites
  exact hencodes

theorem encodeSubAck_encodes (header : FixedHeader) (m : SubAck) :
    Encodes len (PktCalls.encodeSubAck header m) fun buf => SubAck.encodeInto buf header m := by
  obtain ⟨n, hn⟩ : ∃ n, n = (m.subQos.length + 2) % 2 ^ 32 := ⟨_, rfl⟩
  have hwrites : As (@Plain len) (PktCalls.encodeSubAck header m) fun p => reached (n + (Pkt.lengthDigits 5 n).length + 1)
      (m.subQos.foldl (fun p qos => p.writeByte qos) (((p.writeByte header.encode).writeRemainLength n).writeShort m.msgId)) := by
    unfold PktCalls.encodeSubAck
    rw [← hn]
    exact (writeByte_as _).after <| (writeRemainLength_as n).after <| (writeShort_as _).after <| (writeCodes_as _).after <| finish_as _
  have hencodes := Encodes.of_as hwrites
  unfold SubAck.encodeInto
  rw [← hn]
  exact hencodes

/-- With no topics there is no result on either side. -/
theorem encodeSubscribe_encodes (header : FixedHeader) (m : Subscribe) :
    Encodes len (PktCalls.encodeSubscribe header m) fun buf => Subscribe.encodeInto buf header m := by
  by_cases hnone : m.subTopics = []
  · intro c buf _ _
    unfold Subscribe.encodeInto PktCalls.encodeSubscribe
    simp only [if_pos hnone]
    rfl
  · obtain ⟨n, hn⟩ : ∃ n, n = ((m.subTopics.map fun t => t.topicName.length + 2 + 1).sum + 2) % 2 ^ 32 := ⟨_, rfl⟩
    have hwrites : As (@Plain len) (PktCalls.encodeSubscribe header m) fun p => reached (n + (Pkt.lengthDigits 5 n).length + 1)
        (writeTopics (((p.writeByte header.encode).writeRemainLength n).writeShort m.msgId) m.subTopics) := by
      unfold PktCalls.encodeSubscribe
      rw [if_neg hnone, ← hn]
      exact (writeByte_as _).after <| (writeRemainLength_as n).after <| (writeShort_as _).after <| (writeTopics_as _).after <| finish_as _
    have hencodes := Encodes.of_as hwrites
    unfold Subscribe.encodeInto
    simp only [if_neg hnone, ← hn]
    exact hencodes

/-- CONNECT, whose result is the length reached, whatever was announced. -/
theorem encodeConnect_agrees (header : FixedHeader) (clientId : ByteStr) (cleanSession : Bool) {buf : ByteStr}
    (hshows : c.Shows (Pkt.ofBuf buf))
    (hplain : Lib.Along (fun c op => (c.step op).2) Plain c
      ((PktCalls.encodeConnect header clientId cleanSession).issued step c)) :
    ((PktCalls.encodeConnect header clientId cleanSession).eval step c).1 =
        some (Connect.encodeInto buf header clientId cleanSession).1 ∧
      ((PktCalls.encodeConnect header clientId cleanSession).eval step c).2.mem =
        memory (Connect.encodeInto buf header clientId cleanSession).2 := by
  obtain ⟨n, hn⟩ : ∃ n, n = (2 + mqIsdp.length + 1 + 1 + 2 + (2 + clientId.length)) % 2 ^ 32 := ⟨_, rfl⟩
  have hwrites : As (@Plain len) (PktCalls.encodeConnect header clientId cleanSession) fun p => PktM.length
      (((((((p.writeByte header.encode).writeRemainLength n).writeString mqIsdp).writeByte 3).writeByte
        (UInt8.ofNat (cleanSession.toNat * 2))).writeShort 60).writeString clientId) := by
    unfold PktCalls.encodeConnect
    rw [← hn]
    exact (writeByte_as _).after <| (writeRemainLength_as n).after <| (writeString_as _).after <| (writeByte_as _).after <|
      (writeByte_as _).after <| (writeShort_as _).after <| (writeString_as _).after length_as
  obtain ⟨hres, hnext⟩ := hwrites c _ hshows hplain
  unfold Connect.encodeInto
  rw [← hn]
  exact ⟨hres, hnext.mem⟩

end Encoders
end Cursor
end MqttServer
