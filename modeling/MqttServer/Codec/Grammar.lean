import MqttServer.Codec.Wire

/-!
# `Codec.Grammar` — what the SUBSCRIBE and UNSUBSCRIBE decoders accept

Both decoders read entries until one cannot be read. A read that fails at the end of the packet and one that fails in
the middle of an entry look the same to them, so a packet that ends in the middle of an entry is accepted with
the entries before it. On everything else they are exact: `decoders_exact_iff`.

The loop is treated once, for any kind of entry with a wire format (`Entry`).
-/

namespace MqttServer

/-! ## The remaining length -/

/-- A remaining length as MQTT has it: up to four bytes of seven bits each, the lowest first, and every byte but the last
    with its top bit set. -/
inductive LengthField : ByteStr → Nat → Prop where
  | last {b : UInt8} : b.toNat < 128 → LengthField [b] b.toNat
  | more {b : UInt8} {ds : ByteStr} {n : Nat} : 128 ≤ b.toNat → ds.length < 4 → LengthField ds n →
      LengthField (b :: ds) (b.toNat % 128 + 128 * n)

namespace LengthField

variable {ds ds' r r' : ByteStr} {n n' : Nat}

theorem length_le (h : LengthField ds n) : ds.length ≤ 4 := by
  cases h with
  | last _ => exact Nat.le_of_ble_eq_true rfl
  | more _ hlt _ => exact hlt

theorem length_pos (h : LengthField ds n) : 1 ≤ ds.length := by
  cases h with
  | last _ => exact Nat.le_refl 1
  | more _ _ _ => exact Nat.succ_pos _

/-- Where a length ends is seen from its own bytes. -/
theorem unique (h : LengthField ds n) (h' : LengthField ds' n') (heq : ds ++ r = ds' ++ r') : ds = ds' ∧ n = n' := by
  induction h generalizing ds' n' with
  | last hb =>
      cases h' with
      | last _ =>
          cases heq
          exact ⟨rfl, rfl⟩
      | more hb' _ _ =>
          cases heq
          exact absurd hb (Nat.not_lt.mpr hb')
  | more hb _ _ ih =>
      cases h' with
      | last hb' =>
          cases heq
          exact absurd hb' (Nat.not_lt.mpr hb)
      | more _ _ hds' =>
          obtain ⟨rfl, htail⟩ := List.cons.inj heq
          obtain ⟨rfl, rfl⟩ := ih hds' htail
          exact ⟨rfl, rfl⟩

end LengthField

theorem or_le_add (a b : Nat) : a ||| b ≤ a + b := by
  induction a using Nat.strong_induction_on generalizing b with
  | _ a ih =>
      rcases Nat.eq_zero_or_pos a with rfl | hpos
      · simp
      · have hdiv := ih (a / 2) (by omega) (b / 2)
        rw [← Nat.or_div_two] at hdiv
        have hmod : (a ||| b) % 2 ≤ a % 2 + b % 2 := by
          have hone := Nat.or_mod_two_eq_one (a := a) (b := b)
          omega
        omega

/-- The scan ends with the last byte of the length, and never with more than the length stands for. -/
theorem scanLength_field (mem : Nat → UInt8) {ds : ByteStr} {n : Nat} (h : LengthField ds n) :
    ∀ fuel offset value, ds.length ≤ fuel → (∀ i < ds.length, mem (offset + 1 + i) = ds.getD i 0) →
      ∃ v, scanLength mem fuel offset value = (v, some (offset + ds.length - 1)) ∧
        v ≤ if offset = 0 then n else value + 128 * n := by
  -- every byte is shifted by seven only: the value is bounded by the length that was meant, not equal to it
  have hor : ∀ a value : Nat, a <<< 7 ||| value ≤ value + 128 * a := by
    intro a value
    have hle := or_le_add (a <<< 7) value
    rw [Nat.shiftLeft_eq] at hle ⊢
    omega
  induction h with
  | @last b hb =>
      intro fuel offset value hfuel hmem
      have hone : 1 ≤ fuel := hfuel
      obtain ⟨fuel, rfl⟩ := Nat.exists_eq_add_of_le' hone
      have hbyte : mem (offset + 1) = b := hmem 0 Nat.zero_lt_one
      have hle := hor (b.toNat % 128) value
      refine ⟨if offset = 0 then b.toNat % 128 else (b.toNat % 128) <<< 7 ||| value, ?_, ?_⟩
      · rw [scanLength, hbyte, if_pos hb]
        rfl
      · rw [Nat.mod_eq_of_lt hb] at hle ⊢
        split <;> omega
  | @more b ds n hb _ _ ih =>
      intro fuel offset value hfuel hmem
      have hone : 1 ≤ fuel := Nat.le_trans (Nat.succ_pos _) hfuel
      obtain ⟨fuel, rfl⟩ := Nat.exists_eq_add_of_le' hone
      have hbyte : mem (offset + 1) = b := hmem 0 (Nat.succ_pos _)
      have hle := hor (b.toNat % 128) value
      rw [List.length_cons] at hfuel
      obtain ⟨v, hscan, hv⟩ := ih fuel (offset + 1)
        (if offset = 0 then b.toNat % 128 else (b.toNat % 128) <<< 7 ||| value) (by omega) fun i hi => by
          have hm := hmem (i + 1) (Nat.succ_lt_succ hi)
          rw [List.getD_cons_succ] at hm
          rw [← hm]
          congr 1
          omega
      rw [if_neg (Nat.succ_ne_zero offset)] at hv
      refine ⟨v, ?_, ?_⟩
      · rw [scanLength, hbyte, if_neg (Nat.not_lt.mpr hb), hscan, List.length_cons]
        congr 2
        omega
      · split at hv
        · rw [if_pos ‹_›]
          omega
        · rw [if_neg ‹_›]
          omega

/-- A remaining length is found to end where it ends. -/
theorem remainLength_field {header : UInt8} {ds rest : ByteStr} (h : LengthField ds rest.length) :
    ∃ v, remainLength (fun i => (header :: (ds ++ rest)).getD i 0) (header :: (ds ++ rest)).length =
      .length v ds.length := by
  have hpos := h.length_pos
  have hmem : ∀ i < ds.length, (fun i => (header :: (ds ++ rest)).getD i 0) (0 + 1 + i) = ds.getD i 0 := by
    intro i hi
    show (header :: (ds ++ rest)).getD (0 + 1 + i) 0 = ds.getD i 0
    rw [Nat.zero_add, Nat.add_comm, List.getD_cons_succ, List.getD_append _ _ _ _ hi]
  obtain ⟨v, hscan, hv⟩ := scanLength_field (fun i => (header :: (ds ++ rest)).getD i 0) h
    maxRemainLengthBytes 0 0 h.length_le hmem
  rw [if_pos rfl] at hv
  refine ⟨v, ?_⟩
  unfold remainLength
  rw [hscan]
  simp only [List.length_cons, List.length_append]
  rw [if_neg (by omega)]
  congr 1
  omega

/-- The front of a packet, with what follows its length. -/
theorem decodeHeader_field {header : UInt8} {ds rest : ByteStr} (h : LengthField ds rest.length)
    (htwo : 2 ≤ ds.length + rest.length) : decodeHeader (Pkt.ofBuf (header :: (ds ++ rest))) =
      (some (FixedHeader.decode header), Pkt.behind (header :: ds) rest) := by
  have hofBuf : Pkt.ofBuf (header :: (ds ++ rest)) = Pkt.behind [] (header :: (ds ++ rest)) := rfl
  obtain ⟨v, hv⟩ : ∃ v, remainLength (fun i => (header :: (ds ++ rest)).getD i 0)
      (header :: (ds ++ rest)).length = .length v ds.length := remainLength_field h
  have hread : PktM.readRemainLength (Pkt.behind [header] (ds ++ rest)) =
      (some (v, ds.length), Pkt.behind ([header] ++ ds) rest) := by
    have hl : ¬ (Pkt.behind [header] (ds ++ rest)).leftSize < 2 := by
      rw [PktM.leftSize_behind, List.length_append]
      omega
    have hlen : remainLength (Pkt.behind [header] (ds ++ rest)).byteAt (Pkt.behind [header] (ds ++ rest)).buf.length =
        .length v ds.length := hv
    unfold PktM.readRemainLength
    rw [if_neg hl, hlen]
    simp only
    rw [PktM.advance_behind]
  unfold decodeHeader
  rw [hofBuf, PktM.bind_some (PktM.readByte_behind _), List.nil_append, PktM.bind_some hread]
  rfl

/-- A packet of two bytes is refused at once. -/
theorem decodeHeader_two {header : UInt8} {tail : ByteStr} (h : tail.length < 2) :
    (decodeHeader (Pkt.ofBuf (header :: tail))).1 = none := by
  have hofBuf : Pkt.ofBuf (header :: tail) = Pkt.behind [] (header :: tail) := rfl
  have hread : PktM.readRemainLength (Pkt.behind [header] tail) = (none, Pkt.behind [header] tail) := by
    unfold PktM.readRemainLength
    rw [if_pos (by rw [PktM.leftSize_behind]; omega)]
  unfold decodeHeader
  rw [hofBuf, PktM.bind_some (PktM.readByte_behind _), List.nil_append, PktM.bind_none hread]

/-! ## Entries -/

/-- Two bytes are a short. -/
theorem short_toNat (hi lo : UInt8) : short (hi.toNat * 256 + lo.toNat) = [hi, lo] := by
  have hhi := hi.toNat_lt
  have hlo := lo.toNat_lt
  unfold short
  congr 1
  · apply UInt8.toNat_inj.mp
    rw [UInt8.toNat_ofNat']
    omega
  · congr 1
    apply UInt8.toNat_inj.mp
    rw [UInt8.toNat_ofNat']
    omega

/-- Fewer than two bytes, or a short and what follows it. -/
theorem short_cases (tail : ByteStr) : tail.length < 2 ∨ ∃ n rest, n < 65536 ∧ tail = short n ++ rest := by
  match tail with
  | [] => exact Or.inl (by decide)
  | [_] => exact Or.inl Nat.one_lt_two
  | hi :: lo :: rest =>
      have hhi := hi.toNat_lt
      have hlo := lo.toNat_lt
      refine Or.inr ⟨hi.toNat * 256 + lo.toNat, rest, by omega, ?_⟩
      rw [short_toNat]
      rfl

theorem PktM.readShort_none {w tail : ByteStr} (h : tail.length < 2) :
    readShort (Pkt.behind w tail) = (none, Pkt.behind w tail) := by
  unfold readShort
  rw [if_pos (by rw [leftSize_behind]; omega)]

/-- A kind of entry: its wire format, which values it can carry, and the reads that read one. -/
structure Entry (α : Type) where
  wire : α → ByteStr
  fits : α → Prop
  read : PktM α
  wire_pos : ∀ a, 1 ≤ (wire a).length
  read_wire : ∀ a w rest, fits a → read (Pkt.behind w (wire a ++ rest)) = (some a, Pkt.behind (w ++ wire a) rest)
  read_none : ∀ w tail, (∀ a rest, fits a → tail ≠ wire a ++ rest) → (read (Pkt.behind w tail)).1 = none

namespace Entry

variable {α : Type} (e : Entry α)

/-- Entries until one cannot be read. -/
def readMany : Nat → PktM (List α)
  | 0 => pure []
  | fuel + 1 => fun p =>
      match e.read p with
      | (none, p') => (some [], p')
      | (some a, p') =>
          match readMany fuel p' with
          | (some rest, p'') => (some (a :: rest), p'')
          | (none, p'') => (none, p'')

/-- Nothing at the front that could be an entry. -/
def Stuck (tail : ByteStr) : Prop := ∀ a rest, e.fits a → tail ≠ e.wire a ++ rest

theorem stuck_nil : e.Stuck [] := by
  intro a rest _ heq
  have hlen := congrArg List.length heq
  have hpos := e.wire_pos a
  rw [List.length_append, List.length_nil] at hlen
  omega

/-- Whatever the bytes are, there are entries at the front of them, and behind these something that is stuck. -/
theorem exists_split (tail : ByteStr) : ∃ (as : List α) (left : ByteStr),
    tail = as.flatMap e.wire ++ left ∧ (∀ a ∈ as, e.fits a) ∧ e.Stuck left := by
  -- an entry takes at least a byte, so there is less behind it
  induction hlen : tail.length using Nat.strong_induction_on generalizing tail with
  | _ n ih =>
      by_cases hstuck : e.Stuck tail
      · exact ⟨[], tail, rfl, (fun a ha => by cases ha), hstuck⟩
      · unfold Stuck at hstuck
        push Not at hstuck
        obtain ⟨a, rest, hfits, rfl⟩ := hstuck
        have hpos := e.wire_pos a
        rw [List.length_append] at hlen
        obtain ⟨as, left, rfl, has, hleft⟩ := ih rest.length (by omega) rest rfl
        refine ⟨a :: as, left, by rw [List.flatMap_cons, List.append_assoc], ?_, hleft⟩
        intro b hb
        rcases List.mem_cons.mp hb with rfl | hb
        · exact hfits
        · exact has b hb

/-- **The loop** reads the entries at the front, and stops where it is stuck. -/
theorem readMany_eq {fuel : Nat} {w left : ByteStr} {as : List α} (hfuel : (as.flatMap e.wire ++ left).length < fuel)
    (has : ∀ a ∈ as, e.fits a) (hleft : e.Stuck left) :
    (e.readMany fuel (Pkt.behind w (as.flatMap e.wire ++ left))).1 = some as := by
  induction as generalizing fuel w with
  | nil =>
      obtain ⟨fuel, rfl⟩ := Nat.exists_eq_add_of_le' (Nat.lt_of_le_of_lt (Nat.zero_le _) hfuel)
      have hnone := e.read_none w left hleft
      rw [List.flatMap_nil, List.nil_append]
      unfold readMany
      match hread : e.read (Pkt.behind w left) with
      | (none, p') => rfl
      | (some a, p') =>
          rw [hread] at hnone
          cases hnone
  | cons a as ih =>
      obtain ⟨fuel, rfl⟩ := Nat.exists_eq_add_of_le' (Nat.lt_of_le_of_lt (Nat.zero_le _) hfuel)
      have hpos := e.wire_pos a
      rw [List.flatMap_cons, List.append_assoc, List.length_append] at hfuel
      -- the first entry is read, and the cursor stands behind it
      have hrest : (e.readMany fuel (Pkt.behind (w ++ e.wire a) (as.flatMap e.wire ++ left))).1 = some as :=
        ih (by omega) fun b hb => has b (List.mem_cons_of_mem _ hb)
      rw [List.flatMap_cons, List.append_assoc]
      unfold readMany
      rw [e.read_wire a w _ (has a List.mem_cons_self)]
      simp only
      match hread : e.readMany fuel (Pkt.behind (w ++ e.wire a) (as.flatMap e.wire ++ left)) with
      | (none, p') =>
          rw [hread] at hrest
          cases hrest
      | (some bs, p') =>
          rw [hread] at hrest
          cases hrest
          rfl

/-- There is one way to split. -/
theorem split_unique {as as' : List α} {left left' : ByteStr} (has : ∀ a ∈ as, e.fits a) (hleft : e.Stuck left)
    (has' : ∀ a ∈ as', e.fits a) (hleft' : e.Stuck left')
    (heq : as.flatMap e.wire ++ left = as'.flatMap e.wire ++ left') : left = left' := by
  have hread := e.readMany_eq (w := []) (Nat.lt_succ_self _) has hleft
  rw [heq, e.readMany_eq (Nat.lt_succ_self _) has' hleft'] at hread
  obtain rfl := Option.some.inj hread
  exact List.append_cancel_left heq

end Entry

/-- A read that fails makes all that follows it fail. -/
theorem PktM.bind_fst_none {α β : Type} {x : PktM α} {f : α → PktM β} {p : Pkt} (h : (x p).1 = none) :
    ((x >>= f) p).1 = none := by
  match hx : x p with
  | (none, p') =>
      rw [PktM.bind_none hx]
  | (some a, p') =>
      rw [hx] at h
      cases h

theorem PktM.readString_none {w tail : ByteStr} (h : ∀ s rest : ByteStr, s.length < 65536 → tail ≠ shortString s ++ rest) :
    (readString (Pkt.behind w tail)).1 = none := by
  rcases short_cases tail with hshort | ⟨n, rest, hn, rfl⟩
  · exact bind_fst_none (by rw [readShort_none hshort])
  · have hshort : rest.length < n := by
      by_contra hge
      apply h (rest.take n) (rest.drop n)
      · rw [List.length_take]
        omega
      · unfold shortString
        rw [List.length_take, Nat.min_eq_left (Nat.not_lt.mp hge), Nat.mod_eq_of_lt hn, List.append_assoc,
          List.take_append_drop]
    have hread : readString (Pkt.behind w (short n ++ rest)) = (none, Pkt.behind (w ++ short n) rest) := by
      refine (bind_some (readShort_behind hn)).trans ?_
      rw [if_pos (by rw [leftSize_behind]; omega)]
    rw [hread]

theorem shortString_pos (s : ByteStr) : 0 < (shortString s).length := by
  simp only [shortString, short, List.length_append, List.length_cons]
  omega

theorem Topic.wire_pos (t : Topic) : 0 < t.wire.length := by
  simp only [Topic.wire, List.length_append, List.length_cons]
  omega

/-- A topic of an UNSUBSCRIBE: a string. -/
def nameEntry : Entry ByteStr where
  wire := shortString
  fits s := s.length < 65536
  read := PktM.readString
  wire_pos := shortString_pos
  read_wire _ _ _ hs := PktM.readString_behind hs
  read_none _ _ h := PktM.readString_none h

/-- A topic of a SUBSCRIBE: a string and a byte. -/
def topicEntry : Entry Topic where
  wire := Topic.wire
  fits t := t.topicName.length < 65536
  read := do
    let topicName ← PktM.readString
    let qos ← PktM.readByte
    pure { topicName, qos }
  wire_pos := Topic.wire_pos
  read_wire t w rest ht := by
    unfold Topic.wire
    rw [List.append_assoc]
    refine (PktM.bind_some (PktM.readString_behind ht)).trans ?_
    refine (PktM.bind_some (PktM.readByte_behind _)).trans ?_
    rw [List.append_assoc]
    rfl
  read_none w tail h := by
    by_cases hstuck : ∀ s rest : ByteStr, s.length < 65536 → tail ≠ shortString s ++ rest
    · exact PktM.bind_fst_none (PktM.readString_none hstuck)
    · push Not at hstuck
      obtain ⟨s, rest, hs, rfl⟩ := hstuck
      rw [PktM.bind_some (PktM.readString_behind hs)]
      cases rest with
      | nil =>
          apply PktM.bind_fst_none
          unfold PktM.readByte
          rw [if_pos (by rw [PktM.leftSize_behind]; decide)]
      | cons q rest =>
          refine absurd ?_ (h { topicName := s, qos := q } rest hs)
          unfold Topic.wire
          rw [List.append_assoc]
          rfl

/-! ## The decoders -/

theorem readTopics_eq (fuel : Nat) (p : Pkt) : readTopics fuel p = topicEntry.readMany fuel p := by
  induction fuel generalizing p with
  | zero => rfl
  | succ fuel ih =>
      unfold readTopics Entry.readMany
      rcases hs : PktM.readString p with ⟨_ | s, p'⟩
      · have hread : topicEntry.read p = (none, p') := PktM.bind_none hs
        rw [hread]
      · have hread : topicEntry.read p = (PktM.readByte >>= fun qos => pure { topicName := s, qos } : PktM Topic) p' :=
          PktM.bind_some hs
        rw [hread]
        rcases hq : PktM.readByte p' with ⟨_ | q, p''⟩
        · rw [PktM.bind_none hq]
          simp only [hq]
        · have hone : topicEntry.read p = (some { topicName := s, qos := q }, p'') :=
            hread.trans (PktM.bind_some hq)
          rw [← hread, hone]
          simp only [hq, ih]
          rcases topicEntry.readMany fuel p'' with ⟨_ | rest, p₃⟩ <;> rfl

theorem readNames_eq (fuel : Nat) (p : Pkt) : readNames fuel p = nameEntry.readMany fuel p := by
  induction fuel generalizing p with
  | zero => rfl
  | succ fuel ih =>
      unfold readNames Entry.readMany
      rcases hs : PktM.readString p with ⟨_ | s, p'⟩
      · have hread : nameEntry.read p = (none, p') := hs
        rw [hread]
      · have hread : nameEntry.read p = (some s, p') := hs
        rw [hread]
        simp only [ih]
        rcases nameEntry.readMany fuel p' with ⟨_ | rest, p''⟩ <;> rfl

/-- **The grammar.** A fixed header of the type, a remaining length, a `msg_id` and entries that use up every byte. -/
def Grammar {α : Type} (e : Entry α) (type : MqttType) (bytes : ByteStr) (msgId : Nat) (as : List α) : Prop :=
  ∃ header ds rest, bytes = header :: (ds ++ rest) ∧ LengthField ds rest.length ∧
    (FixedHeader.decode header).msgType = type ∧ msgId < 65536 ∧ (∀ a ∈ as, e.fits a) ∧
    rest = short msgId ++ as.flatMap e.wire

/-- A decoder accepts exactly the grammar, and gives what the packet says. -/
def Exact {α : Type} (e : Entry α) (type : MqttType) (decode : ByteStr → Option (Nat × List α)) (bytes : ByteStr) : Prop :=
  ∀ msgId as, decode bytes = some (msgId, as) ↔ Grammar e type bytes msgId as

/-- Something is left behind the last complete entry. -/
def Dangling {α : Type} (e : Entry α) (rest : ByteStr) : Prop :=
  ∃ (msgId : Nat) (as : List α) (left : ByteStr), rest = short msgId ++ (as.flatMap e.wire ++ left) ∧ msgId < 65536 ∧
    (∀ a ∈ as, e.fits a) ∧ e.Stuck left ∧ left ≠ []

section Decoders

variable {α : Type} {e : Entry α} {type : MqttType} {decode : ByteStr → Option (Nat × List α)}

/-- What the two decoders have in common: the header, the type and the `msg_id` are checked, and the loop gives the
    entries. -/
structure Loops (e : Entry α) (type : MqttType) (decode : ByteStr → Option (Nat × List α)) : Prop where
  typed : ∀ header ds rest, LengthField ds rest.length → (FixedHeader.decode header).msgType ≠ type →
    decode (header :: (ds ++ rest)) = none
  stub : ∀ header ds rest, LengthField ds rest.length → rest.length < 2 → decode (header :: (ds ++ rest)) = none
  loop : ∀ header ds tail msgId, LengthField ds (short msgId ++ tail).length →
    (FixedHeader.decode header).msgType = type → msgId < 65536 →
    ∃ fuel w, tail.length < fuel ∧ decode (header :: (ds ++ (short msgId ++ tail))) =
      ((e.readMany fuel (Pkt.behind w tail)).1).map fun as => (msgId, as)

/-- A packet of the grammar has nothing left. -/
theorem not_dangling {msgId : Nat} {as : List α} (has : ∀ a ∈ as, e.fits a) :
    ¬ Dangling e (short msgId ++ as.flatMap e.wire) := by
  rintro ⟨msgId', as', left, heq, -, has', hleft, hne⟩
  obtain ⟨-, htail⟩ := List.append_inj heq rfl
  rw [← List.append_nil (as.flatMap e.wire)] at htail
  exact hne (e.split_unique has' hleft has e.stuck_nil htail.symm)

/-- How a packet of declared length is divided. -/
theorem grammar_iff {header : UInt8} {ds rest : ByteStr} (hlen : LengthField ds rest.length) {msgId : Nat} {as : List α} :
    Grammar e type (header :: (ds ++ rest)) msgId as ↔ (FixedHeader.decode header).msgType = type ∧ msgId < 65536 ∧
      (∀ a ∈ as, e.fits a) ∧ rest = short msgId ++ as.flatMap e.wire := by
  constructor
  · rintro ⟨header', ds', rest', heq, hlen', htype, hid, has, hrest⟩
    obtain ⟨rfl, htail⟩ := List.cons.inj heq
    obtain ⟨rfl, -⟩ := hlen.unique hlen' htail
    obtain rfl := List.append_cancel_left htail
    exact ⟨htype, hid, has, hrest⟩
  · rintro ⟨htype, hid, has, hrest⟩
    exact ⟨header, ds, rest, rfl, hlen, htype, hid, has, hrest⟩

/-- The decoder on a packet with a `msg_id`. -/
theorem Loops.decode_eq (h : Loops e type decode) {header : UInt8} {ds left : ByteStr} {msgId : Nat} {as : List α}
    (hlen : LengthField ds (short msgId ++ (as.flatMap e.wire ++ left)).length)
    (htype : (FixedHeader.decode header).msgType = type) (hid : msgId < 65536) (has : ∀ a ∈ as, e.fits a)
    (hleft : e.Stuck left) :
    decode (header :: (ds ++ (short msgId ++ (as.flatMap e.wire ++ left)))) = some (msgId, as) := by
  obtain ⟨fuel, w, hfuel, hdec⟩ := h.loop header ds _ msgId hlen htype hid
  rw [hdec, e.readMany_eq hfuel has hleft]
  rfl

/-- **When a decoder is exact** on a packet of declared length. -/
theorem Loops.exact_iff (h : Loops e type decode) {header : UInt8} {ds rest : ByteStr} (hlen : LengthField ds rest.length) :
    Exact e type decode (header :: (ds ++ rest)) ↔ ((FixedHeader.decode header).msgType = type → ¬ Dangling e rest) := by
  constructor
  · rintro hexact htype ⟨msgId, as, left, rfl, hid, has, hleft, hne⟩
    have hgrammar := (hexact msgId as).mp (h.decode_eq hlen htype hid has hleft)
    obtain ⟨-, -, -, heq⟩ := (grammar_iff hlen).mp hgrammar
    -- the grammar has nothing behind the last entry
    have hcancel := List.append_cancel_left heq
    exact hne (List.append_right_eq_self.mp hcancel)
  · intro hcond msgId as
    rw [grammar_iff hlen]
    by_cases htype : (FixedHeader.decode header).msgType = type
    · rcases short_cases rest with hshort | ⟨n, tail, hn, rfl⟩
      · rw [h.stub header ds rest hlen hshort]
        refine ⟨(fun hnone => by cases hnone), ?_⟩
        rintro ⟨-, -, -, hrest⟩
        rw [hrest, List.length_append] at hshort
        simp only [short, List.length_cons, List.length_nil] at hshort
        omega
      · obtain ⟨as₀, left, rfl, has₀, hleft⟩ := e.exists_split tail
        have hnil : left = [] := by
          by_contra hne
          exact hcond htype ⟨n, as₀, left, rfl, hn, has₀, hleft, hne⟩
        constructor
        · intro hdec
          rw [h.decode_eq hlen htype hn has₀ hleft] at hdec
          cases hdec
          refine ⟨htype, hn, has₀, ?_⟩
          rw [hnil, List.append_nil]
        · rintro ⟨-, hid, has, hrest⟩
          have hstuck : e.Stuck [] := e.stuck_nil
          rw [hrest, ← List.append_nil (as.flatMap e.wire)] at hlen ⊢
          exact h.decode_eq hlen htype hid has hstuck
    · rw [h.typed header ds rest hlen htype]
      exact ⟨(fun hnone => by cases hnone), fun hg => absurd hg.1 htype⟩

end Decoders

/-- What both decoders do. -/
def decodeEntries {α β : Type} (type : MqttType) (read : PktM (List α)) (make : FixedHeader → Nat → List α → β) : PktM β := do
  let header ← decodeHeader
  if header.msgType ≠ type then PktM.failture
  else do
    let msgId ← PktM.readShort
    let as ← read
    pure (make header msgId as)

theorem decodeEntries_loops {α β : Type} {e : Entry α} {type : MqttType} {read : PktM (List α)}
    {make : FixedHeader → Nat → List α → β} {get : β → Nat × List α} (hread : ∀ p, read p = e.readMany p.buf.length p)
    (hget : ∀ h msgId as, get (make h msgId as) = (msgId, as)) :
    Loops e type fun bytes => ((decodeEntries type read make).decode bytes).map get := by
  -- a stub and a packet of another type are refused in front of the loop
  have hfront : ∀ header (ds rest : ByteStr), LengthField ds rest.length → rest.length < 2 ∨
      (FixedHeader.decode header).msgType ≠ type →
        (decodeEntries type read make).decode (header :: (ds ++ rest)) = none := by
    intro header ds rest hlen hor
    unfold PktM.decode decodeEntries
    by_cases htwo : 2 ≤ ds.length + rest.length
    · rw [PktM.bind_some (decodeHeader_field hlen htwo)]
      split
      · rfl
      · rename_i htype
        have hshort := hor.resolve_right htype
        rw [PktM.bind_none (PktM.readShort_none hshort)]
    · apply PktM.bind_fst_none
      apply decodeHeader_two
      rw [List.length_append]
      omega
  constructor
  case typed =>
      intro header ds rest hlen htype
      rw [hfront header ds rest hlen (Or.inr htype)]
      rfl
  case stub =>
      intro header ds rest hlen hshort
      rw [hfront header ds rest hlen (Or.inl hshort)]
      rfl
  case loop =>
      intro header ds tail msgId hlen htype hid
      have hpos := hlen.length_pos
      have hrest : (short msgId ++ tail).length = tail.length + 2 := by
        rw [List.length_append, Nat.add_comm]
        rfl
      refine ⟨(Pkt.behind (header :: ds ++ short msgId) tail).buf.length, header :: ds ++ short msgId, ?_, ?_⟩
      · simp only [Pkt.behind, List.length_append, List.length_cons]
        omega
      · unfold PktM.decode decodeEntries
        rw [PktM.bind_some (decodeHeader_field hlen (by omega)), if_neg (not_not.mpr htype),
          PktM.bind_some (PktM.readShort_behind hid)]
        rcases hmany : e.readMany (Pkt.behind (header :: ds ++ short msgId) tail).buf.length
            (Pkt.behind (header :: ds ++ short msgId) tail) with ⟨_ | as, p'⟩
        · rw [PktM.bind_none ((hread _).trans hmany)]
          rfl
        · rw [PktM.bind_some ((hread _).trans hmany)]
          show some (get (make _ msgId as)) = some (msgId, as)
          rw [hget]

/-- `CMqttSubscribe::decode`. -/
theorem subscribe_loops : Loops topicEntry .subscribe fun bytes =>
    (Subscribe.decode.decode bytes).map fun m => (m.msgId, m.subTopics) := by
  have hfull : ∀ bytes, (Subscribe.decode.decode bytes).map (fun m => (m.msgId, m.subTopics)) =
      (Subscribe.decodeFull.decode bytes).map fun m => (m.2.msgId, m.2.subTopics) := by
    intro bytes
    unfold PktM.decode Subscribe.decode
    match hdec : Subscribe.decodeFull (Pkt.ofBuf bytes) with
    | (none, p) =>
        rw [PktM.bind_none hdec]
        rfl
    | (some (h, m), p) =>
        rw [PktM.bind_some hdec]
        rfl
  have hloops : Loops topicEntry .subscribe fun bytes =>
      (Subscribe.decodeFull.decode bytes).map fun m => (m.2.msgId, m.2.subTopics) :=
    decodeEntries_loops (fun _ => readTopics_eq _ _) fun _ _ _ => rfl
  exact (funext hfull) ▸ hloops

/-- `CMqttUnsubscribe::decode`. -/
theorem unsubscribe_loops : Loops nameEntry .unsubscribe fun bytes =>
    (Unsubscribe.decode.decode bytes).map fun m => (m.msgId, m.topicsName) :=
  decodeEntries_loops (fun _ => readNames_eq _ _) fun _ _ _ => rfl

/-- **When the decoders accept exactly their grammar**: on every packet of declared length of which nothing is left behind
    the last complete entry, and on every packet they refuse for its type or for want of a `msg_id`. -/
theorem decoders_exact_iff {header : UInt8} {ds rest : ByteStr} (hlen : LengthField ds rest.length) :
    (Exact topicEntry .subscribe (fun bytes => (Subscribe.decode.decode bytes).map fun m => (m.msgId, m.subTopics))
        (header :: (ds ++ rest)) ↔
      ((FixedHeader.decode header).msgType = .subscribe → ¬ Dangling topicEntry rest)) ∧
    (Exact nameEntry .unsubscribe (fun bytes => (Unsubscribe.decode.decode bytes).map fun m => (m.msgId, m.topicsName))
        (header :: (ds ++ rest)) ↔
      ((FixedHeader.decode header).msgType = .unsubscribe → ¬ Dangling nameEntry rest)) :=
  ⟨subscribe_loops.exact_iff hlen, unsubscribe_loops.exact_iff hlen⟩

/-- A SUBSCRIBE and an UNSUBSCRIBE of the topic `a`, read exactly. -/
theorem decoders_exact_one :
    Exact topicEntry .subscribe (fun bytes => (Subscribe.decode.decode bytes).map fun m => (m.msgId, m.subTopics))
      (0x82 :: ([6] ++ [0, 1, 0, 1, 97, 1])) ∧
    Exact nameEntry .unsubscribe (fun bytes => (Unsubscribe.decode.decode bytes).map fun m => (m.msgId, m.topicsName))
      (0xA2 :: ([5] ++ [0, 1, 0, 1, 97])) := by
  have h6 : LengthField [6] (List.length [0, 1, 0, 1, (97 : UInt8), 1]) := LengthField.last (by decide)
  have h5 : LengthField [5] (List.length [0, 1, 0, 1, (97 : UInt8)]) := LengthField.last (by decide)
  have hsub : ¬ Dangling topicEntry (short 1 ++ [{ topicName := [97], qos := 1 }].flatMap topicEntry.wire) :=
    not_dangling (by simp [topicEntry])
  have hunsub : ¬ Dangling nameEntry (short 1 ++ [[97]].flatMap nameEntry.wire) := not_dangling (by simp [nameEntry])
  exact ⟨(decoders_exact_iff h6).1.mpr fun _ => hsub, (decoders_exact_iff h5).2.mpr fun _ => hunsub⟩

/-- A SUBSCRIBE and an UNSUBSCRIBE that end with half a topic are accepted without it. -/
theorem decoders_not_exact :
    LengthField [3] (List.length [0, (1 : UInt8), 5]) ∧
    Subscribe.decode.decode [0x82, 3, 0, 1, 5] = some { msgId := 1, subTopics := [] } ∧
    Unsubscribe.decode.decode [0xA2, 3, 0, 1, 5] = some { msgId := 1, topicsName := [] } ∧
    ¬ Exact topicEntry .subscribe (fun bytes => (Subscribe.decode.decode bytes).map fun m => (m.msgId, m.subTopics))
      (0x82 :: ([3] ++ [0, 1, 5])) ∧
    ¬ Exact nameEntry .unsubscribe (fun bytes => (Unsubscribe.decode.decode bytes).map fun m => (m.msgId, m.topicsName))
      (0xA2 :: ([3] ++ [0, 1, 5])) := by
  have h3 : LengthField [3] (List.length [0, (1 : UInt8), 5]) := LengthField.last (by decide)
  have hsub : Subscribe.decode.decode [0x82, 3, 0, 1, 5] = some { msgId := 1, subTopics := [] } := by decide +kernel
  have hunsub : Unsubscribe.decode.decode [0xA2, 3, 0, 1, 5] = some { msgId := 1, topicsName := [] } := by decide +kernel
  refine ⟨h3, hsub, hunsub, fun hexact => ?_, fun hexact => ?_⟩
  · have hg := (hexact 1 []).mp (congrArg (Option.map fun m => (m.msgId, m.subTopics)) hsub)
    obtain ⟨-, -, -, hrest⟩ := (grammar_iff h3).mp hg
    exact absurd hrest (by decide)
  · have hg := (hexact 1 []).mp (congrArg (Option.map fun m => (m.msgId, m.topicsName)) hunsub)
    obtain ⟨-, -, -, hrest⟩ := (grammar_iff h3).mp hg
    exact absurd hrest (by decide)

end MqttServer
