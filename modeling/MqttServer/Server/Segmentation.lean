import MqttServer.Server.Framer

/-!
# `Server.Segmentation` — how the cut of a stream into reads shows in the packets

A connection is fed a list of reads. The reference is `consume`, which sees the stream as one list and
never looks past its end: it takes complete packets off the front until the handler refuses one, the length
bytes are malformed, or the rest is too short to decide.

`consume` composes along any cut (`consume_append`), so a run of reads agrees with it whatever the cut,
as long as no call of `remain_length` fails on bytes that were never received (`NoStaleLength`): that is
the only place where the loop looks behind `m_cur_buf_pos`.
-/

namespace MqttServer

open Lib RecvBuffer

variable {σ ε : Type}

/-! ## Slices of memory -/

theorem slice_length (mem : Nat → UInt8) (start len : Nat) : (slice mem start len).length = len := by
  simp [slice]

theorem slice_getD (mem : Nat → UInt8) (start len i : Nat) (hi : i < len) :
    (slice mem start len).getD i 0 = mem (start + i) := by
  simp [slice, List.getD_eq_getElem?_getD, List.getElem?_map, List.getElem?_range hi]

theorem slice_congr {mem mem' : Nat → UInt8} {start start' len : Nat}
    (h : ∀ i < len, mem (start + i) = mem' (start' + i)) : slice mem start len = slice mem' start' len := by
  apply List.map_congr_left
  intro i hi
  exact h i (List.mem_range.mp hi)

theorem slice_take (mem : Nat → UInt8) (start len n : Nat) (hn : n ≤ len) :
    (slice mem start len).take n = slice mem start n := by
  rw [slice, ← List.map_take, List.take_range, Nat.min_eq_left hn, slice]

theorem slice_add (mem : Nat → UInt8) (start n m : Nat) :
    slice mem start (n + m) = slice mem start n ++ slice mem (start + n) m := by
  simp only [slice, List.range_add, List.map_append, List.map_map]
  congr 1
  apply List.map_congr_left
  intro i _
  simp [Nat.add_assoc]

theorem slice_drop (mem : Nat → UInt8) (start len n : Nat) (hn : n ≤ len) :
    (slice mem start len).drop n = slice mem (start + n) (len - n) := by
  obtain ⟨m, rfl⟩ := Nat.exists_eq_add_of_le hn
  rw [slice_add, List.drop_left' (slice_length mem start n), Nat.add_sub_cancel_left]

theorem splice_of_lt {mem : Nat → UInt8} {start i : Nat} {bytes : ByteStr}
    (h : i < start ∨ start + bytes.length ≤ i) : splice mem start bytes i = mem i := by
  rw [splice, if_neg (by omega)]

theorem slice_splice_self (mem : Nat → UInt8) (start : Nat) (bytes : ByteStr) :
    slice (splice mem start bytes) start bytes.length = bytes := by
  apply List.ext_getElem
  · exact slice_length _ _ _
  · intro i h1 h2
    simp only [slice, List.getElem_map, List.getElem_range, splice]
    rw [if_pos (by omega), Nat.add_sub_cancel_left, List.getD_eq_getElem?_getD,
      List.getElem?_eq_getElem h2, Option.getD_some]

/-! ## The reference framer -/

/-- What became of a stream: the handler stopped in a fault, the connection is to be closed, or it stays
    open with an undecided tail. -/
inductive Outcome (σ ε : Type) where
  | fault (f : ε) (s : σ)
  | closed (s : σ)
  | still (tail : ByteStr) (s : σ)

/-- The stream as memory: what was not sent reads as zero, so that a missing length byte is never a
    continuation. -/
def streamMem (l : ByteStr) : Nat → UInt8 := fun i => l.getD i 0

/-- Go on with `k` after a packet was handed to the handler and accepted. -/
def Outcome.after (r : Except (ε × σ) ((Int × ByteStr) × σ)) (k : σ → Outcome σ ε) : Outcome σ ε :=
  match r with
  | .error (f, s) => .fault f s
  | .ok ((res, _), s) => if res < 0 then .closed s else k s

/-- Take complete packets off the front of a stream and hand them to `process`. -/
def consume (process : Handler σ ε) : (fuel : Nat) → ByteStr → σ → Outcome σ ε
  | 0, l, s => .still l s
  | fuel + 1, l, s =>
      match remainLength (streamMem l) l.length with
      | .needMoreData => .still l s
      | .failture => .closed s
      | .length value bytes =>
          .after (process (l.take (value + bytes + 1)) s)
            (consume process fuel (l.drop (value + bytes + 1)))

/-- The whole stream; a packet has at least two bytes, so its length is fuel enough. -/
def consumeAll (process : Handler σ ε) (l : ByteStr) (s : σ) : Outcome σ ε :=
  consume process (l.length + 1) l s

/-- A stream that has not even its length bytes is never malformed. -/
theorem remainLength_streamMem_failture {l : ByteStr}
    (h : remainLength (streamMem l) l.length = .failture) : 5 ≤ l.length := by
  by_contra hlt
  rw [remainLength_eq] at h
  have hz : ∀ i, l.length ≤ i → streamMem l i = 0 := by
    intro i hi
    simp [streamMem, List.getD_eq_getElem?_getD, List.getElem?_eq_none hi]
  have h4 : (streamMem l 4).toNat < 128 := by simp [hz 4 (by omega)]
  rw [if_pos h4] at h
  split_ifs at h

theorem streamMem_append {l m : ByteStr} {i : Nat} (hi : i < l.length) :
    streamMem (l ++ m) i = streamMem l i := by
  simp [streamMem, List.getD_eq_getElem?_getD, List.getElem?_append_left hi]

/-- Enough fuel is enough. -/
theorem consume_fuel (process : Handler σ ε) :
    ∀ (n m : Nat) (l : ByteStr) (s : σ), l.length < n → l.length < m →
      consume process n l s = consume process m l s := by
  intro n
  induction n with
  | zero =>
      intro m l s hn
      omega
  | succ n ih =>
      intro m l s hn hm
      obtain ⟨m, rfl⟩ : ∃ m', m = m' + 1 := ⟨m - 1, by omega⟩
      simp only [consume]
      cases hr : remainLength (streamMem l) l.length with
      | needMoreData => rfl
      | failture => rfl
      | length value bytes =>
          have hb := remainLength_length hr
          have hdrop : (l.drop (value + bytes + 1)).length + 2 ≤ l.length := by
            rw [List.length_drop]
            omega
          have heq : consume process n (l.drop (value + bytes + 1)) =
              consume process m (l.drop (value + bytes + 1)) :=
            funext fun s' => ih m _ s' (by omega) (by omega)
          simp only [heq]

/-- One packet off the front of the whole stream. -/
theorem consumeAll_length (process : Handler σ ε) {l : ByteStr} {value bytes : Nat}
    (h : remainLength (streamMem l) l.length = .length value bytes) (s : σ) :
    consumeAll process l s =
      .after (process (l.take (value + bytes + 1)) s)
        (consumeAll process (l.drop (value + bytes + 1))) := by
  have hb := remainLength_length h
  have hdrop : (l.drop (value + bytes + 1)).length < l.length := by
    rw [List.length_drop]
    omega
  have heq : consume process l.length (l.drop (value + bytes + 1)) =
      consumeAll process (l.drop (value + bytes + 1)) :=
    funext fun s' => consume_fuel process _ _ _ s' hdrop (Nat.lt_succ_self _)
  rw [consumeAll, consume, h]
  simp only [heq]

theorem consumeAll_failture (process : Handler σ ε) {l : ByteStr}
    (h : remainLength (streamMem l) l.length = .failture) (s : σ) :
    consumeAll process l s = .closed s := by
  rw [consumeAll, consume, h]

theorem consumeAll_needMoreData (process : Handler σ ε) {l : ByteStr}
    (h : remainLength (streamMem l) l.length = .needMoreData) (s : σ) :
    consumeAll process l s = .still l s := by
  rw [consumeAll, consume, h]

/-- **The reference composes along any cut**: what is still undecided after a prefix is continued with the
    rest, and nothing after a closed or faulted prefix is looked at. -/
theorem consumeAll_append (process : Handler σ ε) :
    ∀ (n : Nat) (l m : ByteStr) (s : σ), l.length ≤ n →
      consumeAll process (l ++ m) s =
        match consumeAll process l s with
        | .still tail s' => consumeAll process (tail ++ m) s'
        | o => o := by
  intro n
  induction n with
  | zero =>
      intro l m s hl
      obtain rfl : l = [] := List.length_eq_zero_iff.mp (by omega)
      rfl
  | succ n ih =>
      intro l m s hl
      cases hr : remainLength (streamMem l) l.length with
      | needMoreData => rw [consumeAll_needMoreData process hr]
      | failture =>
          have h5 := remainLength_streamMem_failture hr
          rw [consumeAll_failture process hr, consumeAll_failture process
            (remainLength_agree_failture hr h5 (fun i hi => streamMem_append hi))]
      | length value bytes =>
          have hb := remainLength_length hr
          -- once `remain_length` has found a length, more bytes do not change it
          have hr' : remainLength (streamMem (l ++ m)) (l ++ m).length = .length value bytes :=
            remainLength_agree_length hr (fun i hi => streamMem_append hi) (by simp)
          rw [consumeAll_length process hr, consumeAll_length process hr',
            List.take_append_of_le_length hb.2, List.drop_append_of_le_length hb.2]
          have hdrop : (l.drop (value + bytes + 1)).length ≤ n := by
            rw [List.length_drop]
            omega
          cases process (l.take (value + bytes + 1)) s with
          | error e => rfl
          | ok p =>
              obtain ⟨⟨res, pkt⟩, s'⟩ := p
              by_cases hres : res < 0
              · simp only [Outcome.after, hres, if_true]
              · simp only [Outcome.after, hres, if_false]
                exact ih _ m s' hdrop

/-- A tail that is left over is undecided. -/
theorem consumeAll_still (process : Handler σ ε) :
    ∀ (n : Nat) (l tail : ByteStr) (s s' : σ), l.length ≤ n → consumeAll process l s = .still tail s' →
      remainLength (streamMem tail) tail.length = .needMoreData := by
  intro n
  induction n with
  | zero =>
      intro l tail s s' hl h
      obtain rfl : l = [] := List.length_eq_zero_iff.mp (by omega)
      cases h
      rfl
  | succ n ih =>
      intro l tail s s' hl h
      cases hr : remainLength (streamMem l) l.length with
      | needMoreData =>
          rw [consumeAll_needMoreData process hr] at h
          cases h
          exact hr
      | failture =>
          rw [consumeAll_failture process hr] at h
          cases h
      | length value bytes =>
          have hb := remainLength_length hr
          have hdrop : (l.drop (value + bytes + 1)).length ≤ n := by
            rw [List.length_drop]
            omega
          rw [consumeAll_length process hr] at h
          cases hp : process (l.take (value + bytes + 1)) s with
          | error e =>
              rw [hp] at h
              cases h
          | ok p =>
              obtain ⟨⟨res, pkt⟩, s''⟩ := p
              rw [hp] at h
              simp only [Outcome.after] at h
              split at h
              · cases h
              · exact ih _ tail s'' s' hdrop h

/-! ## The framing loop against the reference -/

/-- Every call of `remain_length` the loop makes that answers `FAILTURE` has seen the fixed header and all
    four length bytes among the bytes received. -/
def NoStaleLength (process : Handler σ ε) :
    (fuel : Nat) → (mem : Nat → UInt8) → (len offset : Nat) → σ → Prop
  | 0, _, _, _, _ => True
  | fuel + 1, mem, len, offset, s =>
      offset < len →
        match remainLength (shift mem offset) (len - offset) with
        | .needMoreData => True
        | .failture => 5 ≤ len - offset
        | .length value bytes =>
            ∀ res pkt s', process (slice mem offset (value + bytes + 1)) s = .ok ((res, pkt), s') →
              0 ≤ res →
              NoStaleLength process fuel (splice mem offset (pkt.take (value + bytes + 1))) len
                (offset + (value + bytes + 1)) s'

/-- A result of the loop is the reference's outcome; an open connection keeps exactly the undecided tail. -/
def Realises (o : Outcome σ ε) (len : Nat) (r : Except (ε × σ) (Option RecvBuffer × σ)) : Prop :=
  match o with
  | .fault f s => r = .error (f, s)
  | .closed s => r = .ok (none, s)
  | .still tail s => ∃ b, r = .ok (some b, s) ∧ b.pending = tail ∧ b.curBufPos ≤ len

section Loop

variable (process : Handler σ ε) {fuel len offset value bytes : Nat} {mem : Nat → UInt8} {s : σ}

theorem processLoop_done (h : ¬ offset < len) :
    processLoop (pure ()) process (fuel + 1) mem len offset s =
      .ok (some { mem := mem, curBufPos := 0 }, s) := by
  simp only [processLoop, Exec.bind_apply, Exec.pure_apply, if_neg h]

theorem processLoop_needMoreData (h : offset < len)
    (hr : remainLength (shift mem offset) (len - offset) = .needMoreData) :
    processLoop (pure ()) process (fuel + 1) mem len offset s =
      .ok (some (if offset ≠ 0 then
        { mem := splice mem 0 (slice mem offset (len - offset)), curBufPos := len - offset }
        else { mem := mem, curBufPos := len }), s) := by
  simp only [processLoop, Exec.bind_apply, Exec.pure_apply, if_pos h, hr]
  split <;> rfl

theorem processLoop_failture (h : offset < len)
    (hr : remainLength (shift mem offset) (len - offset) = .failture) :
    processLoop (pure ()) process (fuel + 1) mem len offset s = .ok (none, s) := by
  simp only [processLoop, Exec.bind_apply, Exec.pure_apply, if_pos h, hr]

theorem processLoop_length (h : offset < len)
    (hr : remainLength (shift mem offset) (len - offset) = .length value bytes) :
    processLoop (pure ()) process (fuel + 1) mem len offset s =
      (process (slice mem offset (value + bytes + 1)) >>= fun p =>
        if p.1 < 0 then pure none
        else processLoop (pure ()) process fuel (splice mem offset (p.2.take (value + bytes + 1))) len
          (offset + (value + bytes + 1))) s := by
  simp only [processLoop, Exec.bind_apply, Exec.pure_apply, if_pos h, hr]

end Loop

theorem streamMem_slice {mem : Nat → UInt8} {offset n i : Nat} (hi : i < n) :
    streamMem (slice mem offset n) i = shift mem offset i :=
  slice_getD mem offset n i hi

/-- **The loop computes the reference** on the bytes from `offset` on. -/
theorem processLoop_realises (process : Handler σ ε) :
    ∀ (fuel : Nat) (mem : Nat → UInt8) (len offset : Nat) (s : σ), offset ≤ len →
      len - offset < fuel → NoStaleLength process fuel mem len offset s →
      Realises (consumeAll process (slice mem offset (len - offset)) s) len
        (processLoop (pure ()) process fuel mem len offset s) := by
  intro fuel
  induction fuel with
  | zero =>
      intro mem len offset s _ hf
      omega
  | succ fuel ih =>
      intro mem len offset s ho hf hns
      by_cases hlt : offset < len
      · have hagree : ∀ i < len - offset,
            streamMem (slice mem offset (len - offset)) i = shift mem offset i :=
          fun i hi => streamMem_slice hi
        have hlen := slice_length mem offset (len - offset)
        have hns' := hns hlt
        cases hr : remainLength (shift mem offset) (len - offset) with
        | needMoreData =>
            have hr' : remainLength (streamMem (slice mem offset (len - offset)))
                (slice mem offset (len - offset)).length = .needMoreData := by
              rw [hlen]
              rcases remainLength_agree_needMoreData hr hagree with h | ⟨h, h5⟩
              · exact h
              · have h' : remainLength (streamMem (slice mem offset (len - offset)))
                    (slice mem offset (len - offset)).length = .failture := by
                  rw [hlen]
                  exact h
                have := remainLength_streamMem_failture h'
                omega
            rw [consumeAll_needMoreData process hr', processLoop_needMoreData process hlt hr]
            by_cases h0 : offset = 0
            · subst h0
              exact ⟨_, rfl, rfl, Nat.le_refl _⟩
            · rw [if_pos h0]
              refine ⟨_, rfl, ?_, Nat.sub_le _ _⟩
              have := slice_splice_self mem 0 (slice mem offset (len - offset))
              rwa [slice_length] at this
        | failture =>
            rw [hr] at hns'
            have hr' : remainLength (streamMem (slice mem offset (len - offset)))
                (slice mem offset (len - offset)).length = .failture :=
              remainLength_agree_failture hr hns' hagree
            rw [consumeAll_failture process hr', processLoop_failture process hlt hr]
            rfl
        | length value bytes =>
            rw [hr] at hns'
            have hb := remainLength_length hr
            have hr' : remainLength (streamMem (slice mem offset (len - offset)))
                (slice mem offset (len - offset)).length = .length value bytes :=
              remainLength_agree_length hr hagree (by omega)
            rw [consumeAll_length process hr', slice_take _ _ _ _ hb.2, slice_drop _ _ _ _ hb.2,
              processLoop_length process hlt hr, Exec.bind_apply]
            cases hp : process (slice mem offset (value + bytes + 1)) s with
            | error e => rfl
            | ok p =>
                obtain ⟨⟨res, pkt⟩, s'⟩ := p
                by_cases hres : res < 0
                · simp only [Outcome.after, hres, if_true]
                  rfl
                · simp only [Outcome.after, hres, if_false]
                  have hnext := ih (splice mem offset (pkt.take (value + bytes + 1))) len
                    (offset + (value + bytes + 1)) s' (by omega) (by omega)
                    (hns' res pkt s' hp (by omega))
                  -- the handler rewrote bytes of its own packet only
                  have htail : slice (splice mem offset (pkt.take (value + bytes + 1)))
                      (offset + (value + bytes + 1)) (len - (offset + (value + bytes + 1))) =
                      slice mem (offset + (value + bytes + 1)) (len - offset - (value + bytes + 1)) := by
                    rw [Nat.sub_sub]
                    apply slice_congr
                    intro i _
                    apply splice_of_lt
                    have : (pkt.take (value + bytes + 1)).length ≤ value + bytes + 1 := by simp
                    omega
                  rw [htail] at hnext
                  exact hnext
      · obtain rfl : offset = len := by omega
        rw [Nat.sub_self, processLoop_done process hlt]
        exact ⟨_, rfl, rfl, Nat.zero_le _⟩

/-! ## A connection fed a list of reads -/

/-- `handle_input` for a read that delivered bytes to a live connection. -/
def handleRead (process : Handler σ ε) (b : RecvBuffer) (r : Read) : Exec σ ε (Option RecvBuffer) :=
  processMqtt (pure ()) process (b.receive r)

/-- `handle_input` on the successive reads, until one of them asks to close the connection; returns whether
    it is still open. -/
def feed (process : Handler σ ε) : RecvBuffer → List Read → Exec σ ε Bool
  | _, [] => pure true
  | b, r :: rs => do
      match ← handleRead process b r with
      | none => pure false
      | some b' => feed process b' rs

/-- `P` holds at every read of the run. -/
def Along (P : RecvBuffer → Read → σ → Prop) (process : Handler σ ε) :
    RecvBuffer → List Read → σ → Prop
  | _, [], _ => True
  | b, r :: rs, s =>
      P b r s ∧ ∀ b' s', handleRead process b r s = .ok (some b', s') → Along P process b' rs s'

/-- A read delivers at least one byte and at most `MAX_BUF_SIZE - m_cur_buf_pos`. -/
def FitsFree (b : RecvBuffer) (r : Read) (_ : σ) : Prop :=
  r.data ≠ [] ∧ r.data.length ≤ maxBufSize - b.curBufPos

/-- During this read `remain_length` fails on received bytes only. -/
def ReceivedLength (process : Handler σ ε) (b : RecvBuffer) (r : Read) (s : σ) : Prop :=
  NoStaleLength process ((b.receive r).curBufPos + 1) (b.receive r).mem (b.receive r).curBufPos 0 s

/-- After a read the unframed bytes are the old ones followed by the new ones. -/
theorem receive_pending {b : RecvBuffer} {r : Read} (hb : b.curBufPos ≤ maxBufSize) :
    (b.receive r).pending = b.pending ++ r.data := by
  show slice _ 0 (b.curBufPos + r.data.length) = _
  rw [slice_add]
  congr 1
  · apply slice_congr
    intro i hi
    show splice (overlay b.mem r.behind) b.curBufPos r.data (0 + i) = b.mem (0 + i)
    rw [splice_of_lt (by omega), overlay, if_pos (by omega)]
  · rw [Nat.zero_add]
    exact slice_splice_self _ _ _

/-- The run is the reference's outcome on the whole stream. -/
def FeedRealises (o : Outcome σ ε) (r : Except (ε × σ) (Bool × σ)) : Prop :=
  match o with
  | .fault f s => r = .error (f, s)
  | .closed s => r = .ok (false, s)
  | .still _ s => r = .ok (true, s)

/-- Reads agree with the reference from any buffer whose pending bytes are undecided. -/
theorem feed_realises (process : Handler σ ε) :
    ∀ (rs : List Read) (b : RecvBuffer) (s : σ), b.curBufPos ≤ maxBufSize →
      remainLength (streamMem b.pending) b.pending.length = .needMoreData →
      Along FitsFree process b rs s → Along (ReceivedLength process) process b rs s →
      FeedRealises (consumeAll process (b.pending ++ (rs.map Read.data).flatten) s)
        (feed process b rs s) := by
  intro rs
  induction rs with
  | nil =>
      intro b s _ hpend _ _
      rw [List.map_nil, List.flatten_nil, List.append_nil, consumeAll_needMoreData process hpend]
      rfl
  | cons r rs ih =>
      intro b s hb hpend hfit hrec
      have hcap : (b.receive r).curBufPos ≤ maxBufSize := by
        show b.curBufPos + r.data.length ≤ maxBufSize
        have := hfit.1.2
        omega
      have hloop := processLoop_realises process _ (b.receive r).mem (b.receive r).curBufPos 0 s
        (Nat.zero_le _) (by omega) hrec.1
      rw [Nat.sub_zero] at hloop
      change Realises (consumeAll process (b.receive r).pending s) _ (handleRead process b r s) at hloop
      rw [List.map_cons, List.flatten_cons, ← List.append_assoc, ← receive_pending hb,
        consumeAll_append process _ _ _ s (Nat.le_refl _), feed, Exec.bind_apply]
      cases ho : consumeAll process (b.receive r).pending s with
      | fault f s' =>
          rw [ho] at hloop
          have hr : handleRead process b r s = .error (f, s') := hloop
          rw [hr]
          rfl
      | closed s' =>
          rw [ho] at hloop
          have hr : handleRead process b r s = .ok (none, s') := hloop
          rw [hr]
          rfl
      | still tail s' =>
          rw [ho] at hloop
          obtain ⟨b', hr, rfl, hle⟩ := hloop
          rw [hr]
          exact ih b' s' (Nat.le_trans hle hcap) (consumeAll_still process _ _ _ s s' (Nat.le_refl _) ho)
            (hfit.2 b' s' hr) (hrec.2 b' s' hr)

/-! ## Segmentation independence -/

/-- A handler that also records the packets it was handed. -/
def recorded (process : Handler σ ε) : Handler (σ × List ByteStr) ε := fun pkt s =>
  match process pkt s.1 with
  | .ok (r, s') => .ok (r, (s', s.2 ++ [pkt]))
  | .error (f, s') => .error (f, (s', s.2 ++ [pkt]))

/-- **Segmentation independence.** Two ways of cutting one stream into reads give the same verdict, the same
    packets handed to `process` in the same order, and the same state behind it, whatever the buffer held
    before, provided that in both runs `remain_length` never fails on bytes that were not received. -/
theorem feed_segmentation (process : Handler σ ε) (b : RecvBuffer) (s : σ) (hb : b.curBufPos = 0)
    (rs rs' : List Read) (hstream : (rs.map Read.data).flatten = (rs'.map Read.data).flatten)
    (hfit : Along FitsFree (recorded process) b rs (s, []))
    (hfit' : Along FitsFree (recorded process) b rs' (s, []))
    (hrec : Along (ReceivedLength (recorded process)) (recorded process) b rs (s, []))
    (hrec' : Along (ReceivedLength (recorded process)) (recorded process) b rs' (s, [])) :
    feed (recorded process) b rs (s, []) = feed (recorded process) b rs' (s, []) := by
  have hpend : b.pending = [] := by
    rw [pending, hb]
    rfl
  have hund : remainLength (streamMem b.pending) b.pending.length = .needMoreData := by
    rw [hpend]
    rfl
  have h := feed_realises (recorded process) rs b (s, []) (by omega) hund hfit hrec
  have h' := feed_realises (recorded process) rs' b (s, []) (by omega) hund hfit' hrec'
  rw [hstream] at h
  cases ho : consumeAll (recorded process) (b.pending ++ (rs'.map Read.data).flatten) (s, []) with
  | fault f s' =>
      rw [ho] at h h'
      exact Eq.trans h h'.symm
  | closed s' =>
      rw [ho] at h h'
      exact Eq.trans h h'.symm
  | still tail s' =>
      rw [ho] at h h'
      exact Eq.trans h h'.symm

/-- A handler that answers every packet, as the PINGREQ handler does on a writable connection. -/
def answering : Handler Unit Empty := fun pkt => pure (2, pkt)

/-- A fresh connection whose receive buffer was allocated over bytes all equal to `stale`. -/
def freshBuffer (stale : UInt8) : RecvBuffer := { mem := fun _ => stale, curBufPos := 0 }

/-- A PINGREQ in one read. -/
def pingWhole : List Read := [{ data := [0xC0, 0x00], behind := fun _ => 0 }]

/-- The same PINGREQ cut behind its first byte. -/
def pingCut : List Read :=
  [{ data := [0xC0], behind := fun _ => 0 }, { data := [0x00], behind := fun _ => 0 }]

/-- The first half of the cut PINGREQ is one byte, whatever follows it. -/
theorem handleRead_half :
    handleRead (recorded answering) (freshBuffer 0) { data := [0xC0], behind := fun _ => 0 } ((), []) =
      .ok (some ((freshBuffer 0).receive { data := [0xC0], behind := fun _ => 0 }), ((), [])) := rfl

theorem feed_segmentation_zero :
    feed (recorded answering) (freshBuffer 0) pingWhole ((), []) = .ok (true, ((), [[0xC0, 0x00]])) ∧
    feed (recorded answering) (freshBuffer 0) pingWhole ((), []) =
      feed (recorded answering) (freshBuffer 0) pingCut ((), []) := by
  refine ⟨rfl, feed_segmentation answering (freshBuffer 0) () rfl pingWhole pingCut rfl ?_ ?_ ?_ ?_⟩
  · exact ⟨⟨by decide, by decide⟩, fun _ _ _ => trivial⟩
  · refine ⟨⟨by decide, by decide⟩, fun b' s' h => ?_⟩
    rw [handleRead_half] at h
    cases h
    exact ⟨⟨by decide, by decide⟩, fun _ _ _ => trivial⟩
  · exact ⟨fun _ _ _ _ _ _ hlt => absurd hlt (by decide), fun _ _ _ => trivial⟩
  · refine ⟨fun _ => trivial, fun b' s' h => ?_⟩
    rw [handleRead_half] at h
    cases h
    exact ⟨fun _ _ _ _ _ _ hlt => absurd hlt (by decide), fun _ _ _ => trivial⟩

/-- On a buffer of `0xFF` bytes the cut PINGREQ closes the connection and hands nothing to `process`: with
    one byte received, the four stale bytes behind it read as a malformed length. -/
theorem feed_segmentation_stale :
    (pingWhole.map Read.data).flatten = (pingCut.map Read.data).flatten ∧
    Along FitsFree (recorded answering) (freshBuffer 0xFF) pingWhole ((), []) ∧
    Along FitsFree (recorded answering) (freshBuffer 0xFF) pingCut ((), []) ∧
    feed (recorded answering) (freshBuffer 0xFF) pingWhole ((), []) = .ok (true, ((), [[0xC0, 0x00]])) ∧
    feed (recorded answering) (freshBuffer 0xFF) pingCut ((), []) = .ok (false, ((), [])) := by
  refine ⟨rfl, ⟨⟨by decide, by decide⟩, fun _ _ _ => trivial⟩, ⟨⟨by decide, by decide⟩, ?_⟩, rfl, rfl⟩
  intro b' s' h
  have hclosed : handleRead (recorded answering) (freshBuffer 0xFF)
      { data := [0xC0], behind := fun _ => 0 } ((), []) = .ok (none, ((), [])) := rfl
  rw [hclosed] at h
  cases h

end MqttServer
