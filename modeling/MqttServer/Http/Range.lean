import MqttServer.Http.Lines
import MqttServer.Http.Send

/-!
# `Http.Range` — indices of the HTTP input path

Both `handle_input` store a terminator at `m_cur_buf_pos`, which a read may have moved to the end of the receive buffer, and
`parse_headers` takes name and value of a body parameter from a split whose size it does not look at. A connection stays in
range exactly as long as no read fills its buffer and every parameter it parses in a body has a name and a value
(`input_in_range_iff`).
-/

namespace MqttServer

open StrTools

/-! ## Reads -/

/-- What a `::read` gave: `EAGAIN` or `EINTR`, another error, or bytes (none at the end of the stream). -/
inductive Received (ρ : Type) where
  | again
  | failed
  | bytes (r : ρ)

section Loop

variable {σ ρ ε : Type} (step : σ → ρ → Except ε (Int × σ))

/-- The calls of `handle_input`, up to the first that makes the reactor close the connection. -/
def inputs (c : σ) : List ρ → Except ε σ
  | [] => .ok c
  | r :: rs =>
      match step c r with
      | .error e => .error e
      | .ok (res, c) => if res < 0 then .ok c else inputs c rs

/-- `P` holds of the state and the read at each of these calls. -/
def AtEach (P : σ → ρ → Prop) (c : σ) : List ρ → Prop
  | [] => True
  | r :: rs => P c r ∧ ∀ res c', step c r = .ok (res, c') → 0 ≤ res → AtEach P c' rs

variable {step} {P : σ → ρ → Prop}

/-- **A run is free of faults** when each of its calls is. -/
theorem inputs_ok_iff (hstep : ∀ c r, (∃ x, step c r = .ok x) ↔ P c r) (rs : List ρ) :
    ∀ c, (∃ c', inputs step c rs = .ok c') ↔ AtEach step P c rs := by
  induction rs with
  | nil => exact fun c => ⟨fun _ => trivial, fun _ => ⟨c, rfl⟩⟩
  | cons r rs ih =>
      intro c
      rw [inputs, AtEach, ← hstep c r]
      cases hr : step c r with
      | error e =>
          refine ⟨?_, ?_⟩
          · rintro ⟨_, h⟩
            cases h
          · rintro ⟨⟨_, h⟩, _⟩
            cases h
      | ok x =>
          obtain ⟨res, c'⟩ := x
          simp only
          by_cases hres : res < 0
          · -- the reactor closes the connection, and no read follows
            rw [if_pos hres]
            refine ⟨fun _ => ⟨⟨_, rfl⟩, fun res' c'' h hle => ?_⟩, fun _ => ⟨c', rfl⟩⟩
            cases h
            omega
          · rw [if_neg hres, ih c']
            refine ⟨fun h => ⟨⟨_, rfl⟩, fun res' c'' he _ => ?_⟩, fun h => h.2 res c' rfl (by omega)⟩
            cases he
            exact h

end Loop

/-! ## `parse_headers` -/

/-- Every parameter of a line of a body has a name and a value. -/
def Pairs (line : ByteStr) : Prop := ∀ part ∈ split line (text "&") 3, 2 ≤ (split part (text "=") 2).length

/-- Every line is a header or has such parameters only. -/
def HeadersOrPairs (lines : List ByteStr) : Prop :=
  ∀ line ∈ lines, (split line (text ": ") 2).length = 2 ∨ Pairs line

/-- Behind the request line of a POST stand headers and parameters only. -/
def PostOfPairs (s : ByteStr) : Prop :=
  ∀ line lines path version, linesOf s = line :: lines → split line (text " ") 3 = [text "POST", path, version] →
    HeadersOrPairs lines

theorem postParams_ok_iff (parts : List ByteStr) : ∀ query : AList fun _ : ByteStr => ByteStr,
    (∃ query', postParams query parts = .ok query') ↔ ∀ part ∈ parts, 2 ≤ (split part (text "=") 2).length := by
  induction parts with
  | nil => exact fun query => ⟨(fun _ _ h => by cases h), fun _ => ⟨query, rfl⟩⟩
  | cons part parts ih =>
      intro query
      rw [postParams, List.forall_mem_cons]
      rcases split part (text "=") 2 with _ | ⟨name, _ | ⟨value, more⟩⟩
      · exact ⟨(by rintro ⟨_, h⟩; cases h), fun h => absurd h.1 (by decide)⟩
      · exact ⟨(by rintro ⟨_, h⟩; cases h), fun h => absurd h.1 (by simp)⟩
      · rw [ih (query.insert name value)]
        exact ⟨fun h => ⟨by simp, h⟩, fun h => h.2⟩

/-- A line behind the request line, and the method it leaves alone. -/
theorem headerLine_ok_iff (req : HTTPRequest) (line : ByteStr) :
    ((∃ req', headerLine req line = .ok req') ↔
      (req.method = text "POST" → (split line (text ": ") 2).length = 2 ∨ Pairs line)) ∧
    ∀ req', headerLine req line = .ok req' → req'.method = req.method := by
  unfold headerLine
  by_cases hheader : (split line (text ": ") 2).length = 2
  · rw [if_pos hheader]
    refine ⟨⟨fun _ _ => Or.inl hheader, fun _ => ⟨req, rfl⟩⟩, fun req' h => ?_⟩
    cases h
    rfl
  · rw [if_neg hheader]
    by_cases hpost : req.method = text "POST"
    · rw [if_pos hpost]
      have hparams := postParams_ok_iff (split line (text "&") 3) req.query
      cases hrun : postParams req.query (split line (text "&") 3) with
      | error e =>
          rw [hrun] at hparams
          refine ⟨⟨(by rintro ⟨_, h⟩; cases h), fun h => ?_⟩, (fun _ h => by cases h)⟩
          obtain ⟨_, he⟩ := hparams.mpr ((h hpost).resolve_left hheader)
          cases he
      | ok query =>
          rw [hrun] at hparams
          refine ⟨⟨fun _ _ => Or.inr (hparams.mp ⟨query, rfl⟩), fun _ => ⟨_, rfl⟩⟩, fun req' h => ?_⟩
          cases h
          rfl
    · rw [if_neg hpost]
      refine ⟨⟨fun _ h => absurd h hpost, fun _ => ⟨req, rfl⟩⟩, fun req' h => ?_⟩
      cases h
      rfl

/-- The lines behind the request line. -/
theorem headerLines_ok_iff (lines : List ByteStr) : ∀ req : HTTPRequest,
    (∃ req', lines.foldlM headerLine req = .ok req') ↔ (req.method = text "POST" → HeadersOrPairs lines) := by
  induction lines with
  | nil => exact fun req => ⟨(fun _ _ _ h => by cases h), fun _ => ⟨req, rfl⟩⟩
  | cons line lines ih =>
      intro req
      obtain ⟨hline, hmethod⟩ := headerLine_ok_iff req line
      have hcons : HeadersOrPairs (line :: lines) ↔
          ((split line (text ": ") 2).length = 2 ∨ Pairs line) ∧ HeadersOrPairs lines := List.forall_mem_cons
      rw [List.foldlM_cons, hcons, imp_and, ← hline]
      cases hrun : headerLine req line with
      | error e => exact ⟨(by rintro ⟨_, h⟩; cases h), (fun ⟨⟨_, h⟩, _⟩ => by cases h)⟩
      | ok req' =>
          have hrest := ih req'
          rw [hmethod req' hrun] at hrest
          exact ⟨fun h => ⟨⟨req', rfl⟩, hrest.mp h⟩, fun h => hrest.mpr h.2⟩

namespace StrTools

/-- What `split` cuts off is free of separators; only the rest behind the last cut may hold some. -/
theorem splitLoop_cut (separator : ByteStr) (max : Int) (n : Nat) : ∀ (i : Int) (str : ByteStr),
    Pieces separator (splitLoop separator max n i str).1 := by
  induction n with
  | zero => exact (fun _ _ _ h => by cases h)
  | succ n ih =>
      intro i str
      rw [splitLoop]
      by_cases hany : str.any (· ∈ separator)
      · rw [if_pos hany]
        simp only
        have hpiece : Pieces separator (if str.findIdx (· ∈ separator) > 0 then
            [str.take (str.findIdx (· ∈ separator))] else []) := by
          intro p hp
          split at hp
          case isTrue hpos =>
            rw [List.mem_singleton.mp hp]
            have hlen : str.findIdx (· ∈ separator) ≤ str.length := List.findIdx_le_length
            refine ⟨fun h => ?_, fun x hx => ?_⟩
            · have := congrArg List.length h
              rw [List.length_take, List.length_nil] at this
              omega
            · obtain ⟨k, hk, rfl⟩ := List.mem_iff_getElem.mp hx
              rw [List.length_take] at hk
              rw [List.getElem_take]
              simpa using List.not_of_lt_findIdx (show k < str.findIdx (· ∈ separator) by omega)
          case isFalse => cases hp
        split
        · exact hpiece
        · intro p hp
          rcases List.mem_append.mp hp with hp | hp
          · exact hpiece p hp
          · exact ih _ _ p hp
      · rw [if_neg hany]
        exact (fun _ h => by cases h)

/-- All pieces but the last are cut off. -/
theorem split_dropLast (str separator : ByteStr) (max : Int) : Pieces separator (split str separator max).dropLast := by
  have hcut := splitLoop_cut separator max str.length 0 str
  unfold split
  simp only
  split
  · rw [List.dropLast_concat]
    exact hcut
  · exact fun p hp => hcut p (List.mem_of_mem_dropLast hp)

end StrTools

/-- The path of a request line is not blank, so `remove_space` finds its ends. -/
theorem requestLine_ok (req : HTTPRequest) (line : ByteStr) :
    (requestLine req line = .ok none ∧ ∀ method path version, split line (text " ") 3 ≠ [method, path, version]) ∨
    ∃ req' path version, requestLine req line = .ok (some req') ∧ split line (text " ") 3 = [req'.method, path, version] := by
  unfold requestLine
  match hsplit : split line (text " ") 3 with
  | [method, path, version] =>
      right
      simp only
      have hcut := split_dropLast line (text " ") 3
      rw [hsplit] at hcut
      obtain ⟨hne, hfree⟩ := hcut path (by simp)
      by_cases hquery : 0x3F ∈ path
      · rw [if_pos hquery]
        exact ⟨_, _, _, rfl, rfl⟩
      · rw [if_neg hquery]
        by_cases hpost : method = text "POST"
        · -- the path was cut off, so there is no blank in it
          have hblank : ∀ c ∈ path, c ≠ 0x20 := by
            rintro c hc rfl
            exact hfree _ hc (by decide)
          rw [if_pos hpost, removeSpace_free hne hblank]
          exact ⟨_, _, _, rfl, rfl⟩
        · rw [if_neg hpost]
          exact ⟨_, _, _, rfl, rfl⟩
  | [] => exact Or.inl ⟨rfl, (fun _ _ _ h => by cases h)⟩
  | [_] => exact Or.inl ⟨rfl, (fun _ _ _ h => by cases h)⟩
  | [_, _] => exact Or.inl ⟨rfl, (fun _ _ _ h => by cases h)⟩
  | _ :: _ :: _ :: _ :: _ => exact Or.inl ⟨rfl, (fun _ _ _ h => by cases h)⟩

/-- **`parse_headers` stays in range** exactly on a request without a body line that lacks a name or a value. -/
theorem parseHeaders_ok_iff (s : ByteStr) : (∃ p, parseHeaders s = .ok p) ↔ PostOfPairs s := by
  have hlines := parseHeaders_lines s
  have hmap : (∃ p, parseHeaders s = .ok p) ↔ ∃ x, parseLines 0 {} (linesOf s) = .ok x := by
    rw [← hlines]
    cases parseHeaders s with
    | error e => exact ⟨(by rintro ⟨_, h⟩; cases h), (by rintro ⟨_, h⟩; cases h)⟩
    | ok p => exact ⟨fun _ => ⟨_, rfl⟩, fun _ => ⟨p, rfl⟩⟩
  rw [hmap]
  unfold PostOfPairs
  cases linesOf s with
  | nil => exact ⟨(fun _ _ _ _ _ h => by cases h), fun _ => ⟨_, rfl⟩⟩
  | cons line lines =>
      rw [parseLines]
      rcases requestLine_ok {} line with ⟨hrun, hnot⟩ | ⟨req, path, version, hrun, hsplit⟩
      · -- a first line without three words ends the parse before it comes to a body
        rw [hrun]
        refine ⟨fun _ line' lines' path version h hsplit => ?_, fun _ => ⟨_, rfl⟩⟩
        cases h
        exact absurd hsplit (hnot _ _ _)
      · rw [hrun]
        have hrest : (∃ x, parseRest 0 req lines = .ok x) ↔ ∃ req', lines.foldlM headerLine req = .ok req' := by
          unfold parseRest
          cases lines.foldlM headerLine req with
          | error e => exact ⟨(by rintro ⟨_, h⟩; cases h), (by rintro ⟨_, h⟩; cases h)⟩
          | ok req' => exact ⟨fun _ => ⟨req', rfl⟩, fun _ => ⟨_, rfl⟩⟩
        simp only
        rw [hrest, headerLines_ok_iff lines req]
        refine ⟨fun h line' lines' path' version' he hsplit' => ?_, fun h hpost => ?_⟩
        · cases he
          rw [hsplit, List.cons.injEq] at hsplit'
          exact h hsplit'.1
        · rw [hpost] at hsplit
          exact h line lines path version rfl hsplit

/-! ## `http_server/http_connection.cpp` -/

namespace HttpConnection

/-- `handle_input()`, for whatever the read gave. -/
def receive (c : HttpConnection) : Received HttpRead → Except HttpFault (Int × HttpConnection)
  | .again => .ok (0, c)
  | .failed => .ok (-1, c)
  | .bytes r => c.handleInput r

/-- The receive buffer when a read has stored what it delivers in the room that is left. -/
def filled (c : HttpConnection) (r : HttpRead) : ByteStr :=
  c.recvBuffer ++ r.data.take (httpBufSize - c.recvBuffer.length)

/-- A read that brings bytes leaves room for the terminator, and a text that `parse_headers` can take apart. -/
def Safe (c : HttpConnection) : Received HttpRead → Prop
  | .bytes r => c.filled r ≠ c.recvBuffer → (c.filled r).length < httpBufSize ∧ PostOfPairs (cString (c.filled r))
  | _ => True

theorem process_ok_iff (c : HttpConnection) (msgId : Nat) (dup : Bool) :
    (∃ x, c.process msgId dup = .ok x) ↔ ∃ p, parseHeaders (cString c.recvBuffer) = .ok p := by
  unfold process
  cases parseHeaders (cString c.recvBuffer) with
  | error e => exact ⟨(by rintro ⟨_, h⟩; cases h), (by rintro ⟨_, h⟩; cases h)⟩
  | ok p =>
      refine ⟨fun _ => ⟨p, rfl⟩, fun _ => ?_⟩
      simp only
      split
      · exact ⟨_, rfl⟩
      · split
        · exact ⟨_, rfl⟩
        · exact ⟨_, rfl⟩

/-- **One `handle_input`.** -/
theorem receive_ok_iff (c : HttpConnection) (r : Received HttpRead) : (∃ x, c.receive r = .ok x) ↔ c.Safe r := by
  cases r with
  | again => exact ⟨fun _ => trivial, fun _ => ⟨_, rfl⟩⟩
  | failed => exact ⟨fun _ => trivial, fun _ => ⟨_, rfl⟩⟩
  | bytes r =>
      unfold receive Safe handleInput filled
      simp only
      by_cases hnone : r.data.take (httpBufSize - c.recvBuffer.length) = []
      · -- the end of the stream: nothing is stored
        rw [if_pos hnone, hnone, List.append_nil]
        exact ⟨fun _ h => absurd rfl h, fun _ => ⟨_, rfl⟩⟩
      · rw [if_neg hnone]
        have hsome : c.recvBuffer ++ r.data.take (httpBufSize - c.recvBuffer.length) ≠ c.recvBuffer :=
          fun h => hnone (List.append_right_eq_self.mp h)
        by_cases hroom : (c.recvBuffer ++ r.data.take (httpBufSize - c.recvBuffer.length)).length < httpBufSize
        · rw [if_pos hroom, process_ok_iff, parseHeaders_ok_iff]
          exact ⟨fun h _ => ⟨hroom, h⟩, fun h => (h hsome).2⟩
        · rw [if_neg hroom]
          exact ⟨(by rintro ⟨_, h⟩; cases h), fun h => absurd (h hsome).1 hroom⟩

end HttpConnection

/-! ## `http/http_connection.cpp` -/

namespace Http

/-- `HttpConnection`: the first `m_cur_buf_pos` bytes of the receive buffer, the response, and the buffers put on it. -/
structure HttpConnection where
  recvBuffer : ByteStr := []
  response : HTTPResponse := {}
  sent : List Mbuf := []

/-- The bytes of a read, and the time it is made at. -/
structure Read where
  data : ByteStr
  time : Nat

/-- What `handle_input` calls: `IsReadAll` after `ParseHttpContent` on the bytes received, and the `process` of a subclass. -/
structure Handler where
  isReadAll : ByteStr → Bool
  process : ByteStr → HTTPResponse → HTTPResponse

namespace HttpConnection

variable (handler : Handler)

/-- The receive buffer when a read has stored what it delivers in the room that is left. -/
def filled (c : HttpConnection) (r : Read) : ByteStr := c.recvBuffer ++ r.data.take (httpBufSize - c.recvBuffer.length)

/-- `handle_input()`. The terminator is stored also behind a read of no bytes. -/
def handleInput (c : HttpConnection) : Received Read → Except HttpFault (Int × HttpConnection)
  | .again => .ok (0, c)
  | .failed => .ok (-1, c)
  | .bytes r =>
      let readLen := (r.data.take (httpBufSize - c.recvBuffer.length)).length
      let c := { c with recvBuffer := c.filled r }
      if c.recvBuffer.length < httpBufSize then
        let readAll := handler.isReadAll c.recvBuffer
        if readLen = 0 ∧ ¬ readAll then .ok (-1, c)
        else if readAll then
          let response := handler.process c.recvBuffer c.response
          .ok (-1, { c with response, sent := c.sent ++ [httpSend r.time response] })
        else .ok (0, c)
      else .error .overrun

/-- A read leaves room for the terminator. -/
def Safe (c : HttpConnection) : Received Read → Prop
  | .bytes r => (c.filled r).length < httpBufSize
  | _ => True

theorem handleInput_ok_iff (c : HttpConnection) (r : Received Read) :
    (∃ x, c.handleInput handler r = .ok x) ↔ c.Safe r := by
  cases r with
  | again => exact ⟨fun _ => trivial, fun _ => ⟨_, rfl⟩⟩
  | failed => exact ⟨fun _ => trivial, fun _ => ⟨_, rfl⟩⟩
  | bytes r =>
      unfold handleInput Safe
      simp only
      by_cases hroom : (c.filled r).length < httpBufSize
      · rw [if_pos hroom]
        refine ⟨fun _ => hroom, fun _ => ?_⟩
        split
        · exact ⟨_, rfl⟩
        · split
          · exact ⟨_, rfl⟩
          · exact ⟨_, rfl⟩
      · rw [if_neg hroom]
        exact ⟨(by rintro ⟨_, h⟩; cases h), fun h => absurd h hroom⟩

end HttpConnection

end Http

/-! ## Runs -/

/-- **When input stays in range.** `parse_headers` on any text, and the reads of a connection of either kind from any state
    on: no access is out of range exactly when no read fills the buffer and no body line that is parsed lacks a name or a
    value. -/
theorem input_in_range_iff (s : ByteStr) (c : HttpConnection) (rs : List (Received HttpRead))
    (handler : Http.Handler) (d : Http.HttpConnection) (rs' : List (Received Http.Read)) :
    ((∃ p, parseHeaders s = .ok p) ↔ PostOfPairs s) ∧
    ((∃ c', inputs HttpConnection.receive c rs = .ok c') ↔ AtEach HttpConnection.receive HttpConnection.Safe c rs) ∧
    ((∃ d', inputs (Http.HttpConnection.handleInput handler) d rs' = .ok d') ↔
      AtEach (Http.HttpConnection.handleInput handler) Http.HttpConnection.Safe d rs') :=
  ⟨parseHeaders_ok_iff s, inputs_ok_iff HttpConnection.receive_ok_iff rs c,
    inputs_ok_iff (Http.HttpConnection.handleInput_ok_iff handler) rs' d⟩

/-- A read of 4096 bytes. -/
def fullRead : ByteStr := List.replicate httpBufSize 0x41

/-- **Out of range.** A first read that fills the buffer has its terminator stored behind it, in both servers, and a POST
    with the body `x` has a value taken that is not there. -/
theorem input_out_of_range :
    inputs HttpConnection.receive {} [.bytes { data := fullRead, msgId := 1 }] = .error .overrun ∧
    (∀ handler, inputs (Http.HttpConnection.handleInput handler) {} [.bytes { data := fullRead, time := 0 }] =
      .error .overrun) ∧
    inputs HttpConnection.receive {} [.bytes { data := text "POST /publish HTTP/1.0\n\nx", msgId := 1 }] =
      .error .outOfRange := by
  have hlen : fullRead.length = httpBufSize := List.length_replicate
  have htake : fullRead.take (httpBufSize - ([] : ByteStr).length) = fullRead := List.take_of_length_le (Nat.le_of_eq hlen)
  have hfull : ¬ ([] ++ fullRead : ByteStr).length < httpBufSize := by
    rw [List.nil_append, hlen]
    exact Nat.lt_irrefl _
  refine ⟨?_, fun handler => ?_, ?_⟩
  · have hsome : fullRead ≠ [] := fun h => by
      rw [h] at hlen
      exact absurd hlen (by decide)
    have hstep : HttpConnection.handleInput {} { data := fullRead, msgId := 1 } = .error .overrun := by
      unfold HttpConnection.handleInput
      simp only
      rw [htake, if_neg hsome, if_neg hfull]
    unfold inputs HttpConnection.receive
    simp only [hstep]
  · have hstep : Http.HttpConnection.handleInput handler {} (.bytes { data := fullRead, time := 0 }) = .error .overrun := by
      unfold Http.HttpConnection.handleInput Http.HttpConnection.filled
      simp only
      rw [htake, if_neg hfull]
    unfold inputs
    simp only [hstep]
  · rfl

end MqttServer
