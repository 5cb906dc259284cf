import MqttServer.Lib.Run
import MqttServer.Reactor.Epoll

/-!
# `Reactor.Client` — the client that reconnects

`CTCPClient` of `reactor/tcp_client.cpp`. `connect` makes a new socket whenever it is called, and the poller hears of the
socket only when the connection is in progress; a timer calls `connect` again as long as the status is not
`CLIENT_CONNECTED`. The client owns one registered socket just as long as nobody connects while a socket is still open,
and no connection is made at once (`client_owns_one_iff`).
-/

namespace MqttServer

open Lib

/-- What `::connect` did: it succeeded, it is in progress, or it failed. -/
inductive ConnectRes where
  | done | inProgress | failed
deriving DecidableEq, Repr

/-- What a call of `connect()` finds: the descriptor of the new socket, unless `socket` fails; what `::connect` does; whether
    `EPOLL_CTL_ADD` finds memory; and the id of a new timer. -/
structure ConnectCall where
  sock : Option Nat
  res : ConnectRes
  addOk : Bool
  timerId : Int
deriving DecidableEq, Repr

/-- What a send does: `-1`, less than everything, or everything. -/
inductive SendRes where
  | failed | blocked | sent
deriving DecidableEq, Repr

namespace PollerEpoll

variable (p : PollerEpoll) (c : HandlerId)

/-- `if (m_timer_id == 0) m_timer_id = regist_timer(…)`. -/
def registTimer (timerId : Int) : PollerEpoll :=
  p.modify c fun x => if x.timerId = 0 then { x with timerId } else x

/-- `connect()`. -/
def connect (o : ConnectCall) : PollerEpoll :=
  match o.sock with
  | none => p.modify c ({ · with sockHandle := none })
  | some fd =>
      let p := { p with kernel := p.kernel.socket fd c }.modify c
        ({ · with sockHandle := some fd, clientStatus := .connecting })
      match o.res with
      | .inProgress => (p.addEvent c (eventRead ||| eventWrite ||| eventError) o.addOk).2.registTimer c o.timerId
      | .failed => p.registTimer c o.timerId
      | .done => p.modify c ({ · with clientStatus := .connected })

/-- `handle_timeout(time, data)`. -/
def handleTimeout (o : ConnectCall) : PollerEpoll :=
  if (p.handlers c).clientStatus ≠ .connected then p.connect c o else p

/-- `schedule_write()`. -/
def scheduleWrite (ok : Bool) : PollerEpoll :=
  if (p.handlers c).currentEventMask &&& eventWrite > 0 then p
  else (p.modEvent c ((p.handlers c).currentEventMask ||| eventWrite) ok).2

/-- `cancel_schedule_write()`. -/
def cancelScheduleWrite (ok : Bool) : PollerEpoll :=
  (p.modEvent c ((p.handlers c).currentEventMask ^^^ eventWrite) ok).2

/-- `nonblk_send(mbuf)`. -/
def nonblkSend (m : MbufId) (res : SendRes) (ok : Bool) : PollerEpoll :=
  match res with
  | .failed => p.clientHandleClose c
  | .blocked => (p.modify c fun x => { x with sendMsgQueue := m :: x.sendMsgQueue }).scheduleWrite c ok
  | .sent => p

/-- `if (m_send_msg_queue.empty()) cancel_schedule_write()`. -/
def cancelWhenEmpty (ok : Bool) : PollerEpoll :=
  if (p.handlers c).sendMsgQueue.isEmpty then p.cancelScheduleWrite c ok else p

/-- `CEventHandler::handle_output(socket)`. -/
def eventHandleOutput (res : SendRes) (ok : Bool) : PollerEpoll :=
  match (p.handlers c).sendMsgQueue with
  | [] => p.cancelScheduleWrite c ok
  | m :: rest =>
      ((p.modify c ({ · with sendMsgQueue := rest })).nonblkSend c m res ok).cancelWhenEmpty c ok

/-- `handle_output(socket)`. -/
def handleOutput (res : SendRes) (ok : Bool) : PollerEpoll :=
  match (p.handlers c).clientStatus with
  | .connecting => ((p.modify c ({ · with clientStatus := .connected })).modEvent c eventRead ok).2
  | .connected => p.eventHandleOutput c res ok
  | .unconnected => p

/-- `put(mbuf)`. -/
def put (m : MbufId) (res : SendRes) (ok : Bool) : PollerEpoll :=
  if (p.handlers c).sendMsgQueue.isEmpty then p.nonblkSend c m res ok
  else if (p.handlers c).sendMsgQueue.length ≥ maxMsgInBuffer then p
  else (p.modify c fun x => { x with sendMsgQueue := x.sendMsgQueue ++ [m] }).scheduleWrite c ok

end PollerEpoll

/-! ## Events -/

/-- What happens to the client; `others` is whatever the rest of the process does in between. -/
inductive ClientEvent where
  | connect (o : ConnectCall)
  | timeout (o : ConnectCall)
  | output (res : SendRes) (ok : Bool)
  | put (m : MbufId) (res : SendRes) (ok : Bool)
  | close
  | others (p : PollerEpoll)

/-- One event of client `c`. -/
def PollerEpoll.clientStep (c : HandlerId) (p : PollerEpoll) : ClientEvent → PollerEpoll
  | .connect o => p.connect c o
  | .timeout o => p.handleTimeout c o
  | .output res ok => p.handleOutput c res ok
  | .put m res ok => p.put c m res ok
  | .close => p.clientHandleClose c
  | .others p' => p'

/-- The rest of the process leaves alone what belongs to the client. -/
structure LeavesAlone (c : HandlerId) (p p' : PollerEpoll) : Prop where
  handler : p'.handlers c = p.handlers c
  opened : ∀ fd, p'.kernel.opened fd = some c ↔ p.kernel.opened fd = some c
  interest : ∀ fd, p.kernel.opened fd = some c → p'.kernel.interest fd = p.kernel.interest fd
  mapped : ∀ fd, p'.mapEventHandlers.lookup fd = some c ↔ p.mapEventHandlers.lookup fd = some c

/-- What can happen: a new socket gets a descriptor that is not open. -/
def Feasible (c : HandlerId) (p : PollerEpoll) : ClientEvent → Prop
  | .connect o => ∀ fd, o.sock = some fd → p.kernel.opened fd = none
  | .timeout o => ∀ fd, o.sock = some fd → p.kernel.opened fd = none
  | .others p' => LeavesAlone c p p'
  | _ => True

/-- **The client owns one registered socket.** -/
structure OwnsOne (c : HandlerId) (p : PollerEpoll) : Prop where
  single : ∀ fd fd', p.kernel.opened fd = some c → p.kernel.opened fd' = some c → fd = fd'
  keyed : ∀ fd, p.mapEventHandlers.lookup fd = some c → (p.handlers c).sockHandle = some fd
  reading : (p.handlers c).clientStatus = .connected → ∃ fd mask, (p.handlers c).sockHandle = some fd ∧
    p.kernel.interest fd = some (c, mask) ∧ mask &&& eventRead ≠ 0

/-- `connect` is called when no socket of the client is open, and the connection is not made at once; when there is no new
    socket, the client is neither connected nor in the map. -/
def ConnectCall.Clean (o : ConnectCall) (c : HandlerId) (p : PollerEpoll) : Prop :=
  match o.sock with
  | some _ => (∀ fd, p.kernel.opened fd ≠ some c) ∧ o.res ≠ .done
  | none => (∀ fd, p.mapEventHandlers.lookup fd ≠ some c) ∧ (p.handlers c).clientStatus ≠ .connected

/-- The socket of the client is watched. -/
def PollerEpoll.Watches (p : PollerEpoll) (c : HandlerId) : Prop :=
  ∃ fd, (p.handlers c).sockHandle = some fd ∧ p.kernel.interest fd ≠ none

/-- The events that go well. A connecting client hears of a writable socket only when the poller watches it. -/
def GoesWell (c : HandlerId) (p : PollerEpoll) : ClientEvent → Prop
  | .connect o => o.Clean c p
  | .timeout o => (p.handlers c).clientStatus ≠ .connected → o.Clean c p
  | .output _ _ => (p.handlers c).clientStatus = .connecting → p.Watches c
  | _ => True

/-! ## The invariant -/

/-- The client has at most one socket, its descriptor is its own, and is watched for reading with the mask it knows. -/
structure Held (c : HandlerId) (p : PollerEpoll) : Prop where
  single : ∀ fd fd', p.kernel.opened fd = some c → p.kernel.opened fd' = some c → fd = fd'
  keyed : ∀ fd, p.mapEventHandlers.lookup fd = some c → (p.handlers c).sockHandle = some fd
  own : ∀ fd, (p.handlers c).sockHandle = some fd → p.kernel.opened fd = some c
  known : ∀ fd d, (p.handlers c).sockHandle = some fd → p.kernel.interest fd = some d →
    d = (c, (p.handlers c).currentEventMask) ∧ (p.handlers c).currentEventMask &&& eventRead ≠ 0
  mapped : ∀ fd, p.mapEventHandlers.lookup fd = some c → p.kernel.interest fd ≠ none

/-- And it is watched when it is connected. -/
structure Registered (c : HandlerId) (p : PollerEpoll) : Prop extends Held c p where
  watches : (p.handlers c).clientStatus = .connected → p.Watches c

variable {c : HandlerId} {p p' : PollerEpoll} {mask : Nat} {ok : Bool} {o : ConnectCall}

theorem Registered.ownsOne (h : Registered c p) : OwnsOne c p where
  single := h.single
  keyed := h.keyed
  reading hs := by
    obtain ⟨fd, hfd, hwatched⟩ := h.watches hs
    obtain ⟨d, hd⟩ := Option.ne_none_iff_exists'.mp hwatched
    obtain ⟨rfl, hread⟩ := h.known fd d hfd hd
    exact ⟨fd, _, hfd, hd, hread⟩

/-- A change of the other members. -/
theorem Held.modify (h : Held c p) (f : Watched → Watched) (hfd : (f (p.handlers c)).sockHandle = (p.handlers c).sockHandle)
    (hmask : (f (p.handlers c)).currentEventMask = (p.handlers c).currentEventMask) : Held c (p.modify c f) where
  single := h.single
  keyed fd hk := by
    rw [PollerEpoll.modify_self, hfd]
    exact h.keyed fd hk
  own fd ho := by
    rw [PollerEpoll.modify_self, hfd] at ho
    exact h.own fd ho
  known fd d ho hd := by
    rw [PollerEpoll.modify_self, hfd] at ho
    rw [PollerEpoll.modify_self, hmask]
    exact h.known fd d ho hd
  mapped := h.mapped

/-- A change of the mask, which changes nothing else: it is `p` itself, or the descriptor of the client is watched with the
    new mask. -/
theorem modEvent_cases (p : PollerEpoll) (c : HandlerId) (mask : Nat) (ok : Bool) : (p.modEvent c mask ok).2 = p ∨
    ∃ fd kernel, (p.handlers c).sockHandle = some fd ∧ p.kernel.interest fd ≠ none ∧ kernel.opened = p.kernel.opened ∧
      kernel.interest = Function.update p.kernel.interest fd (some (c, mask)) ∧
      (p.modEvent c mask ok).2 = { p with kernel }.setCurEventMask c mask := by
  unfold PollerEpoll.modEvent
  cases hfd : (p.handlers c).sockHandle with
  | none => exact Or.inl rfl
  | some fd =>
      simp only
      cases hmod : (if ok then p.kernel.mod fd (c, mask) else none) with
      | none => exact Or.inl rfl
      | some kernel =>
          cases ok with
          | false => cases hmod
          | true =>
              obtain ⟨hwatched, hopened, hinterest⟩ := Epoll.mod_eq_some hmod
              exact Or.inr ⟨fd, kernel, rfl, hwatched, hopened, hinterest, rfl⟩

/-- `mod_event` touches neither the status nor the queue, and who was watched still is. -/
theorem modEvent_frame (p : PollerEpoll) (c : HandlerId) (mask : Nat) (ok : Bool) :
    ((p.modEvent c mask ok).2.handlers c).clientStatus = (p.handlers c).clientStatus ∧
      ((p.modEvent c mask ok).2.Watches c ↔ p.Watches c) := by
  rcases modEvent_cases p c mask ok with heq | ⟨fd, kernel, hfd, hwatched, -, hinterest, heq⟩
  · rw [heq]
    exact ⟨rfl, Iff.rfl⟩
  · rw [heq]
    refine ⟨by rw [PollerEpoll.setCurEventMask, PollerEpoll.modify_self], fun _ => ⟨fd, hfd, hwatched⟩, fun _ => ⟨fd, ?_, ?_⟩⟩
    · rw [PollerEpoll.setCurEventMask, PollerEpoll.modify_self]
      exact hfd
    · show kernel.interest fd ≠ none
      rw [hinterest, Function.update_self]
      exact Option.some_ne_none _

theorem Held.modEvent (h : Held c p) (hread : mask &&& eventRead ≠ 0) : Held c (p.modEvent c mask ok).2 := by
  rcases modEvent_cases p c mask ok with heq | ⟨fd, kernel, hfd, hwatched, hopened, hinterest, heq⟩
  · rw [heq]
    exact h
  · rw [heq]
    have hself : ({ p with kernel }.setCurEventMask c mask).handlers c = { p.handlers c with currentEventMask := mask } := by
      rw [PollerEpoll.setCurEventMask, PollerEpoll.modify_self]
    refine ⟨fun fd₁ fd₂ h₁ h₂ => ?_, fun fd' hk => ?_, fun fd' ho => ?_, fun fd' d ho hd => ?_, fun fd' hk => ?_⟩
    · refine h.single fd₁ fd₂ ?_ ?_
      · rw [← hopened]
        exact h₁
      · rw [← hopened]
        exact h₂
    · rw [hself]
      exact h.keyed fd' hk
    · rw [hself] at ho
      show kernel.opened fd' = some c
      rw [hopened]
      exact h.own fd' ho
    · rw [hself] at ho ⊢
      have hsame : fd' = fd := Option.some.inj (ho.symm.trans hfd)
      have hd' : kernel.interest fd' = some d := hd
      rw [hinterest, hsame, Function.update_self] at hd'
      exact ⟨(Option.some.inj hd').symm, hread⟩
    · show kernel.interest fd' ≠ none
      rw [hinterest]
      by_cases hsame : fd' = fd
      · rw [hsame, Function.update_self]
        exact Option.some_ne_none _
      · rw [Function.update_of_ne hsame]
        exact h.mapped fd' hk

theorem read_xor_write (mask : Nat) : (mask ^^^ eventWrite) &&& eventRead = mask &&& eventRead := by
  rw [Nat.and_xor_distrib_right]
  exact Nat.xor_zero _

theorem read_or_write (mask : Nat) : (mask ||| eventWrite) &&& eventRead = mask &&& eventRead := by
  rw [Nat.and_or_distrib_right]
  exact Nat.or_zero _

/-- A change of the mask that keeps its reading bit. -/
theorem Registered.remask (h : Registered c p) (hread : mask &&& eventRead = (p.handlers c).currentEventMask &&& eventRead) :
    Registered c (p.modEvent c mask ok).2 := by
  obtain ⟨hstatus, hwatches⟩ := modEvent_frame p c mask ok
  have hheld : Held c (p.modEvent c mask ok).2 := by
    rcases modEvent_cases p c mask ok with heq | ⟨fd, kernel, hfd, hwatched, -⟩
    · rw [heq]
      exact h.toHeld
    · obtain ⟨d, hd⟩ := Option.ne_none_iff_exists'.mp hwatched
      refine h.toHeld.modEvent ?_
      rw [hread]
      exact (h.known fd d hfd hd).2
  refine { toHeld := hheld, watches := fun hs => hwatches.mpr (h.watches ?_) }
  rw [← hstatus]
  exact hs

theorem Registered.cancelScheduleWrite (h : Registered c p) : Registered c (p.cancelScheduleWrite c ok) :=
  h.remask (read_xor_write _)

theorem Registered.scheduleWrite (h : Registered c p) : Registered c (p.scheduleWrite c ok) := by
  unfold PollerEpoll.scheduleWrite
  split
  · exact h
  · exact h.remask (read_or_write _)

theorem Registered.queue (h : Registered c p) (f : List MbufId → List MbufId) :
    Registered c (p.modify c fun x => { x with sendMsgQueue := f x.sendMsgQueue }) where
  toHeld := h.toHeld.modify _ rfl rfl
  watches hs := by
    rw [PollerEpoll.modify_self] at hs
    obtain ⟨fd, hfd, hwatched⟩ := h.watches hs
    refine ⟨fd, ?_, hwatched⟩
    rw [PollerEpoll.modify_self]
    exact hfd

/-- **Closing** leaves nothing of the client behind. -/
theorem Held.close (h : Held c p) : Held c (p.close c) ∧ ((p.close c).handlers c).sockHandle = none := by
  cases hfd : (p.handlers c).sockHandle with
  | none =>
      rw [PollerEpoll.close_none hfd]
      exact ⟨h, hfd⟩
  | some fd =>
      obtain ⟨hopened, -, hmap, -, mask, hself⟩ := PollerEpoll.close_eq hfd
      have hnone : ((p.close c).handlers c).sockHandle = none := by rw [hself]
      -- an entry of the client would be the one that was erased
      have hgone : ∀ fd', (p.close c).mapEventHandlers.lookup fd' ≠ some c := by
        intro fd' hk
        rw [hmap] at hk
        by_cases hwatched : p.kernel.interest fd = none
        · rw [if_pos hwatched] at hk
          have hsame := h.keyed fd' hk
          rw [hfd] at hsame
          exact h.mapped fd' hk (Option.some.inj hsame ▸ hwatched)
        · rw [if_neg hwatched] at hk
          by_cases hsame : fd' = fd
          · rw [hsame, AList.lookup_erase] at hk
            cases hk
          · rw [AList.lookup_erase_ne hsame] at hk
            have hkey := h.keyed fd' hk
            rw [hfd] at hkey
            exact hsame (Option.some.inj hkey).symm
      refine ⟨⟨fun fd₁ fd₂ h₁ h₂ => ?_, fun fd' hk => absurd hk (hgone fd'), fun fd' ho => ?_, fun fd' d ho => ?_,
        fun fd' hk => absurd hk (hgone fd')⟩, hnone⟩
      · have hstill : ∀ fd', (p.close c).kernel.opened fd' = some c → p.kernel.opened fd' = some c := by
          intro fd' ho
          rw [hopened] at ho
          by_cases hsame : fd' = fd
          · rw [hsame, Function.update_self] at ho
            cases ho
          · rwa [Function.update_of_ne hsame] at ho
        exact h.single fd₁ fd₂ (hstill fd₁ h₁) (hstill fd₂ h₂)
      · rw [hnone] at ho
        cases ho
      · rw [hnone] at ho
        cases ho

theorem Registered.clientHandleClose (h : Held c p) : Registered c (p.clientHandleClose c) where
  toHeld := h.close.1.modify _ rfl rfl
  watches hs := by
    rw [PollerEpoll.clientHandleClose, PollerEpoll.modify_self] at hs
    cases hs

theorem Registered.nonblkSend (h : Registered c p) (m : MbufId) (res : SendRes) : Registered c (p.nonblkSend c m res ok) := by
  unfold PollerEpoll.nonblkSend
  cases res with
  | failed => exact Registered.clientHandleClose h.toHeld
  | blocked => exact (h.queue (m :: ·)).scheduleWrite
  | sent => exact h

theorem Registered.eventHandleOutput (h : Registered c p) (res : SendRes) : Registered c (p.eventHandleOutput c res ok) := by
  unfold PollerEpoll.eventHandleOutput
  split
  · exact h.cancelScheduleWrite
  · rename_i m rest _
    have hsent : Registered c (PollerEpoll.nonblkSend _ c m res ok) := (h.queue fun _ => rest).nonblkSend m res
    unfold PollerEpoll.cancelWhenEmpty
    split
    · exact hsent.cancelScheduleWrite
    · exact hsent

theorem Registered.put (h : Registered c p) (m : MbufId) (res : SendRes) : Registered c (p.put c m res ok) := by
  unfold PollerEpoll.put
  split
  · exact h.nonblkSend m res
  · split
    · exact h
    · exact (h.queue (· ++ [m])).scheduleWrite

/-! ## Connecting -/

/-- What `add_event` does to a descriptor that is not watched and has no entry of the client. -/
theorem Held.addEvent (h : Held c p) (mask : Nat) (ok : Bool) {fd : Nat} (hfd : (p.handlers c).sockHandle = some fd)
    (hmap : p.mapEventHandlers.lookup fd ≠ some c) (hread : mask &&& eventRead ≠ 0) :
    Held c (p.addEvent c mask ok).2 ∧
      ((p.addEvent c mask ok).2.handlers c).clientStatus = (p.handlers c).clientStatus ∧
      (p.addEvent c mask ok).2.kernel.opened = p.kernel.opened := by
  unfold PollerEpoll.addEvent
  rw [hfd]
  simp only
  cases hadd : (if ok then p.kernel.add fd (c, mask) else none) with
  | none => exact ⟨h, rfl, rfl⟩
  | some kernel =>
      cases ok with
      | false => cases hadd
      | true =>
          obtain ⟨-, hopened, hinterest⟩ := Epoll.add_eq_some hadd
          have hwatched : ∀ fd', p.kernel.interest fd' ≠ none → kernel.interest fd' ≠ none := by
            intro fd' hw
            rw [hinterest]
            by_cases hsame : fd' = fd
            · rw [hsame, Function.update_self]
              exact Option.some_ne_none _
            · rwa [Function.update_of_ne hsame]
          -- the map is what it was, or has the descriptor too
          have hboth : ∀ map : AList (fun _ : Nat => HandlerId),
              (∀ fd', map.lookup fd' = some c → fd' = fd ∨ p.mapEventHandlers.lookup fd' = some c) →
              Held c ({ p with kernel, mapEventHandlers := map }.setCurEventMask c mask) := by
            intro map hin
            have hself : ({ p with kernel, mapEventHandlers := map }.setCurEventMask c mask).handlers c =
                { p.handlers c with currentEventMask := mask } := by
              rw [PollerEpoll.setCurEventMask, PollerEpoll.modify_self]
            refine ⟨fun fd₁ fd₂ h₁ h₂ => ?_, fun fd' hk => ?_, fun fd' ho => ?_, fun fd' d ho hd => ?_, fun fd' hk => ?_⟩
            · refine h.single fd₁ fd₂ ?_ ?_
              · rw [← hopened]
                exact h₁
              · rw [← hopened]
                exact h₂
            · rw [hself]
              rcases hin fd' hk with rfl | hold
              · exact hfd
              · exact h.keyed fd' hold
            · rw [hself] at ho
              show kernel.opened fd' = some c
              rw [hopened]
              exact h.own fd' ho
            · rw [hself] at ho ⊢
              have hsame : fd' = fd := Option.some.inj (ho.symm.trans hfd)
              have hd' : kernel.interest fd' = some d := hd
              rw [hinterest, hsame, Function.update_self] at hd'
              exact ⟨(Option.some.inj hd').symm, hread⟩
            · show kernel.interest fd' ≠ none
              rcases hin fd' hk with rfl | hold
              · rw [hinterest, Function.update_self]
                exact Option.some_ne_none _
              · exact hwatched fd' (h.mapped fd' hold)
          cases hlook : p.mapEventHandlers.lookup fd with
          | none =>
              simp only
              refine ⟨hboth _ fun fd' hk => ?_, by rw [PollerEpoll.setCurEventMask, PollerEpoll.modify_self], hopened⟩
              by_cases hsame : fd' = fd
              · exact Or.inl hsame
              · rw [AList.lookup_insert_ne hsame] at hk
                exact Or.inr hk
          | some h' =>
              have hne : h' ≠ c := by
                rintro rfl
                exact hmap hlook
              simp only
              rw [if_neg hne]
              exact ⟨hboth _ fun fd' hk => Or.inr hk, by rw [PollerEpoll.setCurEventMask, PollerEpoll.modify_self], hopened⟩

theorem registTimer_self (p : PollerEpoll) (c : HandlerId) (id : Int) :
    ((p.registTimer c id).handlers c).sockHandle = (p.handlers c).sockHandle ∧
      ((p.registTimer c id).handlers c).currentEventMask = (p.handlers c).currentEventMask ∧
      ((p.registTimer c id).handlers c).clientStatus = (p.handlers c).clientStatus := by
  unfold PollerEpoll.registTimer
  rw [PollerEpoll.modify_self]
  split
  · exact ⟨rfl, rfl, rfl⟩
  · exact ⟨rfl, rfl, rfl⟩

/-- The state in which `::connect` is called. -/
def PollerEpoll.connecting (p : PollerEpoll) (c : HandlerId) (fd : Nat) : PollerEpoll :=
  { p with kernel := p.kernel.socket fd c }.modify c ({ · with sockHandle := some fd, clientStatus := .connecting })

theorem connecting_self (p : PollerEpoll) (c : HandlerId) (fd : Nat) : (p.connecting c fd).handlers c =
    { p.handlers c with sockHandle := some fd, clientStatus := .connecting } := PollerEpoll.modify_self _

/-- A new socket of a client that has no other. -/
theorem Held.connecting (h : Held c p) {fd : Nat} (hfree : p.kernel.opened fd = none) (hnone : ∀ fd', p.kernel.opened fd' ≠ some c) :
    Held c (p.connecting c fd) ∧ ∀ fd', p.mapEventHandlers.lookup fd' ≠ some c := by
  have hopened : ∀ fd', (p.connecting c fd).kernel.opened fd' = some c → fd' = fd := by
    intro fd' ho
    by_contra hne
    have hold : Function.update p.kernel.opened fd (some c) fd' = some c := ho
    rw [Function.update_of_ne hne] at hold
    exact hnone fd' hold
  have hmap : ∀ fd', p.mapEventHandlers.lookup fd' ≠ some c := fun fd' hk => hnone fd' (h.own fd' (h.keyed fd' hk))
  refine ⟨⟨fun fd₁ fd₂ h₁ h₂ => (hopened fd₁ h₁).trans (hopened fd₂ h₂).symm, fun fd' hk => absurd hk (hmap fd'),
    fun fd' ho => ?_, fun fd' d ho hd => ?_, fun fd' hk => absurd hk (hmap fd')⟩, hmap⟩
  · rw [connecting_self] at ho
    cases ho
    exact Function.update_self _ _ _
  · rw [connecting_self] at ho
    cases ho
    have hwatched : p.kernel.interest fd = some d := hd
    rw [p.kernel.watched_open fd hfree] at hwatched
    cases hwatched

/-- Whatever `::connect` does, the new socket is open, and the others stay open. -/
theorem connect_opened {fd : Nat} (hsock : o.sock = some fd) :
    (p.connect c o).kernel.opened = Function.update p.kernel.opened fd (some c) := by
  have hadd : ∀ (q : PollerEpoll) (mask : Nat) (ok : Bool), (q.addEvent c mask ok).2.kernel.opened = q.kernel.opened := by
    intro q mask ok
    unfold PollerEpoll.addEvent
    split
    · rfl
    · split
      · rfl
      · rename_i kernel hk
        have hopened : kernel.opened = q.kernel.opened := by
          cases ok with
          | false => cases hk
          | true => exact (Epoll.add_eq_some hk).2.1
        split
        · exact hopened
        · split
          · exact hopened
          · exact hopened
  unfold PollerEpoll.connect
  rw [hsock]
  simp only
  split
  · exact hadd (p.connecting c fd) _ _
  · rfl
  · rfl

/-- **A call of `connect`** leaves the client with one registered socket exactly when it is clean. -/
theorem Registered.connect (h : Registered c p) (hfree : ∀ fd, o.sock = some fd → p.kernel.opened fd = none) :
    (OwnsOne c (p.connect c o) ↔ o.Clean c p) ∧ (o.Clean c p → Registered c (p.connect c o)) := by
  cases hsock : o.sock with
  -- `socket` has failed: the handler ends without a descriptor
  | none =>
      have hclean : o.Clean c p ↔ (∀ fd, p.mapEventHandlers.lookup fd ≠ some c) ∧ (p.handlers c).clientStatus ≠ .connected := by
        unfold ConnectCall.Clean
        rw [hsock]
      have hconn : p.connect c o = p.modify c ({ · with sockHandle := none }) := by
        unfold PollerEpoll.connect
        rw [hsock]
      have hreg : (∀ fd, p.mapEventHandlers.lookup fd ≠ some c) ∧ (p.handlers c).clientStatus ≠ .connected →
          Registered c (p.connect c o) := by
        rintro ⟨hmap, hstatus⟩
        rw [hconn]
        have hself : (p.modify c ({ · with sockHandle := none })).handlers c = { p.handlers c with sockHandle := none } :=
          PollerEpoll.modify_self _
        refine { single := h.single, keyed := fun fd hk => absurd hk (hmap fd), own := fun fd ho => ?_,
                 known := fun fd d ho => ?_, mapped := fun fd hk => absurd hk (hmap fd), watches := fun hs => ?_ }
        · rw [hself] at ho
          cases ho
        · rw [hself] at ho
          cases ho
        · rw [hself] at hs
          exact absurd hs hstatus
      rw [hclean]
      refine ⟨⟨fun hown => ?_, fun hc => (hreg hc).ownsOne⟩, hreg⟩
      rw [hconn] at hown
      refine ⟨fun fd hk => ?_, fun hs => ?_⟩
      · have hkey := hown.keyed fd hk
        rw [PollerEpoll.modify_self] at hkey
        cases hkey
      · obtain ⟨fd, mask, hfd, -⟩ := hown.reading (by rw [PollerEpoll.modify_self]; exact hs)
        rw [PollerEpoll.modify_self] at hfd
        cases hfd
  | some fd =>
      have hclean : o.Clean c p ↔ (∀ fd, p.kernel.opened fd ≠ some c) ∧ o.res ≠ .done := by
        unfold ConnectCall.Clean
        rw [hsock]
      have hreg : (∀ fd, p.kernel.opened fd ≠ some c) ∧ o.res ≠ .done → Registered c (p.connect c o) := by
        rintro ⟨hnone, hres⟩
        obtain ⟨hheld, hmap⟩ := h.toHeld.connecting (hfree fd hsock) hnone
        -- a connect that waits and one that failed both end in the timer
        have htimer : ∀ q : PollerEpoll, Held c q → (q.handlers c).clientStatus = .connecting →
            Registered c (q.registTimer c o.timerId) := by
          intro q hq hstatus
          obtain ⟨hfd, hmask, hsame⟩ := registTimer_self q c o.timerId
          unfold PollerEpoll.registTimer at hfd hmask hsame ⊢
          rw [PollerEpoll.modify_self] at hfd hmask hsame
          refine { toHeld := hq.modify _ hfd hmask, watches := fun hs => ?_ }
          rw [PollerEpoll.modify_self, hsame, hstatus] at hs
          cases hs
        have hstatus : ((p.connecting c fd).handlers c).clientStatus = .connecting := by rw [connecting_self]
        unfold PollerEpoll.connect
        rw [hsock]
        simp only
        cases hr : o.res with
        | inProgress =>
            obtain ⟨hadded, hkept, -⟩ := hheld.addEvent (eventRead ||| eventWrite ||| eventError) o.addOk
              (by rw [connecting_self]) (hmap fd) (by decide)
            exact htimer _ hadded (hkept.trans hstatus)
        | failed => exact htimer _ hheld hstatus
        | done => exact absurd hr hres
      rw [hclean]
      refine ⟨⟨fun hown => ⟨fun fd' ho => ?_, fun hr => ?_⟩, fun hc => (hreg hc).ownsOne⟩, hreg⟩
      · -- the old socket is still open
        have hne : fd' ≠ fd := by
          rintro rfl
          rw [hfree fd' hsock] at ho
          cases ho
        have hopened : (p.connect c o).kernel.opened = _ := connect_opened hsock
        refine hne (hown.single fd' fd ?_ ?_)
        · rw [hopened, Function.update_of_ne hne]
          exact ho
        · rw [hopened, Function.update_self]
      · -- nobody has told the poller of the new socket
        have hconn : p.connect c o = (p.connecting c fd).modify c ({ · with clientStatus := .connected }) := by
          unfold PollerEpoll.connect
          rw [hsock, hr]
          rfl
        rw [hconn] at hown
        obtain ⟨fd', mask, hfd, hwatched, -⟩ := hown.reading (by rw [PollerEpoll.modify_self])
        rw [PollerEpoll.modify_self, connecting_self] at hfd
        cases hfd
        have hwatched' : p.kernel.interest fd = some (c, mask) := hwatched
        rw [p.kernel.watched_open fd (hfree fd hsock)] at hwatched'
        cases hwatched'

/-! ## Every event, and every run -/

/-- What the others do does not matter. -/
theorem Registered.others (h : Registered c p) (hl : LeavesAlone c p p') : Registered c p' where
  single fd fd' h₁ h₂ := h.single fd fd' ((hl.opened fd).mp h₁) ((hl.opened fd').mp h₂)
  keyed fd hk := by
    rw [hl.handler]
    exact h.keyed fd ((hl.mapped fd).mp hk)
  own fd ho := by
    rw [hl.handler] at ho
    exact (hl.opened fd).mpr (h.own fd ho)
  known fd d ho hd := by
    rw [hl.handler] at ho ⊢
    rw [hl.interest fd (h.own fd ho)] at hd
    exact h.known fd d ho hd
  mapped fd hk := by
    have hold := (hl.mapped fd).mp hk
    rw [hl.interest fd (h.own fd (h.keyed fd hold))]
    exact h.mapped fd hold
  watches hs := by
    rw [hl.handler] at hs
    obtain ⟨fd, hfd, hwatched⟩ := h.watches hs
    refine ⟨fd, ?_, ?_⟩
    · rw [hl.handler]
      exact hfd
    · rw [hl.interest fd (h.own fd hfd)]
      exact hwatched

/-- **Every event** leaves the client with one registered socket exactly when it goes well. -/
theorem Registered.clientStep (h : Registered c p) (e : ClientEvent) (hf : Feasible c p e) :
    (OwnsOne c (p.clientStep c e) ↔ GoesWell c p e) ∧ (GoesWell c p e → Registered c (p.clientStep c e)) := by
  have halways : ∀ {q : PollerEpoll}, Registered c q → (OwnsOne c q ↔ True) ∧ (True → Registered c q) :=
    fun hq => ⟨iff_of_true hq.ownsOne trivial, fun _ => hq⟩
  cases e with
  | connect o => exact h.connect hf
  | timeout o =>
      show (OwnsOne c (p.handleTimeout c o) ↔ (_ → _)) ∧ ((_ → _) → Registered c (p.handleTimeout c o))
      unfold PollerEpoll.handleTimeout
      by_cases hs : (p.handlers c).clientStatus ≠ .connected
      · rw [if_pos hs]
        obtain ⟨hiff, hkeep⟩ := h.connect hf
        exact ⟨⟨fun hown _ => hiff.mp hown, fun hw => hiff.mpr (hw hs)⟩, fun hw => hkeep (hw hs)⟩
      · rw [if_neg hs]
        exact ⟨iff_of_true h.ownsOne fun hx => absurd hx hs, fun _ => h⟩
  | output res ok =>
      show (OwnsOne c (p.handleOutput c res ok) ↔ (_ → _)) ∧ ((_ → _) → Registered c (p.handleOutput c res ok))
      unfold PollerEpoll.handleOutput
      cases hs : (p.handlers c).clientStatus with
      | unconnected => exact ⟨iff_of_true h.ownsOne (fun hx => by cases hx), fun _ => h⟩
      | connected =>
          have hsent : Registered c (p.eventHandleOutput c res ok) := h.eventHandleOutput res
          exact ⟨iff_of_true hsent.ownsOne (fun hx => by cases hx), fun _ => hsent⟩
      | connecting =>
          obtain ⟨q, hq⟩ : ∃ q, q = p.modify c ({ · with clientStatus := .connected }) := ⟨_, rfl⟩
          have hself : q.handlers c = { p.handlers c with clientStatus := .connected } := hq ▸ PollerEpoll.modify_self _
          have hheld : Held c q := hq ▸ h.toHeld.modify _ rfl rfl
          have hsame : q.Watches c ↔ p.Watches c := by
            unfold PollerEpoll.Watches
            rw [hself, hq]
            rfl
          obtain ⟨hstatus, hwatches⟩ := modEvent_frame q c eventRead ok
          rw [hself] at hstatus
          have hreg : p.Watches c → Registered c (q.modEvent c eventRead ok).2 := fun hw =>
            { toHeld := hheld.modEvent (by decide), watches := fun _ => hwatches.mpr (hsame.mpr hw) }
          rw [← hq]
          refine ⟨⟨fun hown _ => ?_, fun hw => (hreg (hw rfl)).ownsOne⟩, fun hw => hreg (hw rfl)⟩
          obtain ⟨fd, mask, hfd, hwatched, -⟩ := hown.reading hstatus
          refine hsame.mp (hwatches.mp ⟨fd, hfd, ?_⟩)
          rw [hwatched]
          exact Option.some_ne_none _
  | put m res ok => exact halways (h.put m res)
  | close => exact halways (Registered.clientHandleClose h.toHeld)
  | others p' => exact halways (h.others hf)

/-- A client that has not connected yet. -/
structure Unconnected (c : HandlerId) (p : PollerEpoll) : Prop where
  handle : (p.handlers c).sockHandle = none
  status : (p.handlers c).clientStatus = .unconnected
  opened : ∀ fd, p.kernel.opened fd ≠ some c
  mapped : ∀ fd, p.mapEventHandlers.lookup fd ≠ some c

theorem Unconnected.registered (h : Unconnected c p) : Registered c p where
  single fd _ h₁ := absurd h₁ (h.opened fd)
  keyed fd hk := absurd hk (h.mapped fd)
  own fd ho := by
    rw [h.handle] at ho
    cases ho
  known fd d ho := by
    rw [h.handle] at ho
    cases ho
  mapped fd hk := absurd hk (h.mapped fd)
  watches hs := by
    rw [h.status] at hs
    cases hs

/-- **The client owns one registered socket after every event exactly when** every event goes well. -/
theorem client_owns_one_iff (c : HandlerId) (p : PollerEpoll) (es : List ClientEvent) (hu : Unconnected c p)
    (hf : Along (PollerEpoll.clientStep c) (Feasible c) p es) :
    Along (PollerEpoll.clientStep c) (fun p e => OwnsOne c (p.clientStep c e)) p es ↔
      Along (PollerEpoll.clientStep c) (GoesWell c) p es :=
  along_iff (fun _ e h hfe => h.clientStep e hfe) es p hu.registered hf

theorem unused_empty (c : HandlerId) : Unconnected c {} where
  handle := rfl
  status := rfl
  opened _ h := by cases h
  mapped _ h := by cases h

/-- The connection is in progress, and made when the socket can be written. -/
theorem client_connects : Along (PollerEpoll.clientStep 0) (fun p e => OwnsOne 0 (p.clientStep 0 e)) {}
    [.connect ⟨some 5, .inProgress, true, 1⟩, .output .sent true] := by
  refine (client_owns_one_iff 0 {} _ (unused_empty 0) ?_).mpr ?_
  · exact ⟨fun _ _ => rfl, trivial, trivial⟩
  · exact ⟨⟨fun _ h => (by cases h), (by decide)⟩, fun _ => ⟨5, rfl, (by decide)⟩, trivial⟩

/-- **Two sockets, or none that is watched.** The timer expires while the connection is in progress, and a second socket is
    made; and a connection that is made at once is connected without the poller knowing. -/
theorem not_owns_one : (¬ Along (PollerEpoll.clientStep 0) (fun p e => OwnsOne 0 (p.clientStep 0 e)) {}
    [.connect ⟨some 5, .inProgress, true, 1⟩, .timeout ⟨some 6, .inProgress, true, 1⟩]) ∧
    ¬ Along (PollerEpoll.clientStep 0) (fun p e => OwnsOne 0 (p.clientStep 0 e)) {} [.connect ⟨some 5, .done, true, 1⟩] := by
  constructor
  · rintro ⟨-, hown, -⟩
    have hsame := hown.single 5 6 rfl rfl
    cases hsame
  · rintro ⟨hown, -⟩
    obtain ⟨fd, mask, hfd, hwatched, -⟩ := hown.reading rfl
    cases hwatched

end MqttServer
