import Mathlib.Data.List.AList
import MqttServer.Lib.Epoll
import MqttServer.Reactor.EventHandler

/-!
# `Reactor.Epoll` — the handlers of `CPollerEpoll`

`add_event`, `mod_event` and `del_event` of `reactor/poller_epoll.cpp`, and what closes a handler. The poller has a map
from descriptors to handlers, and the kernel a list of the descriptors that are watched; a handler knows its own
descriptor. The three can come apart: each operation looks at the descriptor the handler has now.
-/

namespace MqttServer

open Lib

/-- A handler object. -/
abbrev HandlerId := Nat

/-- `EVENT_ERROR`. -/
def eventError : Nat := 16

/-- `CONNECT_STATUS`. -/
inductive ConnectStatus where
  | unconnected | connecting | connected
deriving DecidableEq, Repr

/-- Whose `handle_close()` a handler has: that of `CEventHandler`, of `CMqttConnection` (with a context or without), or of
    `CTCPClient`. -/
inductive HandlerKind where
  | event
  | mqtt (hasContext : Bool)
  | client
deriving DecidableEq, Repr

/-- A handler as far as the poller is concerned, with the members of `CTCPClient`; `none` is `INVALID_SOCKET`. -/
structure Watched where
  kind : HandlerKind := .event
  deleted : Bool := false
  sockHandle : Option Nat := none
  currentEventMask : Nat := 0
  sendMsgQueue : List MbufId := []
  clientStatus : ConnectStatus := .unconnected
  timerId : Int := 0
deriving DecidableEq, Repr

/-- The poller, its handlers and the kernel. `kernel.opened` says which handler made the socket. -/
structure PollerEpoll where
  kernel : Epoll HandlerId (HandlerId × Nat) := Epoll.empty
  handlers : HandlerId → Watched := fun _ => {}
  mapEventHandlers : AList (fun _ : Nat => HandlerId) := ∅

namespace PollerEpoll

/-- Change a handler. -/
def modify (p : PollerEpoll) (h : HandlerId) (f : Watched → Watched) : PollerEpoll :=
  { p with handlers := Function.update p.handlers h (f (p.handlers h)) }

/-- `set_cur_event_mask(event_mask)`. -/
def setCurEventMask (p : PollerEpoll) (h : HandlerId) (mask : Nat) : PollerEpoll :=
  p.modify h ({ · with currentEventMask := mask })

/-- `add_event(event_handler, event_mask)`. `ok` is false when `EPOLL_CTL_ADD` fails for want of memory. -/
def addEvent (p : PollerEpoll) (h : HandlerId) (mask : Nat) (ok : Bool) : Int × PollerEpoll :=
  match (p.handlers h).sockHandle with
  | none => (-1, p)
  | some fd =>
      match if ok then p.kernel.add fd (h, mask) else none with
      | none => (-1, p)
      | some kernel =>
          match p.mapEventHandlers.lookup fd with
          | none =>
              (0, { p with kernel, mapEventHandlers := p.mapEventHandlers.insert fd h }.setCurEventMask h mask)
          | some h' => (0, if h' = h then { p with kernel } else { p with kernel }.setCurEventMask h mask)

/-- `mod_event(event_handler, event_mask)`. -/
def modEvent (p : PollerEpoll) (h : HandlerId) (mask : Nat) (ok : Bool) : Int × PollerEpoll :=
  match (p.handlers h).sockHandle with
  | none => (-1, p)
  | some fd =>
      match if ok then p.kernel.mod fd (h, mask) else none with
      | none => (-1, p)
      | some kernel => (0, { p with kernel }.setCurEventMask h mask)

/-- `del_event(event_handler, event_mask)`. -/
def delEvent (p : PollerEpoll) (h : HandlerId) : Int × PollerEpoll :=
  match (p.handlers h).sockHandle with
  | none => (-1, p)
  | some fd =>
      match p.kernel.del fd with
      | none => (-1, p)
      | some kernel =>
          (0, { p with kernel, mapEventHandlers := p.mapEventHandlers.erase fd }.setCurEventMask h 0)

/-- `CSockBase::close()`. -/
def sockClose (p : PollerEpoll) (h : HandlerId) : PollerEpoll :=
  match (p.handlers h).sockHandle with
  | none => p
  | some fd => { p with kernel := p.kernel.close fd }.modify h ({ · with sockHandle := none })

/-- `CEventHandler::close()`. -/
def close (p : PollerEpoll) (h : HandlerId) : PollerEpoll := (p.delEvent h).2.sockClose h

/-- `delete this`. -/
def delete (p : PollerEpoll) (h : HandlerId) : PollerEpoll := p.modify h ({ · with deleted := true })

/-- `CTCPClient::handle_close()`. -/
def clientHandleClose (p : PollerEpoll) (h : HandlerId) : PollerEpoll :=
  (p.close h).modify h ({ · with clientStatus := .unconnected })

variable {p : PollerEpoll} {h : HandlerId} {fd : Nat}

@[simp] theorem modify_kernel (f : Watched → Watched) : (p.modify h f).kernel = p.kernel := rfl
@[simp] theorem modify_map (f : Watched → Watched) : (p.modify h f).mapEventHandlers = p.mapEventHandlers := rfl
@[simp] theorem modify_self (f : Watched → Watched) : (p.modify h f).handlers h = f (p.handlers h) :=
  Function.update_self _ _ _
theorem modify_of_ne {h' : HandlerId} (f : Watched → Watched) (hne : h' ≠ h) :
    (p.modify h f).handlers h' = p.handlers h' := Function.update_of_ne hne _ _

/-- **Closing a handler** closes its descriptor, and takes it out of the map when it was watched. -/
theorem close_eq (hfd : (p.handlers h).sockHandle = some fd) :
    (p.close h).kernel.opened = Function.update p.kernel.opened fd none ∧
    (p.close h).kernel.interest = Function.update p.kernel.interest fd none ∧
    (p.close h).mapEventHandlers =
      (if p.kernel.interest fd = none then p.mapEventHandlers else p.mapEventHandlers.erase fd) ∧
    (∀ h', h' ≠ h → (p.close h).handlers h' = p.handlers h') ∧
    ∃ mask, (p.close h).handlers h = { p.handlers h with sockHandle := none, currentEventMask := mask } := by
  unfold close delEvent
  rw [hfd]
  simp only
  cases hdel : p.kernel.del fd with
  | none =>
      have hnone : p.kernel.interest fd = none := by
        by_contra hx
        have hsome := Epoll.del_isSome.mpr hx
        rw [hdel] at hsome
        cases hsome
      simp only [sockClose, hfd]
      refine ⟨rfl, rfl, (if_pos hnone).symm, fun h' hne => modify_of_ne _ hne, _, modify_self _⟩
  | some kernel =>
      obtain ⟨hwatched, hopened, hinterest⟩ := Epoll.del_eq_some hdel
      have hfd' : (({ p with kernel, mapEventHandlers := p.mapEventHandlers.erase fd }.setCurEventMask h 0).handlers
          h).sockHandle = some fd := by
        rw [setCurEventMask, modify_self]
        exact hfd
      simp only [sockClose, hfd']
      refine ⟨?_, ?_, (if_neg hwatched).symm, fun h' hne => ?_, 0, ?_⟩
      · show Function.update kernel.opened fd none = _
        rw [hopened]
      · show Function.update kernel.interest fd none = _
        rw [hinterest, Function.update_idem]
      · rw [modify_of_ne _ hne]
        show (PollerEpoll.setCurEventMask _ h 0).handlers h' = _
        rw [setCurEventMask, modify_of_ne _ hne]
      · rw [modify_self]
        show { (PollerEpoll.setCurEventMask _ h 0).handlers h with sockHandle := none } = _
        rw [setCurEventMask, modify_self]

theorem close_none (hfd : (p.handlers h).sockHandle = none) : p.close h = p := by
  unfold close delEvent
  rw [hfd]
  simp only [sockClose, hfd]

end PollerEpoll
end MqttServer
