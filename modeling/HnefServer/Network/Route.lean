import HnefServer.Network.Server

/-!
# Routing one frame

The request queue of a frame has its key and, if it has one, its value.  `handleFrame` is what
`routeRequest` does with such a queue, with the frame as data: the tests of the key are gone,
the tests of the state are `Frame.acceptedIn`.
-/

namespace HnefServer

open Protocol

/-- The states in which `routeRequest` handles a frame. -/
def Frame.acceptedIn : Frame → State → Bool
  | .ping, _ | .pong, _ | .connect _, _ => true
  | .ready, s => s == .waiting || s == .pinged
  | .move _, s => s == .playingOnTurn || s == .pinged
  | .leave, s | .chat _, s => s == .playingOnTurn || s == .playingOnStand || s == .pinged
  | .ok, _ => false

namespace ClientManager

variable (m : ClientManager)

/-- Handle a frame that is accepted in the state of its client. -/
def serveFrame (client : ℕ) (state : State) : Frame → Except Fault (ClientManager × ℤ)
  | .ping => .ok (m.requestPing client state)
  | .pong => .ok (m.requestPong client)
  | .connect nick => m.requestConnect client nick.text state
  | .ready => .ok (m.requestReady client)
  | .move coordinates => m.requestMove client coordinates.text
  | .leave => m.requestLeave client
  | .chat msg => m.requestChat client msg.text
  | .ok => .ok (m, -1)

/-- Handle one frame; the second component is the return value of the request. -/
def handleFrame (client : ℕ) (d : Frame) : Except Fault (ClientManager × ℤ) := do
  let c ← m.deref client
  if d.acceptedIn c.state then m.serveFrame client c.state d else return (m, -1)

variable {m} {client : ℕ}

/-- **Routing the queue of one frame** handles the frame.  If it was accepted, the queue is
empty afterwards; `front()` and `pop()` are never called on an empty queue. -/
theorem routeRequest_request (d : Frame) (processed : ℤ) :
    routeRequest client m d.request processed = do
      let c ← m.deref client
      if d.acceptedIn c.state then
        (m.serveFrame client c.state d).map fun p => (p.1, p.2, [])
      else return (m, -1, d.request) := by
  cases hc : m.deref client with
  | error f => cases d <;> simp [Frame.request, Frame.value, routeRequest, hc]
  | ok c =>
    cases d with
    | ping | pong | ok =>
      simp [Frame.request, Frame.value, Frame.key, routeRequest, hc, Frame.acceptedIn, serveFrame,
        OP_PING, OP_PONG, CC_CONN, CC_READY, CC_MOVE, CC_LEAV, OP_CHAT, Except.map]
    | connect nick =>
      simp only [Frame.request, Frame.value, Frame.key, routeRequest, hc, ok_bind, if_true,
        Frame.acceptedIn, serveFrame]
      cases m.requestConnect client nick.text c.state <;> rfl
    | ready =>
      by_cases h : c.state = .waiting ∨ c.state = .pinged <;>
      simp [Frame.request, Frame.value, Frame.key, routeRequest, hc, Frame.acceptedIn, serveFrame,
        OP_PING, OP_PONG, CC_CONN, CC_READY, CC_MOVE, CC_LEAV, OP_CHAT, Except.map, h]
    | move coordinates =>
      by_cases h : c.state = .playingOnTurn ∨ c.state = .pinged
      · simp only [Frame.request, Frame.value, Frame.key, routeRequest, hc, ok_bind,
          Frame.acceptedIn, serveFrame, h, CC_MOVE, CC_CONN, CC_READY]
        cases m.requestMove client coordinates.text <;> simp [h, Except.map]
      · simp [Frame.request, Frame.value, Frame.key, routeRequest, hc, Frame.acceptedIn,
          OP_PING, OP_PONG, CC_CONN, CC_READY, CC_MOVE, CC_LEAV, OP_CHAT, h]
    | leave =>
      by_cases h : c.state = .playingOnTurn ∨ c.state = .playingOnStand ∨ c.state = .pinged
      · simp only [Frame.request, Frame.value, Frame.key, routeRequest, hc, ok_bind,
          Frame.acceptedIn, serveFrame, h, CC_MOVE, CC_CONN, CC_READY, CC_LEAV]
        cases m.requestLeave client <;> simp [h, Except.map, or_assoc]
      · simp [Frame.request, Frame.value, Frame.key, routeRequest, hc, Frame.acceptedIn,
          OP_PING, OP_PONG, CC_CONN, CC_READY, CC_MOVE, CC_LEAV, OP_CHAT, h, or_assoc]
    | chat msg =>
      by_cases h : c.state = .playingOnTurn ∨ c.state = .playingOnStand ∨ c.state = .pinged
      · simp only [Frame.request, Frame.value, Frame.key, routeRequest, hc, ok_bind,
          Frame.acceptedIn, serveFrame, h, OP_CHAT, OP_PING, OP_PONG, CC_MOVE, CC_CONN, CC_READY,
          CC_LEAV]
        cases m.requestChat client msg.text <;> simp [h, Except.map, or_assoc]
      · simp [Frame.request, Frame.value, Frame.key, routeRequest, hc, Frame.acceptedIn,
          OP_PING, OP_PONG, CC_CONN, CC_READY, CC_MOVE, CC_LEAV, OP_CHAT, h, or_assoc]

/-- Routing one frame, without the queue. -/
theorem routeRequest_map_fst (d : Frame) :
    (routeRequest client m d.request 0).map (fun p => p.1) =
      (m.handleFrame client d).map fun p => p.1 := by
  rw [routeRequest_request, handleFrame]
  cases m.deref client with
  | error f => rfl
  | ok c =>
    simp only [ok_bind]
    split_ifs
    · cases m.serveFrame client c.state d <;> rfl
    · rfl

end ClientManager

end HnefServer
