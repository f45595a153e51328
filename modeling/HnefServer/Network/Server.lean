import HnefServer.Network.ClientManager

/-!
# The server

`Server` adds the connections to the client manager: the descriptors watched by `select`, and
the limits.  `server` is its transition system.  The mutex makes a pass of
`Server::updateClients` and a round of the pinging thread atomic with respect to each other; a
pass is a sequence of the finer steps below (`Input`), each of which handles one event.
-/

namespace HnefServer

open Protocol

structure Server where
  mngClient : ClientManager
  /-- Maximum count of connected clients, plus one for the client who is told that the server
  is full. -/
  maxClients : ℕ
  /-- Maximum count of game rooms. -/
  maxRooms : ℕ
  /-- Descriptors watched by `select`. -/
  sockets : List ℤ
  serverSocket : ℤ
  isRunning : Bool

/-- `FD_SET(fd, &fds)`. -/
def FD_SET (fd : ℤ) (fds : List ℤ) : List ℤ := if fd ∈ fds then fds else fd :: fds

/-- `FD_CLR(fd, &fds)`. -/
def FD_CLR (fd : ℤ) (fds : List ℤ) : List ℤ := fds.filter (· ≠ fd)

namespace ClientManager

/-- The body of the loop of `Server::pingClients`, for one client. -/
def pingClient (m : ClientManager) (cli : ℕ) : Except Fault ClientManager := do
  let c ← m.deref cli
  -- erase a client without name, unless the instance was disconnected already
  if c.state ≠ .new ∧ c.nick = [] ∧ c.socketNum > 0 then
    return m.modify cli fun c => (c.setFlagToDisconnect true).setFlagToErase true
  else if c.state = .pinged then
    let m := (m.sendToClient cli OP_PING).modify cli (·.setState .lost)
    if (← m.deref cli).stateLast.inGame then m.sendToOpponentOf cli SC_OPN_LOST else return m
  else if c.state = .lost then
    return (m.sendToClient cli SC_KICK).modify cli (·.setFlagToDisconnect true)
  else if c.state = .disconnected then
    let m := m.modify cli (·.decreaseInaccessCount)
    if (← m.deref cli).cntrPings = 0 then return m.modify cli (·.setFlagToErase true)
    else return m
  else return (m.sendToClient cli OP_PING).modify cli (·.setState .pinged)

/-- One round of the pinging thread. -/
def pingClients (m : ClientManager) : Except Fault ClientManager :=
  (List.range m.clients.length).foldlM pingClient m

end ClientManager

namespace Server

/-- A server that has been set up with the given limits. -/
def create (clients rooms : ℕ) (serverSocket : ℤ) : Server where
  mngClient := ClientManager.create
  maxClients := clients + 1
  maxRooms := rooms
  sockets := [serverSocket]
  serverSocket := serverSocket
  isRunning := true

variable (s : Server)

/-- Run a method of the client manager. -/
def manage (x : Except Fault ClientManager) : Except Fault Server := do
  let mngClient ← x
  return { s with mngClient }

def closeConnection (client : ℕ) : Except Fault Server := do
  let c ← s.mngClient.deref client
  if c.socketNum < 0 then return s
  else
    let m := (s.mngClient.setDisconnected client).setBadSocket client (-42)
    let s := { s with sockets := FD_CLR c.socketNum s.sockets, mngClient := m }
    -- if the client was playing, tell the opponent about the disconnection
    if (← m.deref client).stateLast.inGame then s.manage (m.sendToOpponentOf client SC_OPN_DISC)
    else return s

/-- Accept a connection; `accept` answered `fd`, for a peer with address `ip`. -/
def acceptConnection (ip : Text) (fd : ℤ) : Server :=
  if fd > 0 then
    { s with sockets := FD_SET fd s.sockets, mngClient := s.mngClient.createClient ip fd }
  else s

def refuseConnection : Except Fault Server := do
  let newClient := s.mngClient.clients.length - 1
  let s := { s with mngClient := s.mngClient.sendToClient newClient SC_MANY_CLNT }
  let s ← s.closeConnection newClient
  s.manage (s.mngClient.eraseClient newClient)

/-- The check of the capacity in `updateClients`. -/
def checkCapacity : Except Fault Server :=
  if s.mngClient.clients.length = s.maxClients then
    if s.mngClient.isDisconnectedClient then
      .ok { s with mngClient := s.mngClient.eraseLongestDisconnectedClient }
    else s.refuseConnection
  else .ok s

/-- The part of the loop of `updateClients` that handles the flags of one client: the client is
examined again after its connection was closed. -/
def processFlags (cli : ℕ) : Except Fault Server := do
  let c ← s.mngClient.deref cli
  let s ← (if c.flagToDisconnect then do
      let s ← s.closeConnection cli
      return { s with mngClient := s.mngClient.modify cli (·.setFlagToDisconnect false) }
    else .ok s)
  let c ← s.mngClient.deref cli
  if c.flagToErase then s.manage (s.mngClient.eraseClient cli) else return s

/-- Close a connection after telling the client that it violated the protocol. -/
def kick (cli : ℕ) : Except Fault Server :=
  { s with mngClient := s.mngClient.sendToClient cli SC_KICK }.closeConnection cli

/-- The loop of `closeClientSockets`; the vector gets shorter in every iteration, so its length
is enough fuel. -/
def closeClientSockets : ℕ → Server → Except Fault Server
  | 0, s => .ok s
  | fuel + 1, s =>
    if s.mngClient.clients = [] then .ok s
    else do
      let s := { s with mngClient := s.mngClient.sendToClient 0 SC_SHDW }
      let s ← s.closeConnection 0
      let s ← s.manage (s.mngClient.eraseClient 0)
      closeClientSockets fuel s

def shutdown : Except Fault Server := do
  let s ← closeClientSockets s.mngClient.clients.length s
  return { s with sockets := FD_CLR s.serverSocket s.sockets, isRunning := false }

end Server

/-- The events the server handles. -/
inductive Input
  /-- `accept` answers `fd`; the check of the capacity follows at once. -/
  | accept (ip : Text) (fd : ℤ)
  /-- One frame of the client at a position. -/
  | frame (client : ℕ) (d : Frame)
  /-- The connection of a client is closed. -/
  | close (client : ℕ)
  /-- A client is kicked for violating the protocol. -/
  | kick (client : ℕ)
  /-- The flags of a client are processed. -/
  | flags (client : ℕ)
  /-- The Ready clients are sent to play. -/
  | pair
  /-- A round of the pinging thread. -/
  | ping
  | shutdown
  deriving DecidableEq

namespace Server

/-- The client at a position has an open connection. -/
def Connected (s : Server) (client : ℕ) : Prop :=
  ∃ c, s.mngClient.clients[client]? = some c ∧ 0 ≤ c.socketNum

instance (s : Server) (client : ℕ) : Decidable (s.Connected client) :=
  match h : s.mngClient.clients[client]? with
  | some c => decidable_of_iff (0 ≤ c.socketNum) (by simp [Connected, h])
  | none => isFalse (by simp [Connected, h])

/-- The events that can happen: `accept` never answers a descriptor that is still open. -/
def guard (s : Server) : Input → Prop
  | .accept _ fd => s.isRunning ∧ fd ∉ s.sockets
  | .frame client _ | .close client | .kick client => s.isRunning ∧ s.Connected client
  | .flags client => s.isRunning ∧ client < s.mngClient.clients.length
  | .pair | .ping | .shutdown => s.isRunning

instance (s : Server) : (l : Input) → Decidable (s.guard l)
  | .accept _ fd => inferInstanceAs (Decidable (s.isRunning ∧ fd ∉ s.sockets))
  | .frame client _ => inferInstanceAs (Decidable (s.isRunning ∧ s.Connected client))
  | .close client => inferInstanceAs (Decidable (s.isRunning ∧ s.Connected client))
  | .kick client => inferInstanceAs (Decidable (s.isRunning ∧ s.Connected client))
  | .flags client =>
    inferInstanceAs (Decidable (s.isRunning ∧ client < s.mngClient.clients.length))
  | .pair => inferInstanceAs (Decidable (s.isRunning = true))
  | .ping => inferInstanceAs (Decidable (s.isRunning = true))
  | .shutdown => inferInstanceAs (Decidable (s.isRunning = true))

/-- Handle one event in a server whose log of sent frames is empty. -/
def handle (s : Server) : Input → Except Fault Server
  | .accept ip fd => (s.acceptConnection ip fd).checkCapacity
  | .frame client d =>
    s.manage ((s.mngClient.routeRequest client d.request 0).map fun p => p.1)
  | .close client => s.closeConnection client
  | .kick client => s.kick client
  | .flags client => s.processFlags client
  | .pair => s.manage s.mngClient.moveReadyClientsToPlay
  | .ping => s.manage s.mngClient.pingClients
  | .shutdown => s.shutdown

/-- Start the log of sent frames anew. -/
def clearSent (s : Server) : Server := { s with mngClient := { s.mngClient with sent := [] } }

end Server

/-- The server as a transition system. -/
def server : System Server Input Fault where
  guard := Server.guard
  exec s l := s.clearSent.handle l

instance (s : Server) (l : Input) : Decidable (server.guard s l) :=
  inferInstanceAs (Decidable (s.guard l))

/-- The states a server with the given limits can reach. -/
def Server.Reachable (clients rooms : ℕ) (serverSocket : ℤ) (s : Server) : Prop :=
  server.Reachable (Server.create clients rooms serverSocket) s

namespace Server

/-- A replayed run whose end passes a test. -/
theorem exists_reachable {clients rooms : ℕ} {fd : ℤ} {run : List Input} {test : Server → Bool}
    (h : (server.replay (fun _ _ => True) (create clients rooms fd) run).any test = true) :
    ∃ s, Server.Reachable clients rooms fd s ∧ test s = true :=
  System.exists_reachableIf h

def alice : Nick := ⟨"alice".toList, by decide, by decide, by simp [isWordChar]⟩

def bobby : Nick := ⟨"bobby".toList, by decide, by decide, by simp [isWordChar]⟩

/-- Two clients connect, get ready and are sent to play: `alice` has the black stones. -/
def firstGame : List Input :=
  [.accept "10.0.0.4".toList 4, .accept "10.0.0.5".toList 5, .frame 0 (.connect alice),
    .frame 1 (.connect bobby), .frame 0 .ready, .frame 1 .ready, .pair]

end Server

end HnefServer
