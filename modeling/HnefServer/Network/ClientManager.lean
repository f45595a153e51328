import HnefServer.Game.Lobby
import HnefServer.Network.Protocol

/-!
# The client manager

`ClientManager` owns the clients and the lobby and handles the requests.  An iterator of the
client vector, and a reference to a client, is a position; `end()` is the length of the vector,
and `ClientManager.deref` faults on it.

Every frame handed to `sendToClient` is recorded in `sent`, with the position of its receiver;
how much of it the socket accepts has no effect on the state of the manager.
-/

namespace HnefServer

open Protocol

structure ClientManager where
  lobby : Lobby
  clients : List Client
  /-- Increased after creating new client instance. -/
  cli_connected : ℕ
  /-- Increased after closing client connection. -/
  cli_disconnected : ℕ
  /-- Increased after client reconnect from both short and long inaccessibility. -/
  cli_reconnected : ℕ
  /-- The frames handed to `sendToClient`, each with its receiver. -/
  sent : List (ℕ × Text)

namespace ClientManager

def create : ClientManager := ⟨Lobby.create, [], 0, 0, 0, []⟩

variable (m : ClientManager)

/-- The client an iterator points to. -/
def deref (cli : ℕ) : Except Fault Client :=
  match m.clients[cli]? with
  | some c => .ok c
  | none => .error .noClient

/-- Call a method of the client an iterator points to. -/
def modify (cli : ℕ) (f : Client → Client) : ClientManager :=
  { m with clients := m.clients.modify cli f }

/-! ### Finding clients -/

def findClientByNick (nick : Text) : ℕ := m.clients.findIdx fun c => c.nick == nick

def findClientByNickAndIp (nick ip : Text) : ℕ :=
  m.clients.findIdx fun c => c.nick == nick && c.ipAddress == ip

def isDisconnectedClient : Bool := m.clients.any fun c => c.state == .disconnected

/-! ### Sending -/

def sendToClient (client : ℕ) (msg : Text) : ClientManager :=
  { m with sent := m.sent ++ [(client, msg)] }

@[simp] theorem clients_sendToClient (client : ℕ) (msg : Text) :
    (m.sendToClient client msg).clients = m.clients := rfl

def sendToOpponentOf (client : ℕ) (msg : Text) : Except Fault ClientManager := do
  let nick_opponent ← m.lobby.getOpponentOf (← m.deref client)
  let opponent := m.findClientByNick nick_opponent
  if opponent = m.clients.length then return m
  else
    let o ← m.deref opponent
    -- no message to a client who is disconnected
    if o.state = .disconnected then return m else return m.sendToClient opponent msg

/-! ### Composers -/

def composeMsgInGame (turn nick : Text) : Text :=
  SC_IN_GAME ++ OP_SEP ++ turn ++ OP_SEP ++ SC_OPN_NAME ++ OP_INI ++ nick

def composeMsgInGameRecn (client : Client) : Except Fault Text := do
  let opponent ← m.lobby.getOpponentOf client
  let playfield ← m.lobby.getPlayfieldString client.roomId
  return SC_RESP_RECN ++ OP_SEP ++ SC_IN_GAME ++ OP_SEP ++
    (if client.state = .playingOnTurn then SC_TURN_YOU else SC_TURN_OPN) ++ OP_SEP ++
    SC_OPN_NAME ++ OP_INI ++ opponent ++ OP_SEP ++ SC_PLAYFIELD ++ OP_INI ++ playfield

def composeMsgInLobbyRecn : Text := SC_RESP_RECN ++ OP_SEP ++ SC_IN_LOBBY

/-! ### Rooms -/

/-- The part of `Lobby::destroyRoom` that moves one player to the lobby: `state` is the state
the player had when the function was entered. -/
def toWaiting (state : State) (c : Client) : Client :=
  if state.inaccessible then c.setStateLast .waiting else c.setState .waiting

/-- `Lobby::destroyRoom`, on the two clients it gets by reference. -/
def destroyRoom (id client1 client2 : ℕ) : Except Fault ClientManager := do
  let stateClient1 := (← m.deref client1).state
  let stateClient2 := (← m.deref client2).state
  let m := m.modify client1 (toWaiting stateClient1)
  let m := m.modify client2 (toWaiting stateClient2)
  -- erase the room only when the client is not in the lobby
  let lobby ← (if id ≠ 0 then m.lobby.eraseRoom (m.lobby.getRoomById id) else .ok m.lobby)
  let m := { m with lobby }
  return (m.modify client1 (·.setRoomId 0)).modify client2 (·.setRoomId 0)

/-- Sets id and state of the clients who start to play. -/
def startGame (id cli1 cli2 : ℕ) : Except Fault ClientManager := do
  let m := (m.modify cli1 (·.setRoomId id)).modify cli2 (·.setRoomId id)
  let m := (m.modify cli1 (·.setState .playingOnTurn)).modify cli2 (·.setState .playingOnStand)
  let m := m.sendToClient cli1 (composeMsgInGame SC_TURN_YOU (← m.deref cli2).nick)
  return m.sendToClient cli2 (composeMsgInGame SC_TURN_OPN (← m.deref cli1).nick)

/-- Position of the first Ready client from position `cli` on. -/
def nextReady (cli : ℕ) : ℕ := cli + (m.clients.drop cli).findIdx fun c => c.state == .ready

/-- The outer loop of `moveReadyClientsToPlay`, from position `cli1` on.  The position grows in
every iteration, so the length of the vector is enough fuel. -/
def pairLoop : ℕ → ClientManager → ℕ → Except Fault ClientManager
  | 0, m, _ => .ok m
  | fuel + 1, m, cli1 =>
    if cli1 < m.clients.length then do
      let c1 ← m.deref cli1
      let cli2 := m.nextReady (cli1 + 1)
      if c1.state = .ready ∧ cli2 < m.clients.length then
        let (lobby, roomId) := m.lobby.createRoom c1.nick (← m.deref cli2).nick
        let m ← { m with lobby }.startGame roomId cli1 cli2
        -- continue from the position next to the second client
        pairLoop fuel m (cli2 + 1)
      else pairLoop fuel m (cli1 + 1)
    else .ok m

/-- Finds every two Ready clients and sends them to play a game. -/
def moveReadyClientsToPlay : Except Fault ClientManager := pairLoop m.clients.length m 0

/-! ### Requests -/

/-- The part of `handleReconnection` that tells a client where it is back, and its opponent. -/
def reportReconnection (client : ℕ) : Except Fault ClientManager := do
  let c ← m.deref client
  let m ← (if c.roomId = 0 then .ok (m.sendToClient client composeMsgInLobbyRecn)
    else do
      let msg ← m.composeMsgInGameRecn c
      (m.sendToClient client msg).sendToOpponentOf client SC_OPN_RECN)
  return { m with cli_reconnected := m.cli_reconnected + 1 }

def handleReconnection (client clientOtherIpaddr : ℕ) (nick : Text) :
    Except Fault ClientManager := do
  let other ← m.deref clientOtherIpaddr
  match other.state with
  | .waiting | .playingOnTurn | .playingOnStand => return m.sendToClient client SC_NICK_USED
  -- short inaccessibility reconnection
  | .pinged | .lost => (m.modify client fun c => c.setState c.stateLast).reportReconnection client
  -- long inaccessibility reconnection, stealing from the expired instance
  | .new | .ready | .disconnected =>
    let m := m.modify client (·.setNick nick)
    let stateLast := (← m.deref clientOtherIpaddr).stateLast
    let m := m.modify client (·.setState stateLast)
    let roomId := (← m.deref clientOtherIpaddr).roomId
    let m := m.modify client fun c => (c.setRoomId roomId).resetInaccessCount
    let m := m.modify clientOtherIpaddr fun c => (c.setNick []).setFlagToErase true
    m.reportReconnection client

/-- The second component is the return value: `0` on success, else `-1`. -/
def requestConnect (client : ℕ) (nick : Text) (state : State) :
    Except Fault (ClientManager × ℤ) := do
  let clientNone := m.clients.length
  let c ← m.deref client
  let clientOtherNick := m.findClientByNick nick
  let clientOtherIpaddr := m.findClientByNickAndIp nick c.ipAddress
  if clientOtherNick = clientNone then
    if c.stateLast = .new ∧ (state = .new ∨ state = .pinged ∨ state = .lost ∨
        state = .disconnected) then
      let m := m.modify client fun c => ((c.setNick nick).setState .waiting).setStateLast .waiting
      return ((m.sendToClient client SC_RESP_CONN).sendToClient client SC_IN_LOBBY, 0)
    else return (m, -1)
  else if clientOtherIpaddr = clientNone then return (m.sendToClient client SC_NICK_USED, 0)
  else return (← m.handleReconnection client clientOtherIpaddr nick, 0)

def requestReady (client : ℕ) : ClientManager × ℤ := (m.modify client (·.setState .ready), 0)

/-- The part of `requestMove` after the room has made the move: the room has already swapped
its players. -/
def afterMove (roomId : ℕ) (coordinates : Text) : Except Fault ClientManager := do
  let nickOnTurn ← m.lobby.getNickofPlayerOnTurn roomId
  let nickOnStand ← m.lobby.getNickofPlayerOnStand roomId
  let onTurn := m.findClientByNick nickOnTurn
  let onStand := m.findClientByNick nickOnStand
  let t ← m.deref onTurn
  let m := m.modify onTurn fun c =>
    if t.state.inaccessible then c.setStateLast .playingOnTurn else c.setState .playingOnTurn
  let _ ← m.deref onStand
  let m := m.modify onStand (·.setState .playingOnStand)
  let m := m.sendToClient onStand SC_MV_VALID
  let m := m.sendToClient onTurn (SC_OPN_MOVE ++ OP_INI ++ coordinates)
  if (← m.lobby.getRoomStatus roomId) = .gameover then
    -- the winner did the last move, so the looser is now on turn
    let m := m.sendToClient onTurn SC_GO_LOSS
    let m := m.sendToClient onStand SC_GO_WIN
    m.destroyRoom roomId onTurn onStand
  else return m

def requestMove (client : ℕ) (coordinates : Text) : Except Fault (ClientManager × ℤ) := do
  let roomId := (← m.deref client).roomId
  let (lobby, moved) ← m.lobby.moveInRoom roomId coordinates
  let m := { m with lobby }
  if moved then return (← m.afterMove roomId coordinates, 0) else return (m, -1)

def requestLeave (client : ℕ) : Except Fault (ClientManager × ℤ) := do
  let m := m.sendToClient client SC_RESP_LEAVE
  let m ← m.sendToOpponentOf client SC_OPN_LEAVE
  let c ← m.deref client
  let opponent := m.findClientByNick (← m.lobby.getOpponentOf c)
  return (← m.destroyRoom c.roomId client opponent, 0)

def requestPing (client : ℕ) (state : State) : ClientManager × ℤ :=
  let m := if state = .pinged ∨ state = .lost then m.modify client fun c => c.setState c.stateLast
    else m
  (m.sendToClient client OP_PONG, 0)

def requestPong (client : ℕ) : ClientManager × ℤ :=
  (m.modify client fun c => c.setState c.stateLast, 0)

def requestChat (client : ℕ) (msg : Text) : Except Fault (ClientManager × ℤ) := do
  return (← m.sendToOpponentOf client (OP_CHAT ++ OP_INI ++ msg), 0)

/-- The loop of `routeRequest`, `processed` being the result so far.  The queue is passed by
reference: the last component is what is left of it. -/
def routeRequest (client : ℕ) :
    ClientManager → List Text → ℤ → Except Fault (ClientManager × ℤ × List Text)
  | m, [], processed => .ok (m, processed, [])
  | m, key :: rqst, _ => do
    let state := (← m.deref client).state
    if key = CC_CONN then
      match rqst with
      | [] => .error .emptyQueue
      | value :: rqst =>
        let (m, processed) ← m.requestConnect client value state
        routeRequest client m rqst processed
    else if key = CC_READY ∧ (state = .waiting ∨ state = .pinged) then
      let (m, processed) := m.requestReady client
      routeRequest client m rqst processed
    else if key = CC_MOVE ∧ (state = .playingOnTurn ∨ state = .pinged) then
      match rqst with
      | [] => .error .emptyQueue
      | value :: rqst =>
        let (m, processed) ← m.requestMove client value
        routeRequest client m rqst processed
    else if key = CC_LEAV ∧ (state = .playingOnTurn ∨ state = .playingOnStand ∨
        state = .pinged) then
      let (m, processed) ← m.requestLeave client
      routeRequest client m rqst processed
    else if key = OP_PING then
      let (m, processed) := m.requestPing client state
      routeRequest client m rqst processed
    else if key = OP_PONG then
      let (m, processed) := m.requestPong client
      routeRequest client m rqst processed
    else if key = OP_CHAT ∧ (state = .playingOnTurn ∨ state = .playingOnStand ∨
        state = .pinged) then
      match rqst with
      | [] => .error .emptyQueue
      | value :: rqst =>
        let (m, processed) ← m.requestChat client value
        routeRequest client m rqst processed
    -- violation of server logic: the loop breaks with the queue as it is
    else .ok (m, -1, key :: rqst)

/-! ### Creating and erasing clients -/

def createClient (ip : Text) (sock : ℤ) : ClientManager :=
  { m with cli_connected := m.cli_connected + 1, clients := m.clients ++ [Client.create ip sock] }

def eraseClient (client : ℕ) : Except Fault ClientManager := do
  let c ← m.deref client
  let m ← (if c.nick ≠ [] ∧ c.roomId ≠ 0 ∧ c.stateLast.inGame then do
      let opponent := m.findClientByNick (← m.lobby.getOpponentOf c)
      let o ← m.deref opponent
      let m := if o.state ≠ .disconnected then
          (m.sendToClient opponent SC_OPN_GONE).sendToClient client SC_IN_LOBBY
        else m
      m.destroyRoom c.roomId client opponent
    else .ok m)
  return { m with clients := m.clients.eraseIdx client }

/-- One step of the second loop of `eraseLongestDisconnectedClient`: `best` is the choice so
far, `i` the position of the client looked at. -/
def longerDisconnected (best : ℕ × Client) (i : ℕ) (c : Client) : ℕ × Client :=
  if c.state = .disconnected ∧ c.cntrPings < best.2.cntrPings then (i, c) else best

/-- The second loop, over the clients from position `i` on. -/
def longestLoop : ℕ × Client → ℕ → List Client → ℕ
  | best, _, [] => best.1
  | best, i, c :: cs => longestLoop (longerDisconnected best i c) (i + 1) cs

/-- The Disconnected client whose count of pings is the smallest, the first of these; `none`
when there is none. -/
def longestDisconnected : Option ℕ :=
  let first := m.clients.findIdx fun c => c.state == .disconnected
  match m.clients[first]? with
  | some c => some (longestLoop (first, c) (first + 1) (m.clients.drop (first + 1)))
  | none => none

def eraseLongestDisconnectedClient : ClientManager :=
  match m.longestDisconnected with
  | some cli => { m with clients := m.clients.eraseIdx cli }
  | none => m

def setDisconnected (client : ℕ) : ClientManager :=
  { m.modify client (·.setState .disconnected) with cli_disconnected := m.cli_disconnected + 1 }

def setBadSocket (client : ℕ) (badsock : ℤ) : ClientManager := m.modify client (·.setSocket badsock)

end ClientManager

end HnefServer
