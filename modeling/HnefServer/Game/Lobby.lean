import HnefServer.Game.Room
import HnefServer.Network.Client

/-!
# The lobby

`Lobby` owns the rooms.  An iterator of the room vector is a position, `end()` being the length
of the vector; `Lobby.deref` faults on `end()`.  The part of `Lobby::destroyRoom` that changes
the two clients is in `HnefServer.Network.ClientManager`, which owns them.
-/

namespace HnefServer

structure Lobby where
  /-- Current ongoing games. -/
  games : List RoomHnefatafl
  /-- Count of rooms ever created. -/
  roomsTotal : ℕ

namespace Lobby

def create : Lobby := ⟨[], 0⟩

variable (l : Lobby)

/-- Position of the first room with the given id. -/
def getRoomById (id : ℕ) : ℕ := l.games.findIdx fun r => r.roomId == id

/-- The room an iterator points to. -/
def deref (itr : ℕ) : Except Fault RoomHnefatafl :=
  match l.games[itr]? with
  | some r => .ok r
  | none => .error .noRoom

def createRoom (client1 client2 : Text) : Lobby × ℕ :=
  let id := l.roomsTotal + 1
  (⟨l.games ++ [RoomHnefatafl.create id client1 client2], id⟩, id)

/-- `games.erase(itr)`. -/
def eraseRoom (itr : ℕ) : Except Fault Lobby :=
  if itr < l.games.length then .ok { l with games := l.games.eraseIdx itr } else .error .noRoom

def moveInRoom (id : ℕ) (coordinates : Text) : Except Fault (Lobby × Bool) := do
  let itr := l.getRoomById id
  let room ← l.deref itr
  let (room, moved) ← room.processMove coordinates
  return ({ l with games := l.games.set itr room }, moved)

def getOpponentOf (client : Client) : Except Fault Text := do
  let room ← l.deref (l.getRoomById client.roomId)
  return if client.nick = room.onTurn then room.onStand else room.onTurn

def getRoomStatus (id : ℕ) : Except Fault GameState := do
  let room ← l.deref (l.getRoomById id)
  return room.gameState

def getNickofPlayerOnTurn (id : ℕ) : Except Fault Text := do
  let room ← l.deref (l.getRoomById id)
  return room.onTurn

def getNickofPlayerOnStand (id : ℕ) : Except Fault Text := do
  let room ← l.deref (l.getRoomById id)
  return room.onStand

def getPlayfieldString (id : ℕ) : Except Fault Text := do
  let room ← l.deref (l.getRoomById id)
  return room.getPlayfieldString

end Lobby

end HnefServer
