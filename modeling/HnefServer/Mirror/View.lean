import HnefServer.Data.Pointwise
import HnefServer.Game.Rules
import HnefServer.Network.Message

/-!
# What a client knows

A client knows the frames it got and the moves it asked for.  `News.read` is what a frame says,
`Mirror.receive` what the client concludes from it: whether it is in the lobby or in a game, whose
turn it is, and the board, on which it makes the moves of both players by the rules of the game.
-/

namespace HnefServer

open Protocol

/-- What a client believes. -/
inductive View
  /-- It has no name yet. -/
  | outside
  | lobby
  | game (turn : Bool) (board : Playfield)

/-- What a frame says about the place of its receiver. -/
inductive News
  | inLobby
  | inGame (turn : Bool) (board : Playfield)
  /-- The move the client asked for is valid. -/
  | valid
  /-- The opponent has moved. -/
  | moved (coordinates : Text)
  /-- Nothing. -/
  | other

/-- The board at the end of a reconnection message. -/
def boardOf (msg : Text) : Playfield := fun q =>
  (fieldAt (msg.drop (msg.length - 121)) q).getD .fEmpty

/-- The frames that send their receiver to the lobby. -/
def lobbyMsgs : List Text :=
  [SC_IN_LOBBY, ClientManager.composeMsgInLobbyRecn, SC_RESP_LEAVE, SC_OPN_LEAVE, SC_OPN_GONE,
    SC_GO_WIN, SC_GO_LOSS]

/-- Reads a frame without its braces. -/
def News.read (msg : Text) : News :=
  if msg ∈ lobbyMsgs then .inLobby
  else if msg = SC_MV_VALID then .valid
  else if (SC_OPN_MOVE ++ OP_INI).isPrefixOf msg then .moved (msg.drop 3)
  else if (SC_IN_GAME ++ OP_SEP ++ SC_TURN_YOU).isPrefixOf msg then .inGame true Playfield.start
  else if (SC_IN_GAME ++ OP_SEP ++ SC_TURN_OPN).isPrefixOf msg then .inGame false Playfield.start
  else if (SC_RESP_RECN ++ OP_SEP ++ SC_IN_GAME ++ OP_SEP ++ SC_TURN_YOU).isPrefixOf msg then
    .inGame true (boardOf msg)
  else if (SC_RESP_RECN ++ OP_SEP ++ SC_IN_GAME ++ OP_SEP ++ SC_TURN_OPN).isPrefixOf msg then
    .inGame false (boardOf msg)
  else .other

/-- The board after the move a text names. -/
def Playfield.played (pf : Playfield) (t : Text) : Playfield :=
  match squaresOf t with
  | some (p, q) => pf.after p q
  | none => pf

/-- What a client keeps: what it believes, and the move it asked for last. -/
structure Mirror where
  view : View
  asked : Option Text

namespace Mirror

/-- A client that has just connected. -/
def fresh : Mirror := ⟨.outside, none⟩

def ask (t : Text) (v : Mirror) : Mirror := { v with asked := some t }

/-- What the client concludes from a frame. -/
def receive (v : Mirror) (msg : Text) : Mirror :=
  match News.read msg with
  | .inLobby => { v with view := .lobby }
  | .inGame turn board => { v with view := .game turn board }
  | .valid =>
    match v.view, v.asked with
    | .game true pf, some t => { v with view := .game false (pf.played t) }
    | _, _ => v
  | .moved t =>
    match v.view with
    | .game false pf => { v with view := .game true (pf.played t) }
    | _ => v
  | .other => v

/-- Several frames, one after the other. -/
def receiveAll (v : Mirror) (msgs : List Text) : Mirror := msgs.foldl receive v

end Mirror

/-! ### Reading -/

namespace News

theorem read_lobby {msg : Text} (h : msg ∈ lobbyMsgs) : read msg = .inLobby := if_pos h

theorem read_valid : read SC_MV_VALID = .valid := rfl

theorem read_moved (t : Text) : read (SC_OPN_MOVE ++ OP_INI ++ t) = .moved t := rfl

theorem read_inGame (turn : Bool) (nick : Text) :
    read (ClientManager.composeMsgInGame (if turn then SC_TURN_YOU else SC_TURN_OPN) nick) =
      .inGame turn Playfield.start := by
  cases turn <;> rfl

theorem read_chat (t : Text) : read (OP_CHAT ++ OP_INI ++ t) = .other := rfl

/-- The other frames say nothing about the place of their receiver. -/
theorem read_other {msg : Text} (h : msg ∈ [OP_PING, OP_PONG, SC_RESP_CONN, SC_OPN_LOST,
    SC_OPN_DISC, SC_OPN_RECN, SC_MANY_CLNT, SC_NICK_USED, SC_KICK, SC_SHDW]) :
    read msg = .other := by
  simp only [List.mem_cons, List.not_mem_nil, or_false] at h
  rcases h with rfl | rfl | rfl | rfl | rfl | rfl | rfl | rfl | rfl | rfl <;> rfl

theorem boardOf_backInGame (turn nick : Text) (r : RoomHnefatafl) :
    boardOf (backInGame turn nick r.getPlayfieldString) = r.pf := by
  funext q
  have hlen := r.length_getPlayfieldString
  have hdrop : (backInGame turn nick r.getPlayfieldString).drop
      ((backInGame turn nick r.getPlayfieldString).length - 121) = r.getPlayfieldString := by
    rw [backInGame, List.length_append, hlen, Nat.add_sub_cancel, List.drop_left]
  rw [boardOf, hdrop, r.fieldAt_getPlayfieldString, Option.getD_some]

theorem read_inGameRecn (turn : Bool) (nick : Text) (r : RoomHnefatafl) :
    read (backInGame (if turn then SC_TURN_YOU else SC_TURN_OPN) nick r.getPlayfieldString) =
      .inGame turn r.pf := by
  have hboard := boardOf_backInGame (if turn then SC_TURN_YOU else SC_TURN_OPN) nick r
  rw [← hboard]
  cases turn <;> rfl

end News

end HnefServer
