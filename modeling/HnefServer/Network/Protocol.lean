import HnefServer.Data.Text

/-!
# Protocol

Operation codes of the messages, and the frames a client may send: `Frame` has one constructor
for each alternative of the server regex, with the payload restricted as the regex restricts
it.
-/

namespace HnefServer

namespace Protocol

def OP_SOH : Text := "\x7b".toList
def OP_EOT : Text := "\x7d".toList
def OP_SEP : Text := ",".toList
def OP_INI : Text := ":".toList
def OP_PING : Text := ">".toList
def OP_PONG : Text := "<".toList

def OP_CHAT : Text := "ch".toList

def CC_CONN : Text := "c".toList
def CC_READY : Text := "rd".toList
def CC_MOVE : Text := "m".toList
def CC_LEAV : Text := "l".toList

def SC_RESP_CONN : Text := "rc".toList
def SC_RESP_RECN : Text := "rr".toList
def SC_RESP_LEAVE : Text := "rl".toList
def SC_IN_LOBBY : Text := "il".toList
def SC_IN_GAME : Text := "ig".toList
def SC_MV_VALID : Text := "mv".toList
def SC_TURN_YOU : Text := "ty".toList
def SC_TURN_OPN : Text := "to".toList
def SC_PLAYFIELD : Text := "pf".toList
def SC_GO_WIN : Text := "gw".toList
def SC_GO_LOSS : Text := "gl".toList
def SC_OPN_NAME : Text := "on".toList
def SC_OPN_MOVE : Text := "om".toList
def SC_OPN_LEAVE : Text := "ol".toList
def SC_OPN_LOST : Text := "os".toList
def SC_OPN_DISC : Text := "od".toList
def SC_OPN_RECN : Text := "or".toList
def SC_OPN_GONE : Text := "og".toList
def SC_MANY_CLNT : Text := "t".toList
def SC_NICK_USED : Text := "u".toList
def SC_KICK : Text := "k".toList
def SC_SHDW : Text := "s".toList

end Protocol

/-- The class `\w`. -/
def isWordChar (c : Char) : Bool := c.isAlphanum || c == '_'

/-- The class `[a-zA-Z0-9\s.!?]`. -/
def isChatChar (c : Char) : Bool :=
  c.isAlphanum || Text.isSpace c || c == '.' || c == '!' || c == '?'

/-- A text of `lo` to `hi` characters, all of a given class. -/
structure Payload (p : Char → Bool) (lo hi : ℕ) where
  text : Text
  lower : lo ≤ text.length
  upper : text.length ≤ hi
  chars : ∀ c ∈ text, p c = true
  deriving DecidableEq

abbrev Nick := Payload isWordChar 3 20

abbrev Coordinates := Payload Char.isDigit 8 8

abbrev ChatText := Payload isChatChar 1 100

/-- The content of a frame the server accepts. -/
inductive Frame
  | ping
  | pong
  | connect (nick : Nick)
  | ready
  | move (coordinates : Coordinates)
  | leave
  | ok
  | chat (msg : ChatText)
  deriving DecidableEq

namespace Frame

open Protocol

/-- The part of a frame before the colon. -/
def key : Frame → Text
  | ping => OP_PING
  | pong => OP_PONG
  | connect _ => CC_CONN
  | ready => CC_READY
  | move _ => CC_MOVE
  | leave => CC_LEAV
  | ok => "ok".toList
  | chat _ => OP_CHAT

/-- The part of a frame after the colon, if there is one. -/
def value : Frame → Option Text
  | connect nick => some nick.text
  | move coordinates => some coordinates.text
  | chat msg => some msg.text
  | _ => none

/-- The text of a frame between the braces. -/
def text (d : Frame) : Text :=
  match d.value with
  | none => d.key
  | some v => d.key ++ OP_INI ++ v

/-- The elements a frame puts into the request queue. -/
def request (d : Frame) : List Text :=
  match d.value with
  | none => [d.key]
  | some v => [d.key, v]

/-- The frames only players send. -/
def ofPlayer : Frame → Bool
  | move _ | leave | chat _ => true
  | _ => false

end Frame

theorem Nick.ne_nil (n : Nick) : n.text ≠ [] := by
  have := n.lower
  intro h
  simp [h] at this

end HnefServer
