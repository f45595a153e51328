import HnefServer.Data.Text
import Mathlib.Tactic.SplitIfs

/-!
# Client instances

A `Client` is the server's record of one client: its connection, its nick, the room it is in,
and two states.  `state` runs through the game states and through the three states of
inaccessibility (`Pinged`, `Lost`, `Disconnected`); `stateLast` keeps the state a client had
before it became inaccessible, but `Client.setState` writes it on every change of state.
-/

namespace HnefServer

inductive State
  | new
  | waiting
  | ready
  | playingOnTurn
  | playingOnStand
  | pinged
  | lost
  | disconnected
  deriving DecidableEq, Repr

namespace State

/-- The test `state == Pinged || state == Lost || state == Disconnected`. -/
def inaccessible : State → Bool
  | .pinged | .lost | .disconnected => true
  | _ => false

/-- The test `state == PlayingOnTurn || state == PlayingOnStand`. -/
def inGame : State → Bool
  | .playingOnTurn | .playingOnStand => true
  | _ => false

theorem not_inaccessible_of_inGame {s : State} (h : s.inGame = true) :
    s.inaccessible = false := by
  cases s <;> simp_all [inGame, inaccessible]

end State

/-- Count of pings during long inaccessibility. -/
def LONG_PING : ℤ := 2

/-- A client instance. -/
structure Client where
  flagToDisconnect : Bool
  flagToErase : Bool
  /-- Counter of long inaccessibility pings. -/
  cntrPings : ℤ
  ipAddress : Text
  socketNum : ℤ
  /-- Room where the player is located (`0`: lobby). -/
  roomId : ℕ
  nick : Text
  state : State
  stateLast : State
  deriving DecidableEq, Repr

namespace Client

/-- A new instance. -/
def create (ip : Text) (sock : ℤ) : Client where
  flagToDisconnect := false
  flagToErase := false
  cntrPings := LONG_PING
  ipAddress := ip
  socketNum := sock
  roomId := 0
  nick := []
  state := .new
  stateLast := .new

variable (c : Client)

def decreaseInaccessCount : Client := { c with cntrPings := c.cntrPings - 1 }

def resetInaccessCount : Client := { c with cntrPings := LONG_PING }

def setSocket (sock : ℤ) : Client := { c with socketNum := sock }

def setRoomId (id : ℕ) : Client := { c with roomId := id }

def setState (s : State) : Client :=
  { c with state := s, stateLast := if c.state.inaccessible then c.stateLast else c.state }

def setStateLast (s : State) : Client := { c with stateLast := s }

def setNick (n : Text) : Client := { c with nick := n }

def setFlagToDisconnect (value : Bool) : Client := { c with flagToDisconnect := value }

def setFlagToErase (value : Bool) : Client := { c with flagToErase := value }

/-- The state a client has in the game, whether or not it is accessible. -/
def logical : State := if c.state.inaccessible then c.stateLast else c.state

variable {c}

@[simp] theorem setState_state (s : State) : (c.setState s).state = s := rfl

theorem setState_stateLast (s : State) :
    (c.setState s).stateLast = if c.state.inaccessible then c.stateLast else c.state := rfl

theorem logical_of_inaccessible (h : c.state.inaccessible = true) : c.logical = c.stateLast := by
  simp [logical, h]

theorem logical_of_accessible (h : c.state.inaccessible = false) : c.logical = c.state := by
  simp [logical, h]

/-- Becoming inaccessible does not change the logical state. -/
theorem logical_setState_of_inaccessible {s : State} (hs : s.inaccessible = true) :
    (c.setState s).logical = c.logical := by
  simp [logical, setState, hs]

theorem logical_setState {s : State} (hs : s.inaccessible = false) :
    (c.setState s).logical = s := by
  simp [logical, setState, hs]

/-! ### Keys -/

/-- The nick of a client, if it has one. -/
def nickKey (c : Client) : Option Text := if c.nick = [] then none else some c.nick

/-- The descriptor of a client, if it has one. -/
def sockKey (c : Client) : Option ℤ := if c.socketNum < 0 then none else some c.socketNum

theorem nickKey_eq_some {c : Client} {n : Text} : c.nickKey = some n ↔ c.nick = n ∧ n ≠ [] := by
  simp only [nickKey]
  split_ifs with h
  · simp [h, eq_comm]
  · simp only [Option.some.injEq]
    exact ⟨fun h' => ⟨h', h' ▸ h⟩, fun h' => h'.1⟩

theorem sockKey_eq_some {c : Client} {fd : ℤ} :
    c.sockKey = some fd ↔ c.socketNum = fd ∧ 0 ≤ fd := by
  simp only [sockKey]
  split_ifs with h
  · simp only [false_iff]
    omega
  · simp only [Option.some.injEq]
    omega

end Client

end HnefServer
