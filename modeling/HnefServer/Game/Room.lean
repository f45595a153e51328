import HnefServer.LTS.Basic
import HnefServer.Data.Text
import Mathlib.Data.Fin.VecNotation
import Mathlib.Logic.Function.Basic

/-!
# The game room

`RoomHnefatafl` is one game of Hnefatafl: the two players by nick, the board, and the
coordinates of the move being processed.  `RoomHnefatafl.processMove` parses a coordinate
string, checks the move, moves the stone, captures, and swaps the players.

Coordinates are machine integers, as in the source; `Playfield.get` and `Playfield.set` fault
outside the board, so that a run that returns has only indexed inside it.
-/

namespace HnefServer

/-- The ways the server process dies inside a handler: an invalid iterator is dereferenced, an
empty queue is read, an array is indexed outside its bounds, a library exception is not caught,
a loop does not end. -/
inductive Fault
  | noRoom
  | noClient
  | emptyQueue
  | offBoard
  | uncaught
  | diverge
  deriving DecidableEq, Repr

inductive GameState
  | playing
  | gameover
  deriving DecidableEq, Repr

inductive Field
  | fEmpty
  | fThrone
  | fEscape
  | sBlack
  | sWhite
  | sKing
  deriving DecidableEq, Repr

/-- Size of the playfield. -/
def SIZE : ℤ := 11

/-- A square of the board: row, then column. -/
abbrev Square := Fin 11 × Fin 11

/-- The board. -/
abbrev Playfield := Square → Field

/-- The square with row `y` and column `x`. -/
def square (y x : ℤ) : Except Fault Square :=
  if h : (0 ≤ y ∧ y < SIZE) ∧ (0 ≤ x ∧ x < SIZE) then
    .ok (⟨y.toNat, by simp only [SIZE] at h; omega⟩, ⟨x.toNat, by simp only [SIZE] at h; omega⟩)
  else .error .offBoard

namespace Playfield

/-- Read `pf[y][x]`. -/
def get (pf : Playfield) (y x : ℤ) : Except Fault Field := do
  let q ← square y x
  return pf q

/-- Write `pf[y][x]`. -/
def set (pf : Playfield) (y x : ℤ) (f : Field) : Except Fault Playfield := do
  let q ← square y x
  return Function.update pf q f

open HnefServer.Field in
/-- The rows of the board a game starts with. -/
def startRows : Fin 11 → Fin 11 → Field :=
  ![![fEscape, fEmpty, fEmpty, sBlack, sBlack, sBlack, sBlack, sBlack, fEmpty, fEmpty, fEscape],
    ![fEmpty, fEmpty, fEmpty, fEmpty, fEmpty, sBlack, fEmpty, fEmpty, fEmpty, fEmpty, fEmpty],
    ![fEmpty, fEmpty, fEmpty, fEmpty, fEmpty, fEmpty, fEmpty, fEmpty, fEmpty, fEmpty, fEmpty],
    ![sBlack, fEmpty, fEmpty, fEmpty, fEmpty, sWhite, fEmpty, fEmpty, fEmpty, fEmpty, sBlack],
    ![sBlack, fEmpty, fEmpty, fEmpty, sWhite, sWhite, sWhite, fEmpty, fEmpty, fEmpty, sBlack],
    ![sBlack, sBlack, fEmpty, sWhite, sWhite, sKing, sWhite, sWhite, fEmpty, sBlack, sBlack],
    ![sBlack, fEmpty, fEmpty, fEmpty, sWhite, sWhite, sWhite, fEmpty, fEmpty, fEmpty, sBlack],
    ![sBlack, fEmpty, fEmpty, fEmpty, fEmpty, sWhite, fEmpty, fEmpty, fEmpty, fEmpty, sBlack],
    ![fEmpty, fEmpty, fEmpty, fEmpty, fEmpty, fEmpty, fEmpty, fEmpty, fEmpty, fEmpty, fEmpty],
    ![fEmpty, fEmpty, fEmpty, fEmpty, fEmpty, sBlack, fEmpty, fEmpty, fEmpty, fEmpty, fEmpty],
    ![fEscape, fEmpty, fEmpty, sBlack, sBlack, sBlack, sBlack, sBlack, fEmpty, fEmpty, fEscape]]

/-- The board a game starts with. -/
def start : Playfield := fun q => startRows q.1 q.2

end Playfield

/-- A game room. -/
structure RoomHnefatafl where
  roomId : ℕ
  gameState : GameState
  /-- Player on turn. -/
  onTurn : Text
  /-- Player standing by. -/
  onStand : Text
  /-- Black attacker player. -/
  black : Text
  /-- White defending player. -/
  white : Text
  xFrom : ℤ
  yFrom : ℤ
  xTo : ℤ
  yTo : ℤ
  pf : Playfield

namespace RoomHnefatafl

/-- A new game: black starts.  The move coordinates have no value before the first move. -/
def create (id : ℕ) (pB pW : Text) : RoomHnefatafl where
  roomId := id
  gameState := .playing
  onTurn := pB
  onStand := pW
  black := pB
  white := pW
  xFrom := 0
  yFrom := 0
  xTo := 0
  yTo := 0
  pf := Playfield.start

variable (r : RoomHnefatafl)

/-! ### Move checkers -/

def isWithinPf : Bool :=
  (0 ≤ r.xFrom && r.xFrom < SIZE) && (0 ≤ r.yFrom && r.yFrom < SIZE) &&
    (0 ≤ r.xTo && r.xTo < SIZE) && (0 ≤ r.yTo && r.yTo < SIZE)

def isOrthogonal : Bool := r.xFrom == r.xTo || r.yFrom == r.yTo

/-- The loop of `isFreePath` from index `i` to index `target` along a line of the board, `line i`
being the field at index `i`.  The fuel bounds the number of iterations: a loop that runs longer
has left the board. -/
def freePathLoop (line : ℤ → Except Fault Field) (shift target : ℤ) : ℕ → ℤ → Except Fault Bool
  | 0, _ => .error .diverge
  | fuel + 1, i =>
    if i = target then .ok true
    else do
      let f ← line i
      if f ≠ .fEmpty ∧ f ≠ .fThrone then return false
      else freePathLoop line shift target fuel (i + shift)

/-- Fuel of `freePathLoop`. -/
def pathFuel : ℕ := 13

def isFreePath : Except Fault Bool :=
  if r.yFrom = r.yTo then
    let shift := if r.xFrom < r.xTo then 1 else -1
    freePathLoop (fun i => r.pf.get r.yFrom i) shift r.xTo pathFuel (r.xFrom + shift)
  else if r.xFrom = r.xTo then
    let shift := if r.yFrom < r.yTo then 1 else -1
    freePathLoop (fun i => r.pf.get i r.xFrom) shift r.yTo pathFuel (r.yFrom + shift)
  else return true

/-! ### Game logic -/

/-- `std::stoi(coorStr.substr(pos, 2))`. -/
def parseCoordinate (coorStr : Text) (pos : ℕ) : Except Fault ℤ :=
  match Text.substr coorStr pos 2 with
  | .ok s => match Text.stoi s with
    | .ok v => .ok v
    | .error _ => .error .uncaught
  | .error _ => .error .uncaught

/-- Store the coordinates of a move. -/
def setCoordinates (xFrom yFrom xTo yTo : ℤ) : RoomHnefatafl := { r with xFrom, yFrom, xTo, yTo }

def parseMove (coorStr : Text) : Except Fault RoomHnefatafl := do
  let xFrom ← parseCoordinate coorStr 0
  let yFrom ← parseCoordinate coorStr 2
  let xTo ← parseCoordinate coorStr 4
  let yTo ← parseCoordinate coorStr 6
  return r.setCoordinates xFrom yFrom xTo yTo

/-- The test of the path at the end of each branch of `isValidMove`. -/
def isClearLine : Except Fault Bool := if r.isOrthogonal then r.isFreePath else return false

def isValidMove : Except Fault Bool := do
  if r.isWithinPf then
    let fromField ← r.pf.get r.yFrom r.xFrom
    let toField ← r.pf.get r.yTo r.xTo
    if r.onTurn = r.black ∧ fromField = .sBlack then
      -- a warrior can move only on empty fields
      if toField = .fEmpty then r.isClearLine else return false
    else if r.onTurn = r.white ∧ fromField = .sWhite then
      if toField = .fEmpty then r.isClearLine else return false
    else if r.onTurn = r.white ∧ fromField = .sKing then
      if toField = .fEmpty ∨ toField = .fThrone ∨ toField = .fEscape then r.isClearLine
      else return false
    else return false
  else return false

def move : Except Fault RoomHnefatafl := do
  let stone ← r.pf.get r.yFrom r.xFrom
  let pf ← r.pf.set r.yTo r.xTo stone
  if r.yFrom = SIZE / 2 ∧ r.xFrom = SIZE / 2 then
    let pf ← pf.set r.yFrom r.xFrom .fThrone
    return { r with pf }
  else
    let pf ← pf.set r.yFrom r.xFrom .fEmpty
    return { r with pf }

def isSurroundedBlack (fieldAdjacent fieldAlly : Field) : Bool :=
  fieldAdjacent == .sBlack &&
    (fieldAlly == .sWhite || fieldAlly == .fThrone || fieldAlly == .fEscape)

def isSurroundedWhite (fieldAdjacent fieldAlly : Field) : Bool :=
  fieldAdjacent == .sWhite &&
    (fieldAlly == .sBlack || fieldAlly == .fThrone || fieldAlly == .fEscape)

/-- One side of `checkCaptureWarrior`: capture the stone on the adjacent square when the square
behind it surrounds it. -/
def captureSide (surrounded : Field → Field → Bool) (inBounds : Prop) [Decidable inBounds]
    (yAdj xAdj yAlly xAlly : ℤ) (pf : Playfield) : Except Fault Playfield := do
  if inBounds then
    let fieldAdjacent ← pf.get yAdj xAdj
    let fieldAlly ← pf.get yAlly xAlly
    if surrounded fieldAdjacent fieldAlly then pf.set yAdj xAdj .fEmpty else return pf
  else return pf

def checkCaptureWarrior (surrounded : Field → Field → Bool) : Except Fault RoomHnefatafl := do
  let y := r.yTo
  let x := r.xTo
  let pf ← captureSide surrounded (x + 2 < SIZE) y (x + 1) y (x + 2) r.pf
  let pf ← captureSide surrounded (x - 2 ≥ 0) y (x - 1) y (x - 2) pf
  let pf ← captureSide surrounded (y + 2 < SIZE) (y + 1) x (y + 2) x pf
  let pf ← captureSide surrounded (y - 2 ≥ 0) (y - 1) x (y - 2) x pf
  return { r with pf }

/-- One side of `isSurroundedKing`: whether a field on the board there is neither empty nor a
white warrior. -/
def closedSide (inBounds : Prop) [Decidable inBounds] (y x : ℤ) (surrounded : Bool) :
    Except Fault Bool := do
  if inBounds then
    let f ← r.pf.get y x
    if f = .fEmpty ∨ f = .sWhite then return false else return surrounded
  else return surrounded

def isSurroundedKing (y x : ℤ) : Except Fault Bool := do
  let surrounded ← r.closedSide (x + 1 < SIZE) y (x + 1) true
  let surrounded ← r.closedSide (x - 1 ≥ 0) y (x - 1) surrounded
  let surrounded ← r.closedSide (y + 1 < SIZE) (y + 1) x surrounded
  r.closedSide (y - 1 ≥ 0) (y - 1) x surrounded

/-- One side of `isCapturedKing`: the answer is overwritten when the King stands there. -/
def kingSide (inBounds : Prop) [Decidable inBounds] (y x : ℤ) (captured : Bool) :
    Except Fault Bool := do
  if inBounds then
    let f ← r.pf.get y x
    if f = .sKing then r.isSurroundedKing y x else return captured
  else return captured

def isCapturedKing : Except Fault Bool := do
  let captured ← r.kingSide (r.xTo + 1 < SIZE) r.yTo (r.xTo + 1) false
  let captured ← r.kingSide (r.xTo - 1 ≥ 0) r.yTo (r.xTo - 1) captured
  let captured ← r.kingSide (r.yTo + 1 < SIZE) (r.yTo + 1) r.xTo captured
  r.kingSide (r.yTo - 1 ≥ 0) (r.yTo - 1) r.xTo captured

def checkCaptures : Except Fault RoomHnefatafl := do
  let stone ← r.pf.get r.yTo r.xTo
  if stone = .sKing then
    if (r.xTo = 0 ∨ r.xTo = SIZE - 1) ∧ (r.yTo = 0 ∨ r.yTo = SIZE - 1) then
      return { r with gameState := .gameover }
    else return r
  else if stone = .sWhite then r.checkCaptureWarrior isSurroundedBlack
  else if stone = .sBlack then
    let r ← r.checkCaptureWarrior isSurroundedWhite
    if ← r.isCapturedKing then return { r with gameState := .gameover } else return r
  else return r

def swapPlayers : RoomHnefatafl := { r with onTurn := r.onStand, onStand := r.onTurn }

/-- Process the move a player requested; the answer says whether it was made. -/
def processMove (coorStr : Text) : Except Fault (RoomHnefatafl × Bool) := do
  let r ← r.parseMove coorStr
  if ← r.isValidMove then
    let r ← r.move
    let r ← r.checkCaptures
    return (r.swapPlayers, true)
  else return (r, false)

/-! ### Getters -/

/-- The text of a field in `getPlayfieldString`. -/
def fieldDigit : Field → Char
  | .fEmpty => '0'
  | .fThrone => '1'
  | .fEscape => '2'
  | .sBlack => '3'
  | .sWhite => '4'
  | .sKing => '5'

/-- The board, row by row. -/
def getPlayfieldString : Text :=
  (List.finRange 11).flatMap fun y => (List.finRange 11).map fun x => fieldDigit (r.pf (y, x))

end RoomHnefatafl

end HnefServer
