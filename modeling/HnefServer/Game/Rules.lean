import HnefServer.Game.Capture
import HnefServer.LTS.Trace

/-!
# The abstract game

`game` is Hnefatafl without rooms, players and texts: the side to move takes one of its stones to
another square, the stones this captures are gone, and the game is over when the King has reached
a corner or is enclosed.  Its states are positions, its inputs pairs of squares.

An accepted move of a room is a step of the abstract game, and a rejected one is none
(`processMove_game`).
-/

namespace HnefServer

open RoomHnefatafl

/-- The other side. -/
def Side.other : Side → Side
  | .black => .white
  | .white => .black

@[simp] theorem Side.other_other (side : Side) : side.other.other = side := by
  cases side <;> rfl

/-- The move from `p` to `q`, after which the board is `pf'`, ends the game on the board `pf`. -/
def EndsGame (pf : Playfield) (p q : Square) (pf' : Playfield) : Prop :=
  pf p = .sKing ∧ IsCorner q ∨
    pf p = .sBlack ∧ ∃ k, pf' k = .sKing ∧ Adjacent q k ∧ Enclosed pf' k

instance (pf : Playfield) (p q : Square) (pf' : Playfield) : Decidable (EndsGame pf p q pf') :=
  inferInstanceAs (Decidable (_ ∨ _ ∧ _))

/-- There is one King after a move, if there was one. -/
theorem exists_king {pf : Playfield} {p q : Square} (hking : ∃! k, pf k = .sKing) (hne : p ≠ q)
    (hq : pf q ≠ .sKing) : ∃ k, ∀ z, relocate pf p q z = .sKing ↔ z = k := by
  obtain ⟨k, hk, huniq⟩ := hking
  have hat : ∀ z, relocate pf p q z = .sKing ↔ z ≠ p ∧ (z = q ∧ pf p = .sKing ∨
      z ≠ q ∧ pf z = .sKing) := by
    intro z
    simp only [relocate, Function.update_apply]
    split_ifs with h₁ h₂ h₃
    all_goals simp [*, hne.symm]
  by_cases hp : pf p = .sKing
  · refine ⟨q, fun z => (hat z).trans ?_⟩
    constructor
    · rintro ⟨hzp, ⟨hz, -⟩ | ⟨-, hz⟩⟩
      · exact hz
      · exact absurd ((huniq z hz).trans (huniq p hp).symm) hzp
    · rintro rfl
      exact ⟨hne.symm, Or.inl ⟨rfl, hp⟩⟩
  · refine ⟨k, fun z => (hat z).trans ?_⟩
    constructor
    · rintro ⟨-, ⟨-, hz⟩ | ⟨-, hz⟩⟩
      · exact absurd hz hp
      · exact huniq z hz
    · rintro rfl
      exact ⟨fun hzp => hp (hzp ▸ hk), Or.inr ⟨fun hzq => hq (hzq ▸ hk), hk⟩⟩

/-- **When an accepted move ends the game**, on a board with one King. -/
theorem gameover_iff {r r' : RoomHnefatafl} {t : Coordinates} (hking : ∃! k, r.pf k = .sKing)
    (hplay : r.gameState = .playing) (h : r.processMove t.text = .ok (r', true)) :
    ∃ p q, t.Spells p q ∧ r.LegalFields (r.pf p) (r.pf q) ∧
      (r'.gameState = .gameover ↔ EndsGame r.pf p q r'.pf) := by
  obtain ⟨p, q, hspells, hfields, hway, hpf, hover⟩ := processMove_accepted h
  have hqking : r.pf q ≠ .sKing := by
    rcases hfields with ⟨-, -, hq⟩ | ⟨-, -, hq⟩ | ⟨-, -, hq | hq | hq⟩ <;> simp [hq]
  obtain ⟨k, hk⟩ := exists_king hking hway.ne hqking
  refine ⟨p, q, hspells, hfields, ?_⟩
  have htarget := relocate_target r.pf hway.ne
  have hwins : r'.gameState = .gameover ↔ Wins (relocate r.pf p q) q k := by
    rw [hover k fun z hz => (hk z).1 hz, hplay]
    split_ifs with hw <;> simp [hw]
  have hcapture : ∀ z, r'.pf z = .sKing → z = k := by
    intro z hz
    rw [hpf, capture] at hz
    split_ifs at hz
    exact (hk z).1 hz
  rw [hwins, Wins, EndsGame, htarget, ← hpf]
  refine or_congr Iff.rfl (and_congr Iff.rfl ?_)
  constructor
  · rintro ⟨hadj, hat, hclosed⟩
    exact ⟨k, hat, hadj, hclosed⟩
  · rintro ⟨z, hz, hadj, hclosed⟩
    obtain rfl := hcapture z hz
    exact ⟨hadj, hz, hclosed⟩

/-- The board after the move from `p` to `q`, the captured stones taken off. -/
def Playfield.after (pf : Playfield) (p q : Square) : Playfield := capture (relocate pf p q) q

/-- A position of the game. -/
structure Position where
  board : Playfield
  /-- The side to move. -/
  side : Side
  ended : Bool

namespace Position

def start : Position := ⟨Playfield.start, .black, false⟩

/-- The position after a move. -/
def move (P : Position) (p q : Square) : Position where
  board := P.board.after p q
  side := P.side.other
  ended := EndsGame P.board p q (P.board.after p q)

end Position

/-- The abstract game. -/
def game : System Position (Square × Square) Empty where
  guard P l := P.ended = false ∧ Legal P.board P.side l.1 l.2
  exec P l := .ok (P.move l.1 l.2)

section Decidable

variable (pf : Playfield) (side : Side) (p x q : Square) (f : Field)

instance : Decidable (side.Owns f) :=
  match side with
  | .black => inferInstanceAs (Decidable (f = .sBlack))
  | .white => inferInstanceAs (Decidable (f = .sWhite ∨ f = .sKing))

instance : Decidable f.Passable := inferInstanceAs (Decidable (_ ∨ _))

instance : Decidable (Between p x q) := inferInstanceAs (Decidable (_ ∧ _ ∧ _ ∨ _ ∧ _ ∧ _))

instance : Decidable (ClearWay pf p q) :=
  decidable_of_iff (p ≠ q ∧ (p.1 = q.1 ∨ p.2 = q.2) ∧ ∀ x, Between p x q → (pf x).Passable)
    ⟨fun h => ⟨h.1, h.2.1, h.2.2⟩, fun h => ⟨h.ne, h.line, h.free⟩⟩

instance : Decidable (Legal pf side p q) :=
  decidable_of_iff (side.Owns (pf p) ∧
      (pf q = .fEmpty ∨ pf p = .sKing ∧ (pf q = .fThrone ∨ pf q = .fEscape)) ∧ ClearWay pf p q)
    ⟨fun h => ⟨h.1, h.2.1, h.2.2⟩, fun h => ⟨h.own, h.target, h.way⟩⟩

instance (P : Position) (l : Square × Square) : Decidable (game.guard P l) :=
  inferInstanceAs (Decidable (_ ∧ _))

end Decidable

theorem game_step {P P' : Position} {l : Square × Square} : game.Step P l P' ↔
    P.ended = false ∧ Legal P.board P.side l.1 l.2 ∧ P' = P.move l.1 l.2 := by
  simp only [System.Step, game, Except.ok.injEq, and_assoc, eq_comm]

/-- The squares a text of coordinates names. -/
def squaresOf (t : Text) : Option (Square × Square) :=
  Except.toOption (do
    let xFrom ← parseCoordinate t 0
    let yFrom ← parseCoordinate t 2
    let xTo ← parseCoordinate t 4
    let yTo ← parseCoordinate t 6
    return (← square yFrom xFrom, ← square yTo xTo))

theorem squaresOf_eq_some {t : Coordinates} {p q : Square} :
    squaresOf t.text = some (p, q) ↔ t.Spells p q := by
  have h₀ := parseCoordinate_eq t (show 0 ≤ 6 by omega)
  have h₂ := parseCoordinate_eq t (show 2 ≤ 6 by omega)
  have h₄ := parseCoordinate_eq t (show 4 ≤ 6 by omega)
  have h₆ := parseCoordinate_eq t (show 6 ≤ 6 by omega)
  rw [spells_iff, squaresOf, h₀, h₂, h₄, h₆]
  simp only [ok_bind]
  cases square (t.number 2) (t.number 0) with
  | error f => simp [Except.toOption]
  | ok p' => cases square (t.number 6) (t.number 4) <;> simp [Except.toOption]

namespace RoomHnefatafl

/-- A room shows a position of the game. -/
structure Shows (r : RoomHnefatafl) (P : Position) : Prop where
  board : r.pf = P.board
  onTurn : r.onTurn = r.player P.side
  onStand : r.onStand = r.player P.side.other
  ended : r.gameState = .gameover ↔ P.ended = true

variable {r r' : RoomHnefatafl} {P : Position} {b : Bool}

/-- **The moves of a room** between two different players, on a board with one King, are those of
the abstract game. -/
theorem processMove_game (hshows : r.Shows P) (hbw : r.black ≠ r.white)
    (hking : ∃! k, r.pf k = .sKing) (hplay : r.gameState = .playing) {t : Coordinates}
    (h : r.processMove t.text = .ok (r', b)) :
    b = true ∧ (∃ p q, squaresOf t.text = some (p, q) ∧ game.Step P (p, q) (P.move p q) ∧
        r'.Shows (P.move p q)) ∨
      b = false ∧ (∀ l, squaresOf t.text = some l → ¬ game.guard P l) ∧ r'.Shows P := by
  have hover : P.ended = false := by
    rw [← Bool.not_eq_true, ← hshows.ended, hplay]
    exact nofun
  obtain ⟨hid, hblack, hwhite, hp⟩ := processMove_players h
  have hplayer : ∀ side, r'.player side = r.player side := by
    rintro (_ | _)
    · exact hblack
    · exact hwhite
  have hlegal : ∀ p q, r.LegalFields (r.pf p) (r.pf q) ∧ ClearWay r.pf p q ↔
      Legal P.board P.side p q := by
    intro p q
    rw [legalFields_iff hbw hshows.onTurn, hshows.board]
    exact ⟨fun hl => ⟨hl.1.1, hl.1.2, hl.2⟩, fun hl => ⟨⟨hl.own, hl.target⟩, hl.way⟩⟩
  cases b with
  | false =>
    obtain ⟨-, hturn, hstand, hpf, hstate⟩ | ⟨hb, -⟩ := hp
    · refine Or.inr ⟨rfl, ?_, ?_⟩
      · rintro ⟨p, q⟩ hl hguard
        have haccepted := (processMove_coordinates t h).2
          ⟨p, q, squaresOf_eq_some.1 hl, (hlegal p q).2 hguard.2⟩
        cases haccepted
      · exact ⟨hpf.trans hshows.board, by rw [hturn, hshows.onTurn, hplayer],
          by rw [hstand, hshows.onStand, hplayer], by rw [hstate]; exact hshows.ended⟩
    · cases hb
  | true =>
    obtain ⟨hb, -⟩ | ⟨-, hturn, hstand⟩ := hp
    · cases hb
    obtain ⟨p, q, hspells, hfields, hway, hpf, -⟩ := processMove_accepted h
    obtain ⟨p', q', hspells', -, hends⟩ := gameover_iff hking hplay h
    have hpq : (p', q') = (p, q) := Option.some.inj
      ((squaresOf_eq_some.2 hspells').symm.trans (squaresOf_eq_some.2 hspells))
    obtain ⟨rfl, rfl⟩ := Prod.mk.inj hpq
    have hafter : r'.pf = P.board.after p' q' := by rw [hpf, hshows.board, Playfield.after]
    refine Or.inl ⟨rfl, p', q', squaresOf_eq_some.2 hspells,
      game_step.2 ⟨hover, (hlegal p' q').1 ⟨hfields, hway⟩, rfl⟩, ?_⟩
    exact
      { board := hafter
        onTurn := by rw [hturn, hshows.onStand, hplayer]; rfl
        onStand := by rw [hstand, hshows.onTurn, hplayer, Position.move, Side.other_other]
        ended := by rw [hends, hafter, hshows.board, Position.move, decide_eq_true_eq] }

end RoomHnefatafl

end HnefServer
