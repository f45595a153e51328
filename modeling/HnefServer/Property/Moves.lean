import HnefServer.Game.Board
import HnefServer.Game.Capture
import HnefServer.Network.Server

/-!
# Moves

On every board a move is accepted iff it is legal (`move_accepted_iff`), and an accepted one moves
the stone and takes the stones it surrounds, three at most (`move_effect`).
-/

namespace HnefServer

namespace RoomHnefatafl

variable {r r' : RoomHnefatafl}

/-- **A move is accepted iff it is legal.**  The room answers for all coordinates, and a rejected
move changes neither the board nor the turn nor the state of the game. -/
theorem move_accepted_iff (r : RoomHnefatafl) (side : Side) (t : Coordinates)
    (hbw : r.black ≠ r.white) (hturn : r.onTurn = r.player side) :
    ∃ r' b, r.processMove t.text = .ok (r', b) ∧
      (b = true ↔ ∃ p q, t.Spells p q ∧ Legal r.pf side p q) ∧
      (b = false → r'.pf = r.pf ∧ r'.onTurn = r.onTurn ∧ r'.onStand = r.onStand ∧
        r'.gameState = r.gameState) := by
  obtain ⟨⟨r', b⟩, h⟩ := r.processMove_returns (le_antisymm t.upper t.lower) t.chars
  refine ⟨r', b, h, ?_, ?_⟩
  · rw [processMove_coordinates t h]
    simp only [legalFields_iff hbw hturn]
    constructor
    · rintro ⟨p, q, hspells, ⟨hown, htarget⟩, hway⟩
      exact ⟨p, q, hspells, hown, htarget, hway⟩
    · rintro ⟨p, q, hspells, hlegal⟩
      exact ⟨p, q, hspells, ⟨hlegal.own, hlegal.target⟩, hlegal.way⟩
  · rintro rfl
    obtain ⟨-, -, -, ⟨-, hturn', hstand, hpf, hstate⟩ | ⟨hb, -⟩⟩ := processMove_players h
    · exact ⟨hpf, hturn', hstand, hstate⟩
    · cases hb

/-- The room with another board. -/
def setBoard (r : RoomHnefatafl) (pf : Playfield) : RoomHnefatafl := { r with pf }

/-- A board on which a black stone can take three white ones at once. -/
def threeTargets : Playfield := fun q =>
  match q.1.val, q.2.val with
  | 2, 0 | 2, 5 | 4, 3 | 0, 3 => .sBlack
  | 2, 4 | 3, 3 | 1, 3 => .sWhite
  | 5, 5 => .sKing
  | _, _ => .fEmpty

/-- The move of the black stone between the three white ones. -/
def betweenTargets : Coordinates := ⟨"00020302".toList, by decide, by decide, by simp⟩

theorem move_accepted_iff_threeTargets : ∃ r' b,
    ((create 1 Server.alice.text Server.bobby.text).setBoard threeTargets).processMove
      betweenTargets.text = .ok (r', b) ∧
    (b = true ↔ ∃ p q, betweenTargets.Spells p q ∧ Legal threeTargets .black p q) ∧
    (b = false → r'.pf = threeTargets ∧ r'.onTurn = Server.alice.text ∧
      r'.onStand = Server.bobby.text ∧ r'.gameState = .playing) :=
  move_accepted_iff ((create 1 Server.alice.text Server.bobby.text).setBoard threeTargets) .black
    betweenTargets (by decide) rfl

/-- The stones that are taken off the board. -/
def Taken (pf pf' : Playfield) : Finset Square := Finset.univ.filter fun x => pf' x ≠ pf x

/-- **The effect of an accepted move**, on every board.  `p` and `q` are the squares it spells. -/
theorem move_effect (r r' : RoomHnefatafl) (t : Coordinates)
    (h : r.processMove t.text = .ok (r', true)) :
    ∃ p q, t.Spells p q ∧
      (r.pf p = .sKing → r'.pf = relocate r.pf p q) ∧
      (r.pf p ≠ .sKing → ∀ x, r'.pf x =
        if Captured (relocate r.pf p q) q x then .fEmpty else relocate r.pf p q x) ∧
      (∀ x, relocate r.pf p q x = .sKing ∨ relocate r.pf p q x = r.pf p →
        r'.pf x = relocate r.pf p q x) ∧
      (Taken (relocate r.pf p q) r'.pf).card ≤ 3 := by
  obtain ⟨p, q, hspells, hfields, hway, hpf, -⟩ := processMove_accepted h
  have htarget := relocate_target r.pf hway.ne
  refine ⟨p, q, hspells, fun hk => ?_, fun _ x => ?_, fun x hx => ?_, ?_⟩
  · rw [hpf]
    exact capture_of_ne (by simp [htarget, hk]) (by simp [htarget, hk])
  · rw [hpf]
    rfl
  · rw [hpf]
    refine if_neg fun hcap => ?_
    have hstone := hcap.stone
    rw [htarget] at hstone
    rcases hx with hx | hx <;> rcases hstone with ⟨h₁, h₂⟩ | ⟨h₁, h₂⟩ <;> simp_all
  · refine le_trans (Finset.card_le_card fun x hx => ?_) (card_captured_le hway)
    rw [Taken, Finset.mem_filter] at hx
    refine Finset.mem_filter.2 ⟨hx.1, ?_⟩
    by_contra hcap
    rw [hpf] at hx
    exact hx.2 (if_neg hcap)

/-- The move is accepted, and takes the three stones. -/
theorem move_effect_threeTargets : ∃ r', ((create 1 Server.alice.text
      Server.bobby.text).setBoard threeTargets).processMove betweenTargets.text = .ok (r', true) ∧
    ∃ p q, betweenTargets.Spells p q ∧
      (threeTargets p = .sKing → r'.pf = relocate threeTargets p q) ∧
      (threeTargets p ≠ .sKing → ∀ x, r'.pf x =
        if Captured (relocate threeTargets p q) q x then .fEmpty
        else relocate threeTargets p q x) ∧
      (∀ x, relocate threeTargets p q x = .sKing ∨ relocate threeTargets p q x = threeTargets p →
        r'.pf x = relocate threeTargets p q x) ∧
      (Taken (relocate threeTargets p q) r'.pf).card ≤ 3 := by
  have hmove : (((create 1 Server.alice.text Server.bobby.text).setBoard
      threeTargets).processMove betweenTargets.text).toOption.any (fun p => p.2) = true := by
    decide +kernel
  obtain ⟨⟨r', b⟩, hr', hb⟩ := of_toOption_any hmove
  obtain rfl : b = true := hb
  exact ⟨r', hr', move_effect _ r' betweenTargets hr'⟩

end RoomHnefatafl

end HnefServer
