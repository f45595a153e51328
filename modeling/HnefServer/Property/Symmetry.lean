import HnefServer.Game.Symmetry
import HnefServer.Property.Games

/-!
# Turned games

The same game played upside down, or with rows for columns: two rooms, of whatever runs of the
server, whose moves are turned into each other show turned boards, have the same side on turn, and
answer turned moves alike.
-/

namespace HnefServer

namespace RoomHnefatafl

variable {σ : Equiv.Perm Square} {r r' : RoomHnefatafl} {P : Position}

/-- What the turned position shows. -/
theorem Shows.board_turned (h : r.Shows P) (h' : r'.Shows (P.comp σ⁻¹)) (q : Square) :
    r'.pf (σ q) = r.pf q := by
  rw [h'.board, h.board]
  exact congrArg P.board (σ.symm_apply_apply q)

theorem Shows.black_iff (h : r.Shows P) (hbw : r.black ≠ r.white) :
    r.onTurn = r.black ↔ P.side = .black := by
  rw [h.onTurn]
  cases P.side with
  | black => simp [player]
  | white => simpa [player] using hbw.symm

theorem Shows.gameState_eq (h : r.Shows P) (h' : r'.Shows (P.comp σ⁻¹)) :
    r'.gameState = r.gameState := by
  have hiff : r'.gameState = .gameover ↔ r.gameState = .gameover := by
    rw [h.ended, h'.ended]
    rfl
  cases hr : r.gameState <;> cases hr' : r'.gameState <;> simp_all

/-- **Turned moves are answered alike.** -/
theorem Shows.processMove_turned (hσ : Symmetry σ) (h : r.Shows P) (h' : r'.Shows (P.comp σ⁻¹))
    (hbw : r.black ≠ r.white) (hbw' : r'.black ≠ r'.white) (hking : ∃! k, r.pf k = .sKing)
    (hking' : ∃! k, r'.pf k = .sKing) (hplay : r.gameState = .playing)
    (hplay' : r'.gameState = .playing) {t t' : Coordinates} {p q : Square}
    (ht : squaresOf t.text = some (p, q)) (ht' : squaresOf t'.text = some (σ p, σ q)) :
    ∃ e e' b Q, r.processMove t.text = .ok (e, b) ∧ r'.processMove t'.text = .ok (e', b) ∧
      e.Shows Q ∧ e'.Shows (Q.comp σ⁻¹) := by
  have hguard : game.guard (P.comp σ⁻¹) (σ p, σ q) ↔ game.guard P (p, q) := by
    rw [hσ.inv.guard_iff]
    exact iff_of_eq (congrArg₂ (fun x y => game.guard P (x, y)) (σ.symm_apply_apply p)
      (σ.symm_apply_apply q))
  obtain ⟨⟨e, b⟩, hproc⟩ := processMove_returns (r := r) (le_antisymm t.upper t.lower) t.chars
  obtain ⟨⟨e', b'⟩, hproc'⟩ :=
    processMove_returns (r := r') (le_antisymm t'.upper t'.lower) t'.chars
  rcases processMove_game h hbw hking hplay hproc with
    ⟨rfl, p₁, q₁, hsq, hstep, hshows⟩ | ⟨rfl, hnot, hshows⟩
  all_goals rcases processMove_game h' hbw' hking' hplay' hproc' with
    ⟨rfl, p₂, q₂, hsq', hstep', hshows'⟩ | ⟨rfl, hnot', hshows'⟩
  · obtain ⟨rfl, rfl⟩ := Prod.mk.inj (Option.some.inj (ht.symm.trans hsq))
    obtain ⟨rfl, rfl⟩ := Prod.mk.inj (Option.some.inj (ht'.symm.trans hsq'))
    refine ⟨e, e', true, _, hproc, hproc', hshows, ?_⟩
    rw [hσ.inv.move_comp] at hshows'
    rwa [← Equiv.Perm.mul_apply, ← Equiv.Perm.mul_apply, inv_mul_cancel] at hshows'
  · obtain ⟨rfl, rfl⟩ := Prod.mk.inj (Option.some.inj (ht.symm.trans hsq))
    exact absurd (hguard.2 hstep.1) (hnot' _ ht')
  · obtain ⟨rfl, rfl⟩ := Prod.mk.inj (Option.some.inj (ht'.symm.trans hsq'))
    exact absurd (hguard.1 hstep'.1) (hnot _ ht)
  · exact ⟨e, e', false, P, hproc, hproc', hshows, hshows'⟩

end RoomHnefatafl

namespace Server

variable {clients rooms clients' rooms' : ℕ} {fd fd' : ℤ} {s s' : Server}
  {made made' : List (ℕ × Square × Square)} {r r' : RoomHnefatafl} {σ : Equiv.Perm Square}

/-- **Turned games.**  Let the moves made in one room be those made in another one, of the same run
or of another run, turned by a symmetry of the board.  Then the board of the one is the turned
board of the other, the same side is on turn, and both rooms give the same answer to the same move,
turned, which leaves them in the same relation. -/
theorem games_turned (hσ : σ ∈ boardSymmetries)
    (h : server.Recorded recordMoves (create clients rooms fd) [] s made)
    (h' : server.Recorded recordMoves (create clients' rooms' fd') [] s' made')
    (hr : r ∈ s.mngClient.lobby.games) (hr' : r' ∈ s'.mngClient.lobby.games)
    (hbw : r.black ≠ r.white) (hbw' : r'.black ≠ r'.white)
    (hmoves : movesIn r'.roomId made' = (movesIn r.roomId made).map (Prod.map σ σ)) :
    (∀ q, r'.pf (σ q) = r.pf q) ∧ (r'.onTurn = r'.black ↔ r.onTurn = r.black) ∧
      ∀ (t t' : Coordinates) (p q : Square), squaresOf t.text = some (p, q) →
        squaresOf t'.text = some (σ p, σ q) →
        ∃ e e' b, r.processMove t.text = .ok (e, b) ∧ r'.processMove t'.text = .ok (e', b) ∧
          (∀ x, e'.pf (σ x) = e.pf x) ∧ e'.gameState = e.gameState := by
  have hsym := symmetry_of_mem hσ
  have hall := AllPlay.recorded h
  have hall' := AllPlay.recorded h'
  obtain ⟨hplay, hboard⟩ := hall.base.boards r hr
  obtain ⟨hplay', hboard'⟩ := hall'.base.boards r' hr'
  obtain ⟨P, htrace, hshows⟩ := hall.plays r hr hbw
  obtain ⟨P', htrace', hshows'⟩ := hall'.plays r' hr' hbw'
  -- the second room plays the turned game, and a game has one outcome
  rw [hmoves] at htrace'
  obtain rfl := htrace'.unique (hsym.trace htrace)
  refine ⟨hshows.board_turned hshows', ?_, fun t t' p q ht ht' => ?_⟩
  · rw [hshows'.black_iff hbw', hshows.black_iff hbw]
    rfl
  · obtain ⟨e, e', b, Q, hproc, hproc', hQ, hQ'⟩ := hshows.processMove_turned hsym hshows' hbw hbw'
      hboard.king hboard'.king hplay hplay' ht ht'
    exact ⟨e, e', b, hproc, hproc', hQ.board_turned hQ', hQ.gameState_eq hQ'⟩

/-- The opening move, rows for columns. -/
def openingTransposed : Coordinates := ⟨"00030002".toList, by decide, by decide, by simp⟩

/-- Two games that differ in their first move. -/
theorem games_turned_opening : ∃ (s s' : Server) (made made' : List (ℕ × Square × Square))
    (r r' : RoomHnefatafl),
    server.Recorded recordMoves (create 10 5 3) [] s made ∧
    server.Recorded recordMoves (create 10 5 3) [] s' made' ∧
    r ∈ s.mngClient.lobby.games ∧ r' ∈ s'.mngClient.lobby.games ∧
    movesIn r.roomId made = [((0, 3), (0, 2))] ∧
    (∀ q, r'.pf (transposed q) = r.pf q) ∧ (r'.onTurn = r'.black ↔ r.onTurn = r.black) ∧
      ∀ (t t' : Coordinates) (p q : Square), squaresOf t.text = some (p, q) →
        squaresOf t'.text = some (transposed p, transposed q) →
        ∃ e e' b, r.processMove t.text = .ok (e, b) ∧ r'.processMove t'.text = .ok (e', b) ∧
          (∀ x, e'.pf (transposed x) = e.pf x) ∧ e'.gameState = e.gameState := by
  have hrun : (server.replayRecorded recordMoves (create 10 5 3) []
      (firstGame ++ [.frame 0 (.move opening)])).any (fun p => p.1.mngClient.lobby.games.any
        fun r => r.black != r.white && movesIn r.roomId p.2 == [((0, 3), (0, 2))]) = true := by
    decide +kernel
  have hrun' : (server.replayRecorded recordMoves (create 10 5 3) []
      (firstGame ++ [.frame 0 (.move openingTransposed)])).any (fun p =>
        p.1.mngClient.lobby.games.any fun r => r.black != r.white &&
          movesIn r.roomId p.2 == [((3, 0), (2, 0))]) = true := by
    decide +kernel
  obtain ⟨s, made, h, ht⟩ := System.exists_recorded .nil hrun
  obtain ⟨s', made', h', ht'⟩ := System.exists_recorded .nil hrun'
  obtain ⟨r, hr, ht⟩ := List.any_eq_true.1 ht
  obtain ⟨r', hr', ht'⟩ := List.any_eq_true.1 ht'
  simp only [Bool.and_eq_true, bne_iff_ne, beq_iff_eq] at ht ht'
  have hσ : transposed ∈ boardSymmetries := Subgroup.subset_closure (Or.inr rfl)
  have hmoves : movesIn r'.roomId made' =
      (movesIn r.roomId made).map (Prod.map transposed transposed) := by
    rw [ht.2, ht'.2]
    rfl
  exact ⟨s, s', made, made', r, r', h, h', hr, hr', ht.2,
    games_turned hσ h h' hr hr' ht.1 ht'.1 hmoves⟩

end Server

end HnefServer
