import HnefServer.Invariant.Games
import HnefServer.Property.Turns

/-!
# Rooms play the abstract game

The accepted moves of a run, room by room, are a run of the abstract game: the board of a room and
the player on turn are what its moves make of the start position (`rooms_play_game`), and a move
closes its room exactly when it ends the game (`move_refines_game`).
-/

namespace HnefServer

namespace Server

/-- Records the moves that are made. -/
def recordMoves (s : Server) (l : Input) (_ : Server) (made : List (ℕ × Square × Square)) :
    List (ℕ × Square × Square) := made ++ (s.moveMade l).toList

/-- The moves made in one room. -/
def movesIn (id : ℕ) (made : List (ℕ × Square × Square)) : List (Square × Square) :=
  (made.filter fun e => e.1 = id).map Prod.snd

variable {made : List (ℕ × Square × Square)} {id : ℕ}

theorem movesIn_of_lt {bound : ℕ} (h : ∀ e ∈ made, e.1 ≤ bound) (hid : bound < id) :
    movesIn id made = [] := by
  rw [movesIn, List.map_eq_nil_iff, List.filter_eq_nil_iff]
  intro e he heq
  have hle := h e he
  rw [decide_eq_true_eq] at heq
  omega

theorem movesIn_snoc (l : Square × Square) :
    movesIn id (made ++ [(id, l)]) = movesIn id made ++ [l] := by
  simp [movesIn]

theorem movesIn_snoc_of_ne {x : ℕ} (hne : x ≠ id) (l : Square × Square) :
    movesIn id (made ++ [(x, l)]) = movesIn id made := by
  simp [movesIn, hne]

/-- The side to move after a number of moves. -/
theorem side_of_trace {ls : List (Square × Square)} {P : Position}
    (h : game.Trace Position.start ls P) : P.side = .black ↔ Even ls.length := by
  refine System.Recorded.invariant (I := fun P ls => P.side = .black ↔ Even ls.length) h
    (by simp [Position.start]) ?_
  intro P ls l P' ih hst
  obtain ⟨-, -, rfl⟩ := game_step.1 hst
  rw [List.length_append, List.length_singleton, Nat.even_add_one, ← ih, Position.move]
  cases P.side <;> simp [Side.other]

/-- The moves made in a room lead to the position it shows. -/
def Plays (made : List (ℕ × Square × Square)) (r : RoomHnefatafl) : Prop :=
  r.black ≠ r.white → ∃ P, game.Trace Position.start (movesIn r.roomId made) P ∧ r.Shows P

/-- The invariant: no move is recorded for a room that is still to come, and all rooms play. -/
structure AllPlay (s : Server) (made : List (ℕ × Square × Square)) : Prop where
  base : s.world.Base
  bound : ∀ e ∈ made, e.1 ≤ s.mngClient.lobby.roomsTotal
  plays : ∀ r ∈ s.mngClient.lobby.games, Plays made r

variable {clients rooms : ℕ} {fd : ℤ} {s s' : Server} {l : Input} {r r' : RoomHnefatafl}

theorem Plays.create {made : List (ℕ × Square × Square)} {bound : ℕ}
    (h : ∀ e ∈ made, e.1 ≤ bound) (hid : bound < id) (a b : Text) :
    Plays made (RoomHnefatafl.create id a b) := by
  intro _
  refine ⟨Position.start, ?_, ⟨rfl, rfl, rfl, by simp [RoomHnefatafl.create, Position.start]⟩⟩
  rw [show (RoomHnefatafl.create id a b).roomId = id from rfl, movesIn_of_lt h hid]
  exact .nil

/-- What a move request means for the game of its room. -/
theorem Plays.processMove {P : Position} (hshows : r.Shows P) (hbw : r.black ≠ r.white)
    (hb : s.world.Base) (hr : r ∈ s.mngClient.lobby.games) {t : Coordinates} {b : Bool}
    (h : r.processMove t.text = .ok (r', b)) :
    b = true ∧ (∃ p q, squaresOf t.text = some (p, q) ∧ game.Step P (p, q) (P.move p q) ∧
        r'.Shows (P.move p q)) ∨
      b = false ∧ (∀ l, squaresOf t.text = some l → ¬ game.guard P l) ∧ r'.Shows P := by
  obtain ⟨hplay, hboard⟩ := hb.boards r hr
  exact RoomHnefatafl.processMove_game hshows hbw hboard.king hplay h

theorem AllPlay.rejects (h : AllPlay s made)
    (hst : s.mngClient.lobby.Rejects s'.mngClient.lobby) :
    ∀ r ∈ s'.mngClient.lobby.games, Plays made r := by
  intro e he
  obtain ⟨r, hr, rfl | ⟨t, hproc⟩⟩ := hst.games e he
  · exact h.plays e hr
  obtain ⟨hid, hblack, hwhite, -⟩ := RoomHnefatafl.processMove_players hproc
  intro hbw
  rw [hblack, hwhite] at hbw
  obtain ⟨P, htrace, hshows⟩ := h.plays r hr hbw
  rcases Plays.processMove hshows hbw h.base hr hproc with ⟨hfalse, -⟩ | ⟨-, -, hstill⟩
  · cases hfalse
  · exact ⟨P, hid ▸ htrace, hstill⟩

theorem AllPlay.moves (h : AllPlay s made) {l : Square × Square}
    (hst : s.mngClient.lobby.Moves l r r' s'.mngClient.lobby) :
    ∀ e ∈ s'.mngClient.lobby.games, Plays (made ++ [(r.roomId, l)]) e := by
  intro e he hbw
  by_cases hid : e.roomId = r.roomId
  · obtain rfl := hst.kept e he hid
    obtain ⟨t, hsq, hproc⟩ := hst.squares
    obtain ⟨-, hblack, hwhite, -⟩ := RoomHnefatafl.processMove_players hproc
    rw [hblack, hwhite] at hbw
    obtain ⟨P, htrace, hshows⟩ := h.plays r hst.mem hbw
    rcases Plays.processMove hshows hbw h.base hst.mem hproc with
      ⟨-, p, q, hsq', hmove, hshows'⟩ | ⟨hfalse, -⟩
    · obtain rfl : l = (p, q) := Option.some.inj (hsq.symm.trans hsq')
      refine ⟨P.move p q, ?_, hshows'⟩
      rw [hid, movesIn_snoc]
      exact htrace.snoc hmove
    · cases hfalse
  · obtain ⟨P, htrace, hshows⟩ := h.plays e (hst.others e he hid) hbw
    refine ⟨P, ?_, hshows⟩
    rw [movesIn_snoc_of_ne (Ne.symm hid)]
    exact htrace

theorem AllPlay.step (h : AllPlay s made) (hst : server.Step s l s') :
    AllPlay s' (recordMoves s l s' made) := by
  have hbase : s'.world.Base := h.base.upds (server_step_upds hst)
  by_cases hmove : ∃ i t, l = .frame i (.move t)
  · obtain ⟨i, t, rfl⟩ := hmove
    rcases server_step_moves h.base hst with ⟨hnone, hrej⟩ | ⟨l, r, r', hmade, hmoves⟩
    · have hsame : recordMoves s (.frame i (.move t)) s' made = made := by
        simp [recordMoves, hnone]
      rw [hsame]
      exact ⟨hbase, fun e he => hrej.roomsTotal ▸ h.bound e he, h.rejects hrej⟩
    · have hsnoc : recordMoves s (.frame i (.move t)) s' made = made ++ [(r.roomId, l)] := by
        simp [recordMoves, hmade]
      rw [hsnoc]
      refine ⟨hbase, fun e he => ?_, h.moves hmoves⟩
      rw [hmoves.roomsTotal]
      rcases List.mem_append.1 he with he | he
      · exact h.bound e he
      · obtain rfl := List.mem_singleton.1 he
        exact (h.base.bound r hmoves.mem).2
  · have hsame : recordMoves s l s' made = made := by
      have hnone : s.moveMade l = none := by
        unfold moveMade
        split
        · exact absurd ⟨_, _, rfl⟩ hmove
        · rfl
      simp [recordMoves, hnone]
    rw [hsame]
    by_cases hpair : l = .pair
    · subst hpair
      have hopens := server_step_opens hst
      refine ⟨hbase, fun e he => (h.bound e he).trans hopens.roomsTotal, fun e he => ?_⟩
      rcases hopens.games e he with he | ⟨id, a, b, hid, rfl⟩
      · exact h.plays e he
      · exact .create h.bound hid a b
    · have hkeeps := server_step_keeps hst hpair fun i t hl => hmove ⟨i, t, hl⟩
      exact ⟨hbase, fun e he => hkeeps.roomsTotal ▸ h.bound e he,
        fun e he => h.plays e (hkeeps.games he)⟩

theorem AllPlay.recorded
    (h : server.Recorded recordMoves (create clients rooms fd) [] s made) : AllPlay s made :=
  h.invariant ⟨.create clients rooms fd, nofun, nofun⟩ fun _ _ _ _ ih hst => ih.step hst

/-- **Rooms play the abstract game.**  In every run, the moves that were made in a room between
two different players are legal moves from the start position, one after the other, none of which
has ended the game; they lead to the board of the room and to the side of the player on turn, who
has the black stones iff the number of moves is even, and the game of the room goes on. -/
theorem rooms_play_game
    (h : server.Recorded recordMoves (create clients rooms fd) [] s made) :
    ∀ r ∈ s.mngClient.lobby.games, r.black ≠ r.white →
      ∃ P, game.Trace Position.start (movesIn r.roomId made) P ∧ P.ended = false ∧
        r.gameState = .playing ∧ r.pf = P.board ∧ r.onTurn = r.player P.side ∧
        r.onStand = r.player P.side.other ∧
        (r.onTurn = r.black ↔ Even (movesIn r.roomId made).length) := by
  intro r hr hbw
  have hall := AllPlay.recorded h
  obtain ⟨P, htrace, hshows⟩ := hall.plays r hr hbw
  have hplaying : r.gameState = .playing := (hall.base.boards r hr).1
  have hover : P.ended = false := by
    rw [← Bool.not_eq_true, ← hshows.ended, hplaying]
    exact nofun
  refine ⟨P, htrace, hover, hplaying, hshows.board, hshows.onTurn, hshows.onStand, ?_⟩
  rw [← side_of_trace htrace, hshows.onTurn]
  cases P.side with
  | black => simp [RoomHnefatafl.player]
  | white => simpa [RoomHnefatafl.player] using hbw.symm

/-- Black has made the first move. -/
theorem rooms_play_game_opening : ∃ s made,
    server.Recorded recordMoves (create 10 5 3) [] s made ∧
    (∃ r ∈ s.mngClient.lobby.games, r.onTurn = r.white ∧ r.black ≠ r.white) ∧
    ∀ r ∈ s.mngClient.lobby.games, r.black ≠ r.white →
      ∃ P, game.Trace Position.start (movesIn r.roomId made) P ∧ P.ended = false ∧
        r.gameState = .playing ∧ r.pf = P.board ∧ r.onTurn = r.player P.side ∧
        r.onStand = r.player P.side.other ∧
        (r.onTurn = r.black ↔ Even (movesIn r.roomId made).length) := by
  have hrun : (server.replay (fun _ _ => True) (create 10 5 3)
      (firstGame ++ [.frame 0 (.move opening)])).any
      (fun s => s.mngClient.lobby.games.any fun r =>
        r.onTurn == r.white && r.black != r.white) = true := by
    decide +kernel
  obtain ⟨s, hreach, ht⟩ := System.exists_reachableIf hrun
  obtain ⟨r, hr, hwhite⟩ := List.any_eq_true.1 ht
  rw [Bool.and_eq_true, beq_iff_eq, bne_iff_ne] at hwhite
  obtain ⟨made, hmade⟩ := System.Recorded.exists_of_reachable recordMoves [] hreach
  exact ⟨s, made, hmade, ⟨r, hr, hwhite⟩, rooms_play_game hmade⟩

/-- **A move request is a step of the game of its room**, or is no legal move.  In a reachable
state, where a client may move and the room found for it shows a position of the abstract game
between two different players, the request is made iff the rules allow it.  The room then shows the
next position; it is gone iff this position ends the game. -/
theorem move_refines_game (h : Server.Reachable clients rooms fd s) {i : ℕ} {t : Coordinates}
    {c : Client} {P : Position} (hc : s.mngClient.clients[i]? = some c)
    (hacc : (Frame.move t).acceptedIn c.state = true)
    (hr : s.mngClient.lobby.games[s.mngClient.lobby.getRoomById c.roomId]? = some r)
    (hbw : r.black ≠ r.white) (hshows : r.Shows P)
    (hst : server.Step s (.frame i (.move t)) s') :
    (∃ p q, squaresOf t.text = some (p, q) ∧ game.Step P (p, q) (P.move p q) ∧
      ((P.move p q).ended = true → ∀ e ∈ s'.mngClient.lobby.games, e.roomId ≠ r.roomId) ∧
      ((P.move p q).ended = false → ∃ e ∈ s'.mngClient.lobby.games,
        e.roomId = r.roomId ∧ e.Shows (P.move p q))) ∨
    (∀ l, squaresOf t.text = some l → ¬ game.guard P l) ∧
      ∃ e ∈ s'.mngClient.lobby.games, e.roomId = r.roomId ∧ e.Shows P := by
  have hb := h.base
  have hmem := List.mem_of_getElem? hr
  rcases server_step_moves hb hst with ⟨hnone, hrej⟩ | ⟨l, r₁, r', hmade, hmoves⟩
  · refine Or.inr ⟨fun l hl hguard => ?_, ?_⟩
    · obtain ⟨⟨r', b⟩, hproc⟩ := RoomHnefatafl.processMove_returns (r := r)
        (le_antisymm t.upper t.lower) t.chars
      rcases Plays.processMove hshows hbw hb hmem hproc with ⟨rfl, -⟩ | ⟨-, hnot, -⟩
      · have hmade : MoveMade r t.text := ⟨r', hproc⟩
        simp [moveMade, hc, hr, hl, hacc, hmade] at hnone
      · exact hnot l hl hguard
    · obtain ⟨e, he, rfl | ⟨t', hproc⟩⟩ := hrej.kept r hmem
      · exact ⟨e, he, rfl, hshows⟩
      · rcases Plays.processMove hshows hbw hb hmem hproc with ⟨hfalse, -⟩ | ⟨-, -, hstill⟩
        · cases hfalse
        · exact ⟨e, he, (RoomHnefatafl.processMove_players hproc).1, hstill⟩
  · obtain ⟨hsq, -, hid⟩ : squaresOf t.text = some l ∧ MoveMade r t.text ∧
        r.roomId = r₁.roomId := by
      simpa [moveMade, hc, hr, hacc, Option.bind_eq_some_iff, and_comm, and_assoc,
        and_left_comm] using hmade
    obtain rfl : r = r₁ := hb.ids.eq_of_mem hmem hmoves.mem (congrArg some hid) rfl
    obtain ⟨t', hsq', hproc⟩ := hmoves.squares
    rcases Plays.processMove hshows hbw hb hmem hproc with
      ⟨-, p, q, hpq, hstep, hnext⟩ | ⟨hfalse, -⟩
    swap
    · cases hfalse
    obtain rfl : l = (p, q) := Option.some.inj (hsq'.symm.trans hpq)
    refine Or.inl ⟨p, q, hsq, hstep, fun hover e he heq => ?_, fun hplay => ?_⟩
    · obtain rfl := hmoves.kept e he heq
      exact hmoves.ended.1 he (hnext.ended.2 hover)
    · refine ⟨r', hmoves.ended.2 fun hgone => ?_, hmoves.id, hnext⟩
      rw [hnext.ended.1 hgone] at hplay
      cases hplay

theorem move_refines_game_opening : ∃ s s' r P, Server.Reachable 10 5 3 s ∧
    server.Step s (.frame 0 (.move opening)) s' ∧ r ∈ s.mngClient.lobby.games ∧
    ((∃ p q, squaresOf opening.text = some (p, q) ∧ game.Step P (p, q) (P.move p q) ∧
      ((P.move p q).ended = true → ∀ e ∈ s'.mngClient.lobby.games, e.roomId ≠ r.roomId) ∧
      ((P.move p q).ended = false → ∃ e ∈ s'.mngClient.lobby.games,
        e.roomId = r.roomId ∧ e.Shows (P.move p q))) ∨
    (∀ l, squaresOf opening.text = some l → ¬ game.guard P l) ∧
      ∃ e ∈ s'.mngClient.lobby.games, e.roomId = r.roomId ∧ e.Shows P) := by
  have hrun : (server.replay (fun _ _ => True) (create 10 5 3) firstGame).any (fun s =>
      decide (server.guard s (.frame 0 (.move opening))) &&
        (server.exec s (.frame 0 (.move opening))).toOption.any fun _ =>
          s.mngClient.clients[0]?.any fun c => (Frame.move opening).acceptedIn c.state &&
            s.mngClient.lobby.games[s.mngClient.lobby.getRoomById c.roomId]?.any fun r =>
              r.black != r.white && r.onTurn == r.black && r.onStand == r.white &&
                decide (r.gameState = .playing)) = true := by
    decide +kernel
  obtain ⟨s, s', hreach, hstep, ht⟩ := System.exists_step hrun
  obtain ⟨c, hc, ht⟩ := (Option.any_eq_true _ _).1 ht
  obtain ⟨hacc, ht⟩ := Bool.and_eq_true_iff.1 ht
  obtain ⟨r, hr, ht⟩ := (Option.any_eq_true _ _).1 ht
  simp only [Bool.and_eq_true, bne_iff_ne, beq_iff_eq, decide_eq_true_eq] at ht
  obtain ⟨⟨⟨hbw, hturn⟩, hstand⟩, hplay⟩ := ht
  have hshows : r.Shows ⟨r.pf, .black, false⟩ := ⟨rfl, hturn, hstand, by simp [hplay]⟩
  exact ⟨s, s', r, _, hreach, hstep, List.mem_of_getElem? hr,
    move_refines_game hreach hc hacc hr hbw hshows hstep⟩

end Server

end HnefServer
