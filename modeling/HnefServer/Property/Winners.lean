import HnefServer.Game.Rules
import HnefServer.Invariant.Fair
import HnefServer.Invariant.NoFault
import HnefServer.Property.Boards
import HnefServer.Property.Exits
import HnefServer.Property.Moves

/-!
# The end of a game

In every reachable state a move ends its game iff the King has reached a corner or was enclosed by
the black stone that was moved next to it.  `requestMove` infers the winner from the nicks of the
room; it tells the two players of the room as long as they are there (`winners_told`).
-/

namespace HnefServer

open Protocol ClientManager RoomHnefatafl

namespace ClientManager

variable {m m' : ClientManager} {i : ℕ} {c : Client} {r r' : RoomHnefatafl} {b : ℤ}

/-- The client at `k` is the player of a side of the room. -/
def PlaysAs (m : ClientManager) (r : RoomHnefatafl) (side : Side) (k : ℕ) : Prop :=
  ∃ c, m.clients[k]? = some c ∧ c.nick ≠ [] ∧ c.nick = r.player side ∧ c.roomId = r.roomId

/-- The last move of a game, a stone of `side`, is told: the player of the side has won, and the
other player of the room has lost. -/
def ResultTold (m m' : ClientManager) (r : RoomHnefatafl) (side : Side) : Prop :=
  ∃ frames w l, m'.sent = m.sent ++ frames ∧ m.PlaysAs r side w ∧ m.PlaysAs r side.other l ∧
    ∀ k, ((k, SC_GO_WIN) ∈ frames ↔ k = w) ∧ ((k, SC_GO_LOSS) ∈ frames ↔ k = l)

/-- Whenever a move request ends a game, it returns, and the player whose stone was moved is told to
have won. -/
def WinnersTold (m : ClientManager) : Prop :=
  ∀ i c r r', ∀ t : Coordinates, m.clients[i]? = some c →
    m.lobby.games[m.lobby.getRoomById c.roomId]? = some r →
    r.processMove t.text = .ok (r', true) → r'.gameState = .gameover →
    ∃ m' b p q side, m.requestMove i t.text = .ok (m', b) ∧ t.Spells p q ∧
      Side.Owns side (r.pf p) ∧ m.ResultTold m' r side

/-- The frames of the last move of a game, and who gets them. -/
theorem sent_gameover {t : Coordinates} (hc : m.clients[i]? = some c)
    (hr : m.lobby.games[m.lobby.getRoomById c.roomId]? = some r)
    (hproc : r.processMove t.text = .ok (r', true)) (hover : r'.gameState = .gameover)
    (h : m.requestMove i t.text = .ok (m', b)) :
    m'.sent = m.sent ++ [(m.findClientByNick r.onTurn, SC_MV_VALID),
      (m.findClientByNick r.onStand, SC_OPN_MOVE ++ OP_INI ++ t.text),
      (m.findClientByNick r.onStand, SC_GO_LOSS), (m.findClientByNick r.onTurn, SC_GO_WIN)] := by
  obtain ⟨c₁, k, r₁, r₁', hc₁, rfl, hr₁, -, hcases⟩ := requestMove_outcome h
  obtain rfl : c = c₁ := Option.some.inj (hc.symm.trans hc₁)
  obtain rfl : r = r₁ := Option.some.inj (hr.symm.trans hr₁)
  rcases hcases with ⟨hproc', -⟩ | ⟨hproc', -, -, a, d, -, -, hcases⟩
  · rw [hproc] at hproc'
    cases hproc'
  rw [hproc] at hproc'
  cases hproc'
  rcases hcases with ⟨hnot, -⟩ | ⟨-, hdestroy⟩
  · exact absurd hover hnot
  obtain ⟨-, -, -, -, -, hsent, -⟩ := destroyRoom_cases hdestroy
  rw [hsent]
  simp [handedOver, sendToClient, ClientManager.modify, putRoom]

/-- The side that is on turn, in a room that has the colours of its two players. -/
theorem exists_side (hcol : Hall.Coloured r) (hne : r.onTurn ≠ r.onStand) :
    ∃ side, r.black ≠ r.white ∧ r.onTurn = r.player side ∧ r.onStand = r.player side.other := by
  rcases hcol with ⟨hb, hw⟩ | ⟨hb, hw⟩
  · exact ⟨.black, by rw [hb, hw]; exact hne, hb.symm, hw.symm⟩
  · exact ⟨.white, by rw [hb, hw]; exact hne.symm, hw.symm, hb.symm⟩

/-- A player who sits in the room is found by its nick. -/
theorem playsAs_of_sits {socks : List ℤ} (hb : (m.world socks).Base) {side : Side} {n : Text}
    (hn : n = r.player side) (h : Hall.Sits m.clients n r.roomId) :
    m.PlaysAs r side (m.findClientByNick n) := by
  obtain ⟨hne, e, he, rfl, hroom⟩ := h
  obtain ⟨k, hk⟩ := List.mem_iff_getElem?.1 he
  rw [Hall.findClientByNick_eq hb.nicks hk hne]
  exact ⟨e, hk, hne, hn, hroom⟩

/-- A move request in a room whose players are there returns. -/
theorem returns_of_played {socks : List ℤ} (hb : (m.world socks).Base)
    (hc : m.clients[i]? = some c)
    (hr : m.lobby.games[m.lobby.getRoomById c.roomId]? = some r)
    (h : Hall.Played m.clients r) (t : Coordinates) : Returns (m.requestMove i t.text) := by
  obtain ⟨x, a, y, d, ho, ha, hd⟩ := Hall.opponents_of_sits hb.ids hr h.ne h.onTurn h.onStand
  have hid : c.roomId = r.roomId := (room_of_getRoomById hr).symm
  exact Hall.returns_requestMove_of_players hb.nicks hc hid ho ha hd t

theorem winnersTold_of_listed {socks : List ℤ} (hb : (m.world socks).Base)
    (hl : m.hall.Listed) : m.WinnersTold := by
  intro i c r r' t hc hr hproc hover
  have hplayed := hl.played r (List.mem_of_getElem? hr)
  obtain ⟨⟨m', b⟩, hreturns⟩ := returns_of_played hb hc hr hplayed t
  obtain ⟨side, hbw, hturn, hstand⟩ := exists_side hplayed.colours hplayed.ne
  obtain ⟨p, q, hspells, hfields, -⟩ := processMove_accepted hproc
  refine ⟨m', b, p, q, side, hreturns, hspells, ((legalFields_iff hbw hturn).1 hfields).1, _, _, _,
    sent_gameover hc hr hproc hover hreturns, playsAs_of_sits hb hturn hplayed.onTurn,
    playsAs_of_sits hb hstand hplayed.onStand, fun k => ?_⟩
  simp [SC_GO_WIN, SC_GO_LOSS, SC_MV_VALID, SC_OPN_MOVE, OP_INI]

end ClientManager

namespace Server

variable {clients rooms : ℕ} {fd : ℤ} {s : Server}

/-- **The end of a game.**  In every reachable state an accepted move ends the game of its room iff
it brings the King to a corner, or a black stone next to the King, who is enclosed after the
captures.  In the states a fair run reaches the player whose stone was moved is told to have won,
and the other one to have lost. -/
theorem winners_told (h : Server.Reachable clients rooms fd s) :
    (∀ r ∈ s.mngClient.lobby.games, r.gameState = .playing ∧
      ∀ (t : Coordinates) (r' : RoomHnefatafl), r.processMove t.text = .ok (r', true) →
        ∃ p q, t.Spells p q ∧ (r'.gameState = .gameover ↔ EndsGame r.pf p q r'.pf)) ∧
    (FairReachable clients rooms fd s → s.mngClient.WinnersTold) := by
  refine ⟨fun r hr => ?_, fun hfair => ?_⟩
  · obtain ⟨hplay, hpf⟩ := h.base.boards r hr
    refine ⟨hplay, fun t r' hproc => ?_⟩
    obtain ⟨p, q, hspells, -, hiff⟩ := gameover_iff hpf.king hplay hproc
    exact ⟨p, q, hspells, hiff⟩
  · have hb : (s.mngClient.world s.sockets).Base := h.base
    exact winnersTold_of_listed hb hfair.listed

/-- The last move of a game is due, in a fair run. -/
theorem winners_told_escape : ∃ s, FairReachable 10 5 3 s ∧
    (∃ r ∈ s.mngClient.lobby.games, ∃ r', r.processMove lastMove.text = .ok (r', true) ∧
      r'.gameState = .gameover) ∧
    (∀ r ∈ s.mngClient.lobby.games, r.gameState = .playing ∧
      ∀ (t : Coordinates) (r' : RoomHnefatafl), r.processMove t.text = .ok (r', true) →
        ∃ p q, t.Spells p q ∧ (r'.gameState = .gameover ↔ EndsGame r.pf p q r'.pf)) ∧
    s.mngClient.WinnersTold := by
  have hrun : (server.replay Fair (create 10 5 3) (firstGame ++ escape)).any (fun s =>
      s.mngClient.lobby.games.any fun r => (r.processMove lastMove.text).toOption.any fun p =>
        p.2 && decide (p.1.gameState = .gameover)) = true := by
    decide +kernel
  obtain ⟨s, hs, ht⟩ := System.exists_reachableIf hrun
  obtain ⟨r, hr, ht⟩ := List.any_eq_true.1 ht
  obtain ⟨⟨r', b⟩, hproc, ht⟩ := of_toOption_any ht
  obtain ⟨rfl, hover⟩ : b = true ∧ r'.gameState = .gameover := by simpa using ht
  obtain ⟨hends, htold⟩ := winners_told hs.reachable
  exact ⟨s, hs, ⟨r, hr, r', hproc, hover⟩, hends, htold hs⟩

/-- The loser of the game has lost the connection, was evicted for a new client, and the new client
took the free nick. -/
def nickTaken : List Input :=
  firstGame ++ escape ++ [.close 0, .accept "10.0.0.6".toList 6, .frame 1 (.connect alice)]

/-- A client who is in no game is told to have lost one. -/
theorem stranger_told : ∃ (s : Server) (m' : ClientManager) (b : ℤ) (k : ℕ) (d : Client),
    Server.Reachable 2 5 3 s ∧ s.mngClient.requestMove 0 lastMove.text = .ok (m', b) ∧
      (k, SC_GO_LOSS) ∈ m'.sent ∧ s.mngClient.clients[k]? = some d ∧ d.roomId = 0 ∧
      ¬ s.mngClient.WinnersTold := by
  have hrun : (server.replay (fun _ _ => True) (create 2 5 3) nickTaken).any (fun s =>
      (s.mngClient.clients[0]?).any fun c =>
        (s.mngClient.lobby.games[s.mngClient.lobby.getRoomById c.roomId]?).any fun r =>
          (r.processMove lastMove.text).toOption.any (fun p =>
            p.2 && decide (p.1.gameState = .gameover)) &&
          ((s.mngClient.requestMove 0 lastMove.text).toOption.any fun p =>
            p.1.sent.any fun e => e.2 == SC_GO_LOSS &&
              (s.mngClient.clients[e.1]?).any fun d => decide (d.roomId = 0)) &&
          decide (∀ d ∈ s.mngClient.clients, d.nick = r.black → d.roomId ≠ r.roomId)) = true := by
    decide +kernel
  obtain ⟨s, hs, ht⟩ := exists_reachable hrun
  obtain ⟨c, hc, ht⟩ := (Option.any_eq_true _ _).1 ht
  obtain ⟨r, hr, ht⟩ := (Option.any_eq_true _ _).1 ht
  simp only [Bool.and_eq_true, decide_eq_true_eq] at ht
  obtain ⟨⟨hmove, hrequest⟩, hgone⟩ := ht
  obtain ⟨⟨r', moved⟩, hproc, hlast⟩ := of_toOption_any hmove
  obtain ⟨rfl, hover⟩ : moved = true ∧ r'.gameState = .gameover := by simpa using hlast
  obtain ⟨⟨m', b⟩, hm', htold⟩ := of_toOption_any hrequest
  simp only [List.any_eq_true, Bool.and_eq_true, beq_iff_eq, Option.any_eq_true,
    decide_eq_true_eq] at htold
  obtain ⟨⟨k, msg⟩, hsent, rfl, d, hd, hlobby⟩ := htold
  refine ⟨s, m', b, k, d, hs, hm', hsent, hd, hlobby, fun htold => ?_⟩
  obtain ⟨-, -, -, -, side, -, -, -, -, w, l, -, hw, hl, -⟩ :=
    htold 0 c r r' lastMove hc hr hproc hover
  have hblack : ∀ k, ¬ s.mngClient.PlaysAs r .black k := by
    rintro k ⟨d, hd, -, hn, hroom⟩
    exact hgone d (List.mem_of_getElem? hd) hn hroom
  cases side with
  | black => exact hblack w hw
  | white => exact hblack l hl

end Server

end HnefServer
