import HnefServer.Data.Pointwise
import HnefServer.Invariant.Base
import HnefServer.Invariant.NoFault
import HnefServer.Property.Turns

/-!
# The ways out of a game

A game ends when a player leaves, when a move is the last one, or when a player whose connection
was closed is erased.  Each of them looks the two players up in another way, and changes their
states before `Lobby::destroyRoom` does; `exits_agree` says that they leave the same behind.
-/

namespace HnefServer

open Protocol ClientManager Client

variable {m m' : ClientManager} {i j k : ℕ} {c c' d d' : Client} {r r' : RoomHnefatafl}

/-- The clients at `i` and `j` are registered as the players of the room at `k`. -/
structure Players (m : ClientManager) (k : ℕ) (r : RoomHnefatafl) (i : ℕ) (c : Client) (j : ℕ)
    (d : Client) : Prop where
  room : m.lobby.games[k]? = some r
  fst : m.clients[i]? = some c
  snd : m.clients[j]? = some d
  nicks : c.nick = r.onTurn ∧ d.nick = r.onStand ∨ c.nick = r.onStand ∧ d.nick = r.onTurn
  distinct : c.nick ≠ d.nick
  fstName : c.nick ≠ []
  sndName : d.nick ≠ []
  fstRoom : c.roomId = r.roomId
  sndRoom : d.roomId = r.roomId

/-- A client after the game in `r` has ended: a player of it is in the lobby, any other client is
as it was. -/
def AfterGame (r : RoomHnefatafl) (c c' : Client) : Prop :=
  if c.nick = r.onTurn ∨ c.nick = r.onStand then
    c'.nick = c.nick ∧ c'.roomId = 0 ∧ c'.logical = .waiting
  else c' = c

/-- The game in the room at `k` has ended, `cs` being the instances that were not erased. -/
structure GameEnded (m : ClientManager) (k : ℕ) (r : RoomHnefatafl) (cs : List Client)
    (m' : ClientManager) : Prop where
  games : m'.lobby.games = m.lobby.games.eraseIdx k
  clients : List.Forall₂ (AfterGame r) cs m'.clients

/-- What destroying its room makes of a player. -/
def freed (c : Client) : Client := (toWaiting c.state c).setRoomId 0

theorem logical_freed (c : Client) : (freed c).logical = .waiting := by
  unfold freed toWaiting
  split_ifs with hs
  · exact logical_of_inaccessible hs
  · exact logical_setState rfl

theorem nick_freed (c : Client) : (freed c).nick = c.nick := by
  unfold freed toWaiting
  split_ifs <;> rfl

/-! ### Destroying a room -/

namespace Opponents

/-- Both players have changed, and nobody else. -/
theorem afterGame (hnames : DistinctKeys nickKey m.clients) (ho : Opponents m k r i c j d)
    (hc : c'.nick = c.nick ∧ c'.roomId = 0 ∧ c'.logical = .waiting)
    (hd : d'.nick = d.nick ∧ d'.roomId = 0 ∧ d'.logical = .waiting) :
    List.Forall₂ (AfterGame r) m.clients ((m.clients.set i c').set j d') := by
  refine forall₂_iff_getElem?.2 ⟨by simp, fun x a b ha hb => ?_⟩
  rw [List.getElem?_set, List.getElem?_set] at hb
  have hplayer : ∀ {y : ℕ} {e : Client}, m.clients[y]? = some e → e.nick ≠ [] → y ≠ x →
      e.nick ≠ a.nick := by
    intro y e he hne hyx heq
    exact hyx (Hall.eq_of_nick hnames he ha heq hne)
  by_cases hj : j = x
  · subst hj
    obtain rfl : d = a := Option.some.inj (ho.snd.symm.trans ha)
    rw [if_pos rfl, List.length_set, if_pos (List.getElem?_eq_some_iff.1 ha).1] at hb
    obtain rfl : d' = b := Option.some.inj hb
    rw [AfterGame, if_pos (ho.nicks.elim (fun h => Or.inr h.2) fun h => Or.inl h.2)]
    exact hd
  rw [if_neg hj] at hb
  by_cases hi : i = x
  · subst hi
    obtain rfl : c = a := Option.some.inj (ho.fst.symm.trans ha)
    rw [if_pos rfl, if_pos (List.getElem?_eq_some_iff.1 ha).1] at hb
    obtain rfl : c' = b := Option.some.inj hb
    rw [AfterGame, if_pos (ho.nicks.elim (fun h => Or.inl h.1) fun h => Or.inr h.1)]
    exact hc
  · rw [if_neg hi, ha] at hb
    obtain rfl : a = b := Option.some.inj hb
    have hfst := hplayer ho.fst ho.fstName hi
    have hsnd := hplayer ho.snd ho.sndName hj
    rw [AfterGame, if_neg]
    rintro (ht | hs)
    · rcases ho.nicks with ⟨hcn, -⟩ | ⟨-, hdn⟩
      · exact hfst (hcn.trans ht.symm)
      · exact hsnd (hdn.trans ht.symm)
    · rcases ho.nicks with ⟨-, hdn⟩ | ⟨hcn, -⟩
      · exact hsnd (hdn.trans hs.symm)
      · exact hfst (hcn.trans hs.symm)

/-- What destroying the room of two players does, after they have been told. -/
theorem destroyRoom (ho : Opponents m k r i c j d) (hid : r.roomId ≠ 0) {told : ClientManager}
    (h : told.destroyRoom r.roomId i j = .ok m') (htold : told.hall = m.hall) :
    m'.lobby.games = m.lobby.games.eraseIdx k ∧
      m'.clients = (m.clients.set i (freed c)).set j (freed d) := by
  have ho' : Opponents told k r i c j d := ho.of_hall htold
  have hcs : told.clients = m.clients := congrArg Hall.clients htold
  have hl : told.lobby = m.lobby := congrArg Hall.lobby htold
  obtain ⟨a, b, ha, hb, hcs', -, ⟨hzero, -⟩ | ⟨-, -, hl'⟩⟩ := destroyRoom_cases h
  · exact absurd hzero hid
  obtain rfl : c = a := Option.some.inj (ho'.fst.symm.trans ha)
  obtain rfl : d = b := Option.some.inj (ho'.snd.symm.trans hb)
  refine ⟨by rw [hl', ho'.find, hl], ?_⟩
  rw [hcs', freeClients_eq ho.ne, ← hcs]
  exact modify₂_eq_set ho'.fst ho'.snd ho.ne

/-! ### The three ways -/

/-- The players of a room are found where they are registered. -/
theorem of_players {socks : List ℤ} (hb : (m.world socks).Base) (hp : Players m k r i c j d) :
    Opponents m k r i c j d := by
  refine ⟨hp.room, Hall.getRoomById_eq hb.ids hp.room, hp.fst, hp.snd, ?_, hp.fstRoom, hp.sndRoom,
    hp.fstName, hp.sndName, hp.nicks⟩
  rintro rfl
  obtain rfl : c = d := Option.some.inj (hp.fst.symm.trans hp.snd)
  exact hp.distinct rfl

/-- The game has ended when its room was destroyed. -/
theorem gameEnded (hnames : DistinctKeys nickKey m.clients) (ho : Opponents m k r i c j d)
    (hid : r.roomId ≠ 0) {told : ClientManager} (h : told.destroyRoom r.roomId i j = .ok m')
    (htold : told.hall = m.hall) : GameEnded m k r m.clients m' := by
  obtain ⟨hgames, hclients⟩ := ho.destroyRoom hid h htold
  refine ⟨hgames, ?_⟩
  rw [hclients]
  exact ho.afterGame hnames ⟨nick_freed c, rfl, logical_freed c⟩
    ⟨nick_freed d, rfl, logical_freed d⟩

/-- A player leaves. -/
theorem ended_leave (hnames : DistinctKeys nickKey m.clients) (ho : Opponents m k r i c j d)
    (hid : r.roomId ≠ 0) :
    ∃ m' b, m.requestLeave i = .ok (m', b) ∧ GameEnded m k r m.clients m' := by
  obtain ⟨⟨m', b⟩, hleave⟩ := Hall.returns_requestLeave hnames ho
  refine ⟨m', b, hleave, ?_⟩
  obtain ⟨c₁, n, m₁, hc₁, hopp, hsend, hdestroy⟩ := requestLeave_cases hleave
  obtain rfl : c = c₁ := Option.some.inj (ho.fst.symm.trans hc₁)
  obtain rfl : d.nick = n := Except.ok.inj ((ho.getOpponentOf hnames).symm.trans hopp)
  obtain ⟨hcs, hl⟩ := sendToOpponentOf_same hsend
  rw [Hall.findClientByNick_eq hnames ho.snd ho.sndName, ho.fstRoom] at hdestroy
  refine ho.gameEnded hnames hid hdestroy ?_
  simp only [ClientManager.hall, hcs, hl]
  rfl

/-- A player whose connection was closed is erased. -/
theorem ended_erase (hnames : DistinctKeys nickKey m.clients) (ho : Opponents m k r i c j d)
    (hid : r.roomId ≠ 0) (hgame : c.stateLast.inGame = true) :
    ∃ m', m.eraseClient i = .ok m' ∧ GameEnded m k r (m.clients.eraseIdx i) m' := by
  have hhas : HasRoom c := ⟨ho.fstName, fun hroom => hid (ho.fstRoom.symm.trans hroom), hgame⟩
  obtain ⟨m', herase⟩ := Hall.returns_eraseClient hnames ho.fst fun _ => ⟨k, r, j, d, ho⟩
  refine ⟨m', herase, ?_⟩
  obtain ⟨c₁, hc₁, ⟨hnot, -⟩ | ⟨-, n, m₁, m₂, hopp, hcs, hl, hdestroy, rfl⟩⟩ :=
    eraseClient_cases herase
  all_goals obtain rfl : c = c₁ := Option.some.inj (ho.fst.symm.trans hc₁)
  · exact absurd hhas hnot
  obtain rfl : d.nick = n := Except.ok.inj ((ho.getOpponentOf hnames).symm.trans hopp)
  rw [Hall.findClientByNick_eq hnames ho.snd ho.sndName, ho.fstRoom] at hdestroy
  have hended : GameEnded m k r m.clients m₂ :=
    ho.gameEnded hnames hid hdestroy (by simp only [ClientManager.hall, hcs, hl])
  exact ⟨hended.games, forall₂_eraseIdx hended.clients i⟩

/-- A move is the last one: `c` has the turn after it. -/
theorem ended_move (hnames : DistinctKeys nickKey m.clients) (ho : Opponents m k r i c j d)
    (hcn : c.nick = r.onStand) (hdn : d.nick = r.onTurn) (hid : r.roomId ≠ 0) {p : ℕ} {e : Client}
    (he : m.clients[p]? = some e) (hroom : e.roomId = r.roomId) {t : Text}
    (hproc : r.processMove t = .ok (r', true)) (hover : r'.gameState = .gameover) :
    ∃ m' b, m.requestMove p t = .ok (m', b) ∧ GameEnded m k r m.clients m' := by
  obtain ⟨hid', -, -, hturn⟩ := RoomHnefatafl.processMove_players hproc
  obtain ⟨-, ht, hs⟩ := hturn.resolve_left fun h => by simp at h
  have hfind : m.lobby.getRoomById e.roomId = k := hroom ▸ ho.find
  obtain ⟨m', hafter⟩ := Hall.returns_afterMove hnames ho hcn hdn hid' ht hs t
  have hmove : m.requestMove p t = .ok (m', 0) := by
    simp only [requestMove, deref_eq_ok.2 he, ok_bind, Lobby.moveInRoom, hfind,
      lobby_deref_eq_ok.2 ho.room, hproc, pure_eq_ok, if_true]
    rw [hroom]
    exact bind_eq_ok.2 ⟨m', hafter, rfl⟩
  refine ⟨m', 0, hmove, ?_⟩
  obtain ⟨e₁, k₁, r₁, r₂, he₁, rfl, hr₁, -, hcases⟩ := requestMove_outcome hmove
  obtain rfl : e = e₁ := Option.some.inj (he.symm.trans he₁)
  rw [hfind] at hr₁ hcases
  obtain rfl : r = r₁ := Option.some.inj (ho.room.symm.trans hr₁)
  rcases hcases with ⟨hproc₂, -⟩ | ⟨hproc₂, -, -, a, b, ha, -, hend⟩
  · rw [hproc] at hproc₂
    cases hproc₂
  obtain rfl : r' = r₂ := by
    rw [hproc] at hproc₂
    exact (Prod.mk.inj (Except.ok.inj hproc₂)).1
  rcases hend with ⟨hnot, -⟩ | ⟨-, hdestroy⟩
  · exact absurd hover hnot
  have hi : m.findClientByNick r.onStand = i := by
    rw [← hcn]
    exact Hall.findClientByNick_eq hnames ho.fst ho.fstName
  have hj : m.findClientByNick r.onTurn = j := by
    rw [← hdn]
    exact Hall.findClientByNick_eq hnames ho.snd ho.sndName
  rw [hi] at ha
  obtain rfl : c = a := Option.some.inj (ho.fst.symm.trans ha)
  rw [hi, hj, hroom, ← hid'] at hdestroy
  -- the room is destroyed after both players have been told
  have hpassed := ho.handedOver hid' (ht.trans hcn.symm) (hs.trans hdn.symm) t
  obtain ⟨hgames, hclients⟩ := hpassed.destroyRoom (hid'.symm ▸ hid) hdestroy
    ((ClientManager.hall_sendToClient _ _ _).trans (ClientManager.hall_sendToClient _ _ _))
  refine ⟨hgames.trans List.eraseIdx_set_eq, ?_⟩
  have hturned : ((m.putRoom k r').handedOver i j c.state t).clients =
      (m.clients.set i (handOver c.state c)).set j (d.setState .playingOnStand) :=
    modify₂_eq_set ho.fst ho.snd ho.ne
  rw [hclients, hturned, set₄ ho.ne]
  exact ho.afterGame hnames ⟨(nick_freed _).trans (handOver_nick _ _), rfl, logical_freed _⟩
    ⟨nick_freed _, rfl, logical_freed _⟩

end Opponents

/-! ### Agreement -/

namespace Server

variable {clients rooms : ℕ} {fd : ℤ} {s : Server}

/-- **The three ways out of a game agree.**  Whether a player of a room leaves, a move is the last
one, or a player whose connection was closed is erased: the room is gone, its players are in the
lobby, and nothing else has changed. -/
theorem exits_agree (h : Server.Reachable clients rooms fd s)
    (hp : Players s.mngClient k r i c j d) :
    (∃ m b, s.mngClient.requestLeave i = .ok (m, b) ∧
      GameEnded s.mngClient k r s.mngClient.clients m) ∧
    (∀ p e t r', s.mngClient.clients[p]? = some e → e.roomId = r.roomId →
      r.processMove t = .ok (r', true) → r'.gameState = .gameover →
      ∃ m b, s.mngClient.requestMove p t = .ok (m, b) ∧
        GameEnded s.mngClient k r s.mngClient.clients m) ∧
    (c.state = .disconnected → c.stateLast.inGame = true →
      ∃ m, s.mngClient.eraseClient i = .ok m ∧
        GameEnded s.mngClient k r (s.mngClient.clients.eraseIdx i) m) := by
  have hb : (s.mngClient.world s.sockets).Base := h.base
  have ho := Opponents.of_players hb hp
  have hid : r.roomId ≠ 0 := (hb.bound r (List.mem_of_getElem? hp.room)).1.ne'
  refine ⟨ho.ended_leave hb.nicks hid, ?_, fun _ hgame => ho.ended_erase hb.nicks hid hgame⟩
  intro p e t r' he hroom hproc hover
  rcases ho.nicks with ⟨hcn, hdn⟩ | ⟨hcn, hdn⟩
  · exact ho.symm.ended_move hb.nicks hdn hcn hid he hroom hproc hover
  · exact ho.ended_move hb.nicks hcn hdn hid he hroom hproc hover

/-- The stone of the first move moves back. -/
def backAgain : Coordinates := ⟨"02000300".toList, by decide, by decide, by simp⟩

/-- The King's last move, to a corner. -/
def lastMove : Coordinates := ⟨"09001000".toList, by decide, by decide, by simp⟩

/-- The game before the last move: black moves a stone to and fro, white frees the King. -/
def escape : List Input :=
  [(opening, ⟨"05030203".toList, by decide, by decide, by simp⟩),
    (backAgain, ⟨"05040502".toList, by decide, by decide, by simp⟩),
    (opening, ⟨"05050503".toList, by decide, by decide, by simp⟩),
    (backAgain, ⟨"05030903".toList, by decide, by decide, by simp⟩),
    (opening, ⟨"09030900".toList, by decide, by decide, by simp⟩)].flatMap
    (fun t => [.frame 0 (.move t.1), .frame 1 (.move t.2)]) ++ [.frame 0 (.move backAgain)]

/-- The three ways out of a game whose last move is due, after its loser has lost the
connection. -/
theorem exits_agree_escape : ∃ (s : Server) (r r' : RoomHnefatafl) (c d : Client),
    Players s.mngClient 0 r 0 c 1 d ∧ r.processMove lastMove.text = .ok (r', true) ∧
      r'.gameState = .gameover ∧ c.state = .disconnected ∧ c.stateLast.inGame = true ∧
    (∃ m b, s.mngClient.requestLeave 0 = .ok (m, b) ∧
      GameEnded s.mngClient 0 r s.mngClient.clients m) ∧
    (∃ m b, s.mngClient.requestMove 1 lastMove.text = .ok (m, b) ∧
      GameEnded s.mngClient 0 r s.mngClient.clients m) ∧
    ∃ m, s.mngClient.eraseClient 0 = .ok m ∧
      GameEnded s.mngClient 0 r (s.mngClient.clients.eraseIdx 0) m := by
  have hrun : (server.replay (fun _ _ => True) (create 10 5 3)
      (firstGame ++ escape ++ [.close 0])).any (fun s =>
        (s.mngClient.lobby.games[0]?).any fun r => (s.mngClient.clients[0]?).any fun c =>
          (s.mngClient.clients[1]?).any fun d => (r.processMove lastMove.text).toOption.any fun p =>
            decide (((c.nick = r.onTurn ∧ d.nick = r.onStand ∨
              c.nick = r.onStand ∧ d.nick = r.onTurn) ∧ c.nick ≠ d.nick ∧ c.nick ≠ [] ∧
                d.nick ≠ [] ∧ c.roomId = r.roomId ∧ d.roomId = r.roomId) ∧ p.2 = true ∧
              p.1.gameState = .gameover ∧ c.state = .disconnected ∧ c.stateLast.inGame = true)) =
        true := by
    decide +kernel
  obtain ⟨s, hs, ht⟩ := exists_reachable hrun
  obtain ⟨r, hr, ht⟩ := (Option.any_eq_true _ _).1 ht
  obtain ⟨c, hc, ht⟩ := (Option.any_eq_true _ _).1 ht
  obtain ⟨d, hd, ht⟩ := (Option.any_eq_true _ _).1 ht
  obtain ⟨⟨r', b⟩, hproc, ht⟩ := of_toOption_any ht
  obtain ⟨⟨hnicks, hne, hcn, hdn, hcr, hdr⟩, rfl, hover, hgone, hgame⟩ := of_decide_eq_true ht
  have hp : Players s.mngClient 0 r 0 c 1 d := ⟨hr, hc, hd, hnicks, hne, hcn, hdn, hcr, hdr⟩
  obtain ⟨hleave, hmove, herase⟩ := exits_agree hs hp
  exact ⟨s, r, r', c, d, hp, hproc, hover, hgone, hgame, hleave,
    hmove 1 d _ r' hd hdr hproc hover, herase hgone hgame⟩

end Server

end HnefServer
