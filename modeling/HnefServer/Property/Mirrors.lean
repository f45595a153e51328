import HnefServer.Mirror.Steps
import HnefServer.Property.Games
import HnefServer.Property.Lookups
import HnefServer.Property.Winners

/-!
# The clients know their games

A client learns about its game from frames only: `clients_know_their_place` says that this is
enough, over all runs in which clients send what they should, with lost connections, reconnections
and evictions.  In every room then one player believes to be on turn, and both see the board of the
server (`players_agree`), so that a player can tell from what it sees whether the move it asks for
will be made (`belief_decides_move`).
-/

namespace HnefServer

open Protocol ClientManager

namespace Server

variable {clients rooms : ℕ} {fd : ℤ} {s : Server} {vs : List Mirror}

/-- Runs with the mirrors of the clients. -/
abbrev Mirrors (clients rooms : ℕ) (fd : ℤ) : Server → List Mirror → Prop :=
  (server.restrict Candid).Recorded mirrors (create clients rooms fd) []

theorem Mirrors.orderly (h : Mirrors clients rooms fd s vs) :
    OrderlyReachable true clients rooms fd s :=
  h.reachable.reachableIf.mono fun _ _ => Candid.orderly

theorem Mirrors.mirrored (h : Mirrors clients rooms fd s vs) : s.mngClient.Mirrored vs := by
  induction h with
  | nil => exact .nil
  | snoc hrun hst ih =>
    obtain ⟨hcandid, hst⟩ := System.restrict_step.1 hst
    have ho := Mirrors.orderly hrun
    exact server_step_mirrored (Server.Reachable.base ho.reachable) ho.member ho.turns hcandid hst
      ih

/-- **The clients know their place.**  In every run whose clients send only what they should, what
a connected client concludes from its frames is true: it has no name yet, it is in the lobby, or it
is in a game, on turn iff the server says so, and sees the board of its room. -/
theorem clients_know_their_place (h : Mirrors clients rooms fd s vs) :
    vs.length = s.mngClient.clients.length ∧
      ∀ (i : ℕ) (c : Client), s.mngClient.clients[i]? = some c → 0 ≤ c.socketNum →
        ∃ v, vs[i]? = some v ∧ Sees s.mngClient.lobby.games c v.view := by
  have hvs := h.mirrored
  refine ⟨hvs.length_eq.symm, fun i c hc hsock => ?_⟩
  obtain ⟨v, hv, href⟩ := forall₂_exists_right hvs hc
  exact ⟨v, hv, href.sees hsock⟩

/-- A replayed run with its mirrors. -/
theorem exists_mirrors {run : List Input} {test : Server → Bool}
    (h : ((server.restrict Candid).replay (fun _ _ => True) (create clients rooms fd) run).any
      test = true) : ∃ s vs, Mirrors clients rooms fd s vs ∧ test s = true := by
  obtain ⟨s, hreach, ht⟩ := System.exists_reachableIf h
  obtain ⟨vs, hvs⟩ := System.Recorded.exists_of_reachable mirrors [] hreach
  exact ⟨s, vs, hvs, ht⟩

/-- After the first move white loses the connection; black pings, and answers a ping.  White comes
back from another connection, and is on turn. -/
def comeback : List Input :=
  firstGame ++ [.frame 0 (.move opening), .ping, .frame 0 .pong, .frame 0 .ping, .ping,
    .close 1, .accept "10.0.0.5".toList 6, .frame 2 (.connect bobby), .flags 1]

theorem clients_know_their_place_comeback : ∃ s vs, Mirrors 10 5 3 s vs ∧
    (∃ c ∈ s.mngClient.clients, c.socketNum = 6 ∧ c.state = .playingOnTurn) ∧
    vs.length = s.mngClient.clients.length ∧
      ∀ (i : ℕ) (c : Client), s.mngClient.clients[i]? = some c → 0 ≤ c.socketNum →
        ∃ v, vs[i]? = some v ∧ Sees s.mngClient.lobby.games c v.view := by
  have hrun : ((server.restrict Candid).replay (fun _ _ => True) (create 10 5 3) comeback).any
      (fun s => s.mngClient.clients.any fun c =>
        c.socketNum == 6 && c.state == .playingOnTurn) = true := by
    decide +kernel
  obtain ⟨s, vs, hvs, ht⟩ := exists_mirrors hrun
  obtain ⟨c, hc, hback⟩ := List.any_eq_true.1 ht
  rw [Bool.and_eq_true, beq_iff_eq, beq_iff_eq] at hback
  exact ⟨s, vs, hvs, ⟨c, hc, hback⟩, clients_know_their_place hvs⟩

/-- What a player that is connected believes about its game. -/
theorem Mirrors.player {r : RoomHnefatafl} {i : ℕ} {c : Client}
    (h : Mirrors clients rooms fd s vs) (turn : Bool) (hr : r ∈ s.mngClient.lobby.games)
    (hc : s.mngClient.clients[i]? = some c) (hroom : c.roomId = r.roomId)
    (hlog : c.logical = if turn then .playingOnTurn else .playingOnStand)
    (hsock : 0 ≤ c.socketNum) : ∃ v, vs[i]? = some v ∧ v.view = .game turn r.pf := by
  have hids := (Server.Reachable.base h.orderly.reachable).ids
  obtain ⟨v, hv, hsees⟩ := (clients_know_their_place h).2 i c hc hsock
  refine ⟨v, hv, ?_⟩
  cases hview : v.view with
  | outside | lobby =>
    rw [hview] at hsees
    cases turn <;> simp [Sees, hlog, State.place] at hsees
  | game turn' board =>
    rw [hview] at hsees
    obtain ⟨hplace, r₁, hr₁, hid, rfl⟩ := hsees
    obtain rfl : r₁ = r := hids.eq_of_mem hr₁ hr (congrArg some (hid.trans hroom)) rfl
    cases turn <;> cases turn' <;> simp_all [State.place]

/-- **The players of a room agree.**  In every run whose clients send only what they should, every
room has its two players; of these, the one on turn believes to be on turn, the other one that its
opponent is, and both see the board of the server, as long as they are connected. -/
theorem players_agree (h : Mirrors clients rooms fd s vs) :
    ∀ r ∈ s.mngClient.lobby.games, ∃ (i j : ℕ) (c d : Client), i ≠ j ∧
      s.mngClient.clients[i]? = some c ∧ s.mngClient.clients[j]? = some d ∧
      c.nick = r.onTurn ∧ d.nick = r.onStand ∧
      (0 ≤ c.socketNum → ∃ v, vs[i]? = some v ∧ v.view = .game true r.pf) ∧
      (0 ≤ d.socketNum → ∃ w, vs[j]? = some w ∧ w.view = .game false r.pf) := by
  intro r hr
  have hm := h.orderly.member
  have ht := h.orderly.turns
  obtain ⟨k, hk⟩ := List.mem_iff_getElem?.1 hr
  obtain ⟨i, c, j, d, ho, hcn, hdn⟩ := hm.players hk
  have hturn := (ht r hr c (List.mem_of_getElem? ho.fst)).turn hcn
  have hstand := (ht r hr d (List.mem_of_getElem? ho.snd)).stand hdn
  exact ⟨i, j, c, d, ho.ne, ho.fst, ho.snd, hcn, hdn,
    h.player true hr ho.fst ho.fstRoom hturn,
    h.player false hr ho.snd ho.sndRoom hstand⟩

theorem players_agree_comeback : ∃ s vs, Mirrors 10 5 3 s vs ∧ s.mngClient.lobby.games ≠ [] ∧
    (∀ c ∈ s.mngClient.clients, 0 ≤ c.socketNum) ∧
    ∀ r ∈ s.mngClient.lobby.games, ∃ (i j : ℕ) (c d : Client), i ≠ j ∧
      s.mngClient.clients[i]? = some c ∧ s.mngClient.clients[j]? = some d ∧
      c.nick = r.onTurn ∧ d.nick = r.onStand ∧
      (0 ≤ c.socketNum → ∃ v, vs[i]? = some v ∧ v.view = .game true r.pf) ∧
      (0 ≤ d.socketNum → ∃ w, vs[j]? = some w ∧ w.view = .game false r.pf) := by
  have hrun : ((server.restrict Candid).replay (fun _ _ => True) (create 10 5 3) comeback).any
      (fun s => !s.mngClient.lobby.games.isEmpty &&
        s.mngClient.clients.all fun c => decide (0 ≤ c.socketNum)) = true := by
    decide +kernel
  obtain ⟨s, vs, hvs, ht⟩ := exists_mirrors hrun
  simp only [Bool.and_eq_true, Bool.not_eq_true', List.isEmpty_eq_false_iff, List.all_eq_true,
    decide_eq_true_eq] at ht
  exact ⟨s, vs, hvs, ht.1, ht.2, players_agree hvs⟩

/-- The answer to a move request of the player on turn. -/
theorem valid_sent_iff {m m' : ClientManager} {i : ℕ} {c : Client} {r : RoomHnefatafl}
    (hm : m.hall.Member) (ht : m.hall.Turns) (hempty : m.sent = [])
    (hc : m.clients[i]? = some c) (hlog : c.logical = .playingOnTurn)
    (hs : c.state ≠ .disconnected)
    (hr : m.lobby.games[m.lobby.getRoomById c.roomId]? = some r) {t : Coordinates} {b : ℤ}
    (h : m.requestMove i t.text = .ok (m', b)) :
    (i, SC_MV_VALID) ∈ m'.sent ↔ MoveMade r t.text := by
  obtain ⟨c', k, r₁, r', hc', hk, hr₁, hid, hout⟩ := requestMove_outcome h
  obtain rfl : c = c' := Option.some.inj (hc.symm.trans hc')
  subst hk
  obtain rfl : r = r₁ := Option.some.inj (hr.symm.trans hr₁)
  rcases hout with ⟨hproc, -, -, rfl⟩ | ⟨hproc, -, -, a, d, -, -, hover⟩
  · refine ⟨fun hmem => ?_, ?_⟩
    · change _ ∈ m.sent at hmem
      rw [hempty] at hmem
      cases hmem
    · rintro ⟨r'', hmade⟩
      rw [hproc] at hmade
      cases hmade
  · refine ⟨fun _ => ⟨r', hproc⟩, fun _ => ?_⟩
    obtain ⟨j, e, ho, -, hcn, -⟩ := opponents_of_onTurn hm ht hc hlog hs hr
    have hi : m.findClientByNick r.onTurn = i := hcn ▸ hm.findClientByNick hc ho.sndName
    rw [hi] at hover
    rcases hover with ⟨-, rfl⟩ | ⟨-, hdestroy⟩
    · simp [handedOver, sendToClient]
    · obtain ⟨-, -, -, -, -, hsent, -⟩ := destroyRoom_cases hdestroy
      rw [hsent]
      simp [handedOver, sendToClient]

/-- A client that is on turn may ask for a move, and it is served. -/
theorem exists_step_move (h : Mirrors clients rooms fd s vs) (hrun : s.isRunning = true) {i : ℕ}
    {c : Client} (hc : s.mngClient.clients[i]? = some c) (hsock : 0 ≤ c.socketNum)
    (hlog : c.logical = .playingOnTurn) (t : Coordinates) :
    ∃ s', server.Step s (.frame i (.move t)) s' := by
  have horderly : s.Orderly true (.frame i (.move t)) := by
    intro c' hc' hping
    obtain rfl : c = c' := Option.some.inj (hc.symm.trans hc')
    rw [Client.logical_of_inaccessible (by rw [hping]; rfl)] at hlog
    rw [hlog]
    rfl
  have hmax : 0 < s.maxClients := by
    rw [h.orderly.maxClients]
    exact Nat.succ_pos clients
  exact System.not_faults_iff.1 (server_not_faults h.orderly.member hmax horderly)
    ⟨hrun, c, hc, hsock⟩

/-- **What a player sees decides about its move.**  In every run whose clients send only what they
should, while the server runs, a connected player that believes to be on turn, and that the server
has not given up, belongs to a side of its room; the move it asks for is served, and called valid
iff this side may make it on the board the player sees. -/
theorem belief_decides_move (h : Mirrors clients rooms fd s vs) (hrun : s.isRunning = true) {i : ℕ}
    {c : Client} {v : Mirror} {board : Playfield} (hc : s.mngClient.clients[i]? = some c)
    (hsock : 0 ≤ c.socketNum) (hlost : c.state ≠ .lost) (hv : vs[i]? = some v)
    (hview : v.view = .game true board) (t : Coordinates) :
    ∃ s', server.Step s (.frame i (.move t)) s' ∧
      ∃ r ∈ s.mngClient.lobby.games, ∃ side, r.roomId = c.roomId ∧ r.player side = c.nick ∧
        ((i, SC_MV_VALID) ∈ s'.mngClient.sent ↔
          ∃ p q, squaresOf t.text = some (p, q) ∧ Legal board side p q) := by
  have hm := h.orderly.member
  have ht := h.orderly.turns
  have hb := Server.Reachable.base h.orderly.reachable
  have hok := hm.ok c (List.mem_of_getElem? hc)
  have hthere := connected_of_ok hok hsock
  -- the player is on turn in a room with the board it sees
  obtain ⟨v', hv', hsees⟩ := (clients_know_their_place h).2 i c hc hsock
  obtain rfl : v = v' := Option.some.inj (hv.symm.trans hv')
  rw [hview] at hsees
  obtain ⟨hplace, r, hr, hid, rfl⟩ := hsees
  have hlog : c.logical = .playingOnTurn := by
    cases hl : c.logical <;> simp [hl, State.place] at hplace
    rfl
  obtain ⟨k, hk⟩ := List.mem_iff_getElem?.1 hr
  have hat : s.mngClient.lobby.games[s.mngClient.lobby.getRoomById c.roomId]? = some r := by
    rw [← hid, Hall.getRoomById_eq hm.ids hk]
    exact hk
  obtain ⟨j, d, ho, -, hcn, -⟩ := opponents_of_onTurn hm ht hc hlog hthere hat
  obtain ⟨side, hbw, hturn, hstand⟩ := exists_side (hm.colours r hr) (hm.arranged.ne ⟨r, hr, rfl,
    rfl, rfl⟩)
  obtain ⟨s', hst⟩ := exists_step_move h hrun hc hsock hlog t
  refine ⟨s', hst, r, hr, side, hid, by rw [hcn, hturn], ?_⟩
  -- the request is served, and the room makes the move iff it is legal
  have hshows : r.Shows ⟨r.pf, side, false⟩ :=
    ⟨rfl, hturn, hstand, by simp [(hb.boards r hr).1]⟩
  have hmade : MoveMade r t.text ↔ ∃ p q, squaresOf t.text = some (p, q) ∧
      Legal r.pf side p q := by
    obtain ⟨⟨r', b⟩, hproc⟩ := RoomHnefatafl.processMove_returns (r := r)
      (le_antisymm t.upper t.lower) t.chars
    rcases Plays.processMove hshows hbw hb hr hproc with ⟨rfl, p, q, hpq, hstep, -⟩ |
      ⟨rfl, hnot, -⟩
    · exact ⟨fun _ => ⟨p, q, hpq, (game_step.1 hstep).2.1⟩, fun _ => ⟨r', hproc⟩⟩
    · refine ⟨?_, ?_⟩
      · rintro ⟨r'', h'⟩
        rw [hproc] at h'
        cases h'
      · rintro ⟨p, q, hpq, hlegal⟩
        exact absurd ⟨rfl, hlegal⟩ (hnot (p, q) hpq)
  rw [← hmade]
  obtain ⟨-, hexec⟩ := hst
  obtain ⟨c', m, b, hc', rfl, hserve⟩ := frame_cases hexec
  obtain rfl : c = c' := Option.some.inj (hc.symm.trans hc')
  have hacc : (Frame.move t).acceptedIn c.state = true := by
    cases hs : c.state <;> simp_all [Client.logical, Frame.acceptedIn, State.inaccessible]
  rcases hserve with ⟨hnot, -⟩ | ⟨-, hserve⟩
  · rw [hacc] at hnot
    cases hnot
  · exact valid_sent_iff (m := s.clearSent.mngClient) hm ht rfl hc hlog hthere hat hserve

/-- White moves, back from another connection. -/
theorem belief_decides_move_comeback : ∃ (s : Server) (vs : List Mirror) (c : Client)
    (board : Playfield), Mirrors 10 5 3 s vs ∧ c.socketNum = 6 ∧
      ∃ s', server.Step s (.frame 1 (.move opening)) s' ∧
        ∃ r ∈ s.mngClient.lobby.games, ∃ side, r.roomId = c.roomId ∧ r.player side = c.nick ∧
          ((1, SC_MV_VALID) ∈ s'.mngClient.sent ↔
            ∃ p q, squaresOf opening.text = some (p, q) ∧ Legal board side p q) := by
  have hrun : ((server.restrict Candid).replay (fun _ _ => True) (create 10 5 3) comeback).any
      (fun s => s.isRunning && s.mngClient.clients[1]?.any fun c =>
        s.mngClient.lobby.games.any fun r => decide (c.socketNum = 6) &&
          decide (c.state = .playingOnTurn) && decide (c.roomId = r.roomId)) = true := by
    decide +kernel
  obtain ⟨s, vs, hvs, ht⟩ := exists_mirrors hrun
  obtain ⟨hgoes, ht⟩ := Bool.and_eq_true_iff.1 ht
  obtain ⟨c, hc, ht⟩ := (Option.any_eq_true _ _).1 ht
  obtain ⟨r, hr, ht⟩ := List.any_eq_true.1 ht
  simp only [Bool.and_eq_true, decide_eq_true_eq] at ht
  obtain ⟨⟨hsix, hstate⟩, hroom⟩ := ht
  have hsock : 0 ≤ c.socketNum := by omega
  have hlog : c.logical = .playingOnTurn := by
    rw [Client.logical_of_accessible (by rw [hstate]; rfl), hstate]
  obtain ⟨v, hv, hview⟩ := hvs.player true hr hc hroom hlog hsock
  exact ⟨s, vs, c, r.pf, hvs, hsix,
    belief_decides_move hvs hgoes hc hsock (by simp [hstate]) hv hview opening⟩

end Server

end HnefServer
