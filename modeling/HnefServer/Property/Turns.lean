import HnefServer.Invariant.Turn
import HnefServer.Property.Isolation

/-!
# Who has the turn

In a strictly orderly run the states of the two players of a room say what the room says about
the turn, so that only the player on turn can change the board.  The states are what the routing
of a move looks at; a Pinged client may move whatever its last state is.
-/

namespace HnefServer

open Protocol ClientManager

namespace Server

variable {clients rooms : ℕ} {fd : ℤ} {s s' : Server} {i : ℕ} {c : Client} {r : RoomHnefatafl}

/-! ### Agreement on the turn -/

/-- The two players of the room `r` are in the states the room says. -/
def InTurn (s : Server) (r : RoomHnefatafl) : Prop :=
  (∃ c ∈ s.mngClient.clients, c.nick = r.onTurn) ∧ (∃ d ∈ s.mngClient.clients, d.nick = r.onStand) ∧
    ∀ c ∈ s.mngClient.clients, (c.nick = r.onTurn → c.logical = .playingOnTurn) ∧
      (c.nick = r.onStand → c.logical = .playingOnStand)

instance (s : Server) (r : RoomHnefatafl) : Decidable (s.InTurn r) :=
  inferInstanceAs (Decidable ((∃ c ∈ s.mngClient.clients, c.nick = r.onTurn) ∧
    (∃ d ∈ s.mngClient.clients, d.nick = r.onStand) ∧ ∀ c ∈ s.mngClient.clients,
      (c.nick = r.onTurn → c.logical = .playingOnTurn) ∧
        (c.nick = r.onStand → c.logical = .playingOnStand)))

/-- **Turn agreement.**  In every state a strictly orderly run reaches, the client whose nick is
on turn in a room is logically on turn, the one whose nick is on stand is logically on stand, and
no client in the lobby is logically playing. -/
theorem turns_agree (h : Server.OrderlyReachable true clients rooms fd s) :
    (∀ r ∈ s.mngClient.lobby.games, s.InTurn r) ∧
      ∀ c ∈ s.mngClient.clients, c.roomId = 0 →
        c.logical ≠ .playingOnTurn ∧ c.logical ≠ .playingOnStand := by
  have hm := h.member
  refine ⟨fun r hr => ?_, fun c hc hroom => ?_⟩
  · obtain ⟨k, hk⟩ := List.mem_iff_getElem?.1 hr
    obtain ⟨i, c, j, d, ho, hcn, hdn⟩ := Hall.Member.players (m := s.mngClient) hm hk
    refine ⟨⟨c, List.mem_of_getElem? ho.fst, hcn⟩, ⟨d, List.mem_of_getElem? ho.snd, hdn⟩, ?_⟩
    intro e he
    have hrole := h.turns r hr e he
    exact ⟨hrole.turn, hrole.stand⟩
  · have hok := hm.ok c hc
    constructor
    · intro hlog
      exact hok.game.1 (by rw [hlog]; rfl) hroom
    · intro hlog
      exact hok.game.1 (by rw [hlog]; rfl) hroom

/-- The first move of a game: a black stone on the upper edge moves to the left. -/
def opening : Coordinates := ⟨"03000200".toList, by decide, by decide, by simp⟩

/-- The turn after the first move of a game. -/
theorem turns_agree_opening : ∃ s : Server, s.mngClient.lobby.games.length = 1 ∧
    (∀ r ∈ s.mngClient.lobby.games, s.InTurn r) ∧
      ∀ c ∈ s.mngClient.clients, c.roomId = 0 →
        c.logical ≠ .playingOnTurn ∧ c.logical ≠ .playingOnStand := by
  have hrun : (server.replay (Server.Orderly true) (create 10 5 3)
      (firstGame ++ [.ping, .frame 0 .pong, .frame 0 (.move opening)])).any
      (fun s => decide (s.mngClient.lobby.games.length = 1)) = true := by decide +kernel
  obtain ⟨s, hs, hgames⟩ := System.exists_reachableIf hrun
  exact ⟨s, of_decide_eq_true hgames, turns_agree hs⟩

/-- The player on turn moves after a ping and then answers the ping: the pong gives it back the
turn it has handed over. -/
theorem turn_given_back : ∃ s, Server.Reachable 10 5 3 s ∧
    ∃ r ∈ s.mngClient.lobby.games, ¬ s.InTurn r := by
  have hrun : (server.replay (fun _ _ => True) (create 10 5 3)
      (firstGame ++ [.ping, .frame 0 (.move opening), .frame 0 .pong])).any
      (fun s => s.mngClient.lobby.games.any fun r => decide (¬ s.InTurn r)) = true := by
    decide +kernel
  obtain ⟨s, hs, ht⟩ := exists_reachable hrun
  obtain ⟨r, hr, hturn⟩ := List.any_eq_true.1 ht
  exact ⟨s, hs, r, hr, of_decide_eq_true hturn⟩

/-! ### Authority over the board -/

/-- The board of the room `r` of `s` is not the one of its room in `s'`; a game that has ended has
no room. -/
def BoardChanged (s' : Server) (r : RoomHnefatafl) : Prop :=
  ∀ r' ∈ s'.mngClient.lobby.games, r'.roomId = r.roomId → r'.pf ≠ r.pf

/-- The stone is of the colour of the player with nick `n`. -/
def OwnStone (r : RoomHnefatafl) (n : Text) (stone : Field) : Prop :=
  n = r.black ∧ stone = .sBlack ∨ n = r.white ∧ (stone = .sWhite ∨ stone = .sKing)

/-- The move `t` is made in the room `r`, with a stone of the player with nick `n`. -/
def MovesOwnStone (r : RoomHnefatafl) (n : Text) (t : Coordinates) : Prop :=
  ∃ r' p q, r.processMove t.text = .ok (r', true) ∧ square r'.yFrom r'.xFrom = .ok p ∧
    square r'.yTo r'.xTo = .ok q ∧ (RoomHnefatafl.relocate r.pf p q).Captures r'.pf ∧
      OwnStone r n (r.pf p)

theorem movesOwnStone {r' : RoomHnefatafl} {t : Coordinates}
    (h : r.processMove t.text = .ok (r', true)) : MovesOwnStone r r.onTurn t := by
  rcases RoomHnefatafl.processMove_cases h with ⟨hb, -⟩ |
    ⟨-, p, q, pf, gs, a, b, x, y, hlegal, hcap, -, hp, hq, rfl⟩
  · cases hb
  · refine ⟨_, p, q, h, hp, hq, hcap, ?_⟩
    rcases hlegal with ⟨hn, hf, -⟩ | ⟨hn, hf, -⟩ | ⟨hn, hf, -⟩
    · exact Or.inl ⟨hn, hf⟩
    · exact Or.inr ⟨hn, Or.inl hf⟩
    · exact Or.inr ⟨hn, Or.inr hf⟩

/-- A move frame that changes a board has made a move in the room of its client. -/
theorem processMove_of_boardChanged (hm : s.hall.Member) {k j : ℕ} {d : Client} {r₁ : RoomHnefatafl}
    (ho : Opponents s.mngClient k r₁ i c j d) {t : Coordinates}
    (hstep : server.Step s (.frame i (.move t)) s') (hr : r ∈ s.mngClient.lobby.games)
    (hchanged : s'.BoardChanged r) :
    r = r₁ ∧ ∃ r', r.processMove t.text = .ok (r', true) := by
  change s.clearSent.mngClient.hall.Member at hm
  obtain ⟨c', m, b, hc', rfl, ⟨-, rfl⟩ | ⟨-, hserve⟩⟩ := frame_cases hstep.2
  · exact absurd rfl (hchanged r hr rfl)
  have ho' : Opponents s.clearSent.mngClient k r₁ i c j d := ho.of_hall rfl
  have hconf := Confined.requestMove hm ho' hserve
  -- the other rooms are as they were
  have hid : r.roomId = r₁.roomId := by
    by_contra hne
    exact hchanged r ((hconf.games r hne).2 hr) rfl rfl
  obtain rfl : r = r₁ := hm.ids.eq_of_mem hr (List.mem_of_getElem? ho.room) rfl
    (congrArg some hid.symm)
  refine ⟨rfl, ?_⟩
  obtain ⟨c₁, r₂, r', moved, hc₁, hr₂, hproc, hcases⟩ := requestMove_cases hserve
  obtain rfl : c = c₁ := Option.some.inj (ho'.fst.symm.trans hc₁)
  rw [ho'.fstRoom, ho'.find] at hr₂ hcases
  obtain rfl : r = r₂ := Option.some.inj (ho'.room.symm.trans hr₂)
  rcases hcases with ⟨rfl, rfl, -⟩ | ⟨rfl, -, -⟩
  · -- a move that is not made leaves the board
    obtain ⟨hid, -, -, hturn⟩ := RoomHnefatafl.processMove_players hproc
    obtain ⟨-, -, -, hpf, -⟩ := hturn.resolve_right fun hcon => by simp at hcon
    have hk := (List.getElem?_eq_some_iff.1 ho'.room).1
    have hmem : r' ∈ s.mngClient.lobby.games.set k r' :=
      (mem_set hk).2 (Or.inl rfl)
    exact absurd hpf (hchanged r' hmem hid)
  · exact ⟨r', hproc⟩

/-- **Turn authority.**  After a strictly orderly run, a move frame of a client that is not
Pinged, or was Pinged while it was on turn, changes the board of a room only if the client is in
this room and is on turn there; and it moves a stone of its own colour. -/
theorem board_changed_by_player_on_turn (h : Server.OrderlyReachable true clients rooms fd s)
    (hc : s.mngClient.clients[i]? = some c)
    (hpinged : c.state = .pinged → c.stateLast = .playingOnTurn) {t : Coordinates}
    (hstep : server.Step s (.frame i (.move t)) s') (hr : r ∈ s.mngClient.lobby.games)
    (hchanged : s'.BoardChanged r) :
    c.roomId = r.roomId ∧ c.nick = r.onTurn ∧ MovesOwnStone r c.nick t := by
  have hm : s.mngClient.hall.Member := h.member
  obtain ⟨c', m, b, hc', rfl, ⟨-, rfl⟩ | ⟨hacc, -⟩⟩ := frame_cases hstep.2
  · exact absurd rfl (hchanged r hr rfl)
  obtain rfl : c = c' := Option.some.inj (hc.symm.trans hc')
  have hlog : c.logical = .playingOnTurn ∧ c.state ≠ .disconnected := by
    have hs : c.state = .playingOnTurn ∨ c.state = .pinged := by
      simpa [Frame.acceptedIn] using hacc
    rcases hs with hs | hs
    · rw [Client.logical_of_accessible (by rw [hs]; rfl), hs]
      exact ⟨rfl, by decide⟩
    · rw [Client.logical_of_inaccessible (by rw [hs]; rfl), hs]
      exact ⟨hpinged hs, by decide⟩
  obtain ⟨hn, hroom⟩ := Hall.Member.named hm hc (by rw [hlog.1]; rfl) hlog.2
  obtain ⟨k, r₁, j, d, ho⟩ := Hall.Member.opponent hm hc hn hroom
  obtain ⟨rfl, r', hproc⟩ := processMove_of_boardChanged hm ho hstep hr hchanged
  have hturn : c.nick = r.onTurn := by
    rcases ho.nicks with ⟨hcn, -⟩ | ⟨hcn, -⟩
    · exact hcn
    · have hstand := (h.turns r hr c (List.mem_of_getElem? hc)).stand hcn
      rw [hlog.1] at hstand
      cases hstand
  exact ⟨ho.fstRoom, hturn, hturn ▸ movesOwnStone hproc⟩

/-- The board of every room differs at a square. -/
theorem boardChanged_of_square {q : Square}
    (h : (s'.mngClient.lobby.games.all fun r' => decide (r'.pf q ≠ r.pf q)) = true) :
    s'.BoardChanged r := by
  intro r' hr' _ hpf
  exact of_decide_eq_true (List.all_eq_true.1 h r' hr') (congrFun hpf q)

/-- The player on turn makes the first move of a game. -/
theorem board_changed_by_player_on_turn_opening : ∃ (s s' : Server) (c : Client)
    (r : RoomHnefatafl), s.mngClient.clients[0]? = some c ∧
      server.Step s (.frame 0 (.move opening)) s' ∧ r ∈ s.mngClient.lobby.games ∧
      s'.BoardChanged r ∧ c.roomId = r.roomId ∧ c.nick = r.onTurn ∧
      MovesOwnStone r c.nick opening := by
  have hrun : (server.replay (Server.Orderly true) (create 10 5 3) firstGame).any (fun s =>
      decide (server.guard s (.frame 0 (.move opening))) &&
        (server.exec s (.frame 0 (.move opening))).toOption.any fun s' =>
          (s.mngClient.clients[0]?).any fun c => decide (c.state ≠ .pinged) &&
            s.mngClient.lobby.games.any fun r =>
              s'.mngClient.lobby.games.all fun r' => decide (r'.pf (0, 2) ≠ r.pf (0, 2))) =
        true := by
    decide +kernel
  obtain ⟨s, s', hs, hstep, ht⟩ := System.exists_step hrun
  obtain ⟨c, hc, ht⟩ := (Option.any_eq_true _ _).1 ht
  rw [Bool.and_eq_true, decide_eq_true_eq] at ht
  obtain ⟨r, hr, hboard⟩ := List.any_eq_true.1 ht.2
  have hchanged := boardChanged_of_square hboard
  exact ⟨s, s', c, r, hc, hstep, hr, hchanged,
    board_changed_by_player_on_turn hs hc (fun hp => absurd hp ht.1) hstep hr hchanged⟩

/-- The player on stand moves a stone of its opponent, right after a ping. -/
theorem board_changed_by_player_on_stand : ∃ (s s' : Server) (c : Client) (r : RoomHnefatafl),
    Server.Reachable 10 5 3 s ∧ s.mngClient.clients[1]? = some c ∧
      server.Step s (.frame 1 (.move opening)) s' ∧ r ∈ s.mngClient.lobby.games ∧
      s'.BoardChanged r ∧ c.nick ≠ r.onTurn := by
  have hrun : (server.replay (fun _ _ => True) (create 10 5 3) (firstGame ++ [.ping])).any
      (fun s => decide (server.guard s (.frame 1 (.move opening))) &&
        (server.exec s (.frame 1 (.move opening))).toOption.any fun s' =>
          (s.mngClient.clients[1]?).any fun c => s.mngClient.lobby.games.any fun r =>
            decide (c.nick ≠ r.onTurn) &&
              s'.mngClient.lobby.games.all fun r' => decide (r'.pf (0, 2) ≠ r.pf (0, 2))) =
        true := by
    decide +kernel
  obtain ⟨s, s', hs, hstep, ht⟩ := System.exists_step hrun
  obtain ⟨c, hc, ht⟩ := (Option.any_eq_true _ _).1 ht
  obtain ⟨r, hr, ht⟩ := List.any_eq_true.1 ht
  rw [Bool.and_eq_true, decide_eq_true_eq] at ht
  exact ⟨s, s', c, r, hs, hc, hstep, hr, boardChanged_of_square ht.2, ht.1⟩

end Server

end HnefServer
