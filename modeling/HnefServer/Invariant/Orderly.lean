import HnefServer.Invariant.Member

/-!
# Orderly runs

A run is orderly when no step takes one of the branches of the requests that look at less than
they should: a frame of a Pinged client that its last state does not allow; a pong, or a
reconnection to a Pinged or Lost session, that moves the client between the lobby and a game (under
`strict`, one that hands over the turn); a reconnection to a Ready or New session, or to a
Disconnected one by a client that is not in the lobby; the eviction of a player
(`Server.Orderly`).  `Opponents` collects what the requests look up about two players, whenever
the clients and the rooms agree.
-/

namespace HnefServer

open Protocol ClientManager

/-! ### Orderly inputs -/

/-- The client `c` may ask for the session `d`: what it is given instead of a Pinged or Lost
session keeps it in the lobby or in its game, it takes over a Disconnected session only from the
lobby, and the session is not Ready or New. -/
def Client.MayResume (strict : Bool) (c d : Client) : Prop :=
  (d.state = .pinged ∨ d.state = .lost → c.RestoreOk strict) ∧
    (d.state = .disconnected → c.roomId = 0) ∧ d.state ≠ .ready ∧ d.state ≠ .new

instance (strict : Bool) (c d : Client) : Decidable (c.MayResume strict d) :=
  inferInstanceAs (Decidable ((_ ∨ _ → _) ∧ (_ → _) ∧ _ ≠ _ ∧ _ ≠ _))

/-- A frame of the client `c` takes no branch that looks at less than it should. -/
def ClientManager.OrderlyFrame (m : ClientManager) (strict : Bool) (c : Client) : Frame → Prop
  | .ready => c.state = .pinged → c.nick ≠ [] ∧ c.roomId = 0
  | .move _ | .leave | .chat _ => c.state = .pinged → c.stateLast.inGame = true
  | .pong => c.RestoreOk strict
  | .connect n => ∀ d ∈ m.clients, d.nick = n.text → d.ipAddress = c.ipAddress →
      c.MayResume strict d
  | .ping | .ok => True

instance (m : ClientManager) (strict : Bool) (c : Client) :
    (d : Frame) → Decidable (m.OrderlyFrame strict c d)
  | .ready => inferInstanceAs (Decidable (_ → _ ∧ _))
  | .move _ => inferInstanceAs (Decidable (_ → _))
  | .leave => inferInstanceAs (Decidable (_ → _))
  | .chat _ => inferInstanceAs (Decidable (_ → _))
  | .pong => inferInstanceAs (Decidable (c.RestoreOk strict))
  | .connect n => inferInstanceAs (Decidable (∀ d ∈ m.clients, d.nick = n.text →
      d.ipAddress = c.ipAddress → c.MayResume strict d))
  | .ping => isTrue trivial
  | .ok => isTrue trivial

namespace Server

/-- A full server does not evict a player. -/
def EvictsNoPlayer (s : Server) : Prop :=
  s.mngClient.clients.length = s.maxClients →
    ∀ k ∈ s.mngClient.longestDisconnected, ∀ c ∈ s.mngClient.clients[k]?,
      c.nick = [] ∨ c.roomId = 0

instance (s : Server) : Decidable s.EvictsNoPlayer :=
  inferInstanceAs (Decidable (_ → ∀ k ∈ s.mngClient.longestDisconnected,
    ∀ c ∈ s.mngClient.clients[k]?, c.nick = [] ∨ c.roomId = 0))

/-- An input that takes no branch that looks at less than it should; under `strict` no pong and
no reconnection may hand over the turn. -/
def Orderly (strict : Bool) (s : Server) : Input → Prop
  | .frame i d => ∀ c ∈ s.mngClient.clients[i]?, s.mngClient.OrderlyFrame strict c d
  | .accept ip fd => (s.acceptConnection ip fd).EvictsNoPlayer
  | _ => True

instance (strict : Bool) (s : Server) : (l : Input) → Decidable (s.Orderly strict l)
  | .frame i d => inferInstanceAs (Decidable (∀ c ∈ s.mngClient.clients[i]?,
      s.mngClient.OrderlyFrame strict c d))
  | .accept ip fd => inferInstanceAs (Decidable (s.acceptConnection ip fd).EvictsNoPlayer)
  | .close _ => isTrue trivial
  | .kick _ => isTrue trivial
  | .flags _ => isTrue trivial
  | .pair => isTrue trivial
  | .ping => isTrue trivial
  | .shutdown => isTrue trivial

/-- The states an orderly run reaches. -/
def OrderlyReachable (strict : Bool) (clients rooms : ℕ) (fd : ℤ) (s : Server) : Prop :=
  server.ReachableIf (Server.Orderly strict) (Server.create clients rooms fd) s

end Server

/-! ### Players -/

/-- The clients `c` and `d`, at `i` and `j`, play against each other in the room `r`, at `k`. -/
structure Opponents (m : ClientManager) (k : ℕ) (r : RoomHnefatafl) (i : ℕ) (c : Client) (j : ℕ)
    (d : Client) : Prop where
  room : m.lobby.games[k]? = some r
  find : m.lobby.getRoomById r.roomId = k
  fst : m.clients[i]? = some c
  snd : m.clients[j]? = some d
  ne : i ≠ j
  fstRoom : c.roomId = r.roomId
  sndRoom : d.roomId = r.roomId
  fstName : c.nick ≠ []
  sndName : d.nick ≠ []
  nicks : c.nick = r.onTurn ∧ d.nick = r.onStand ∨ c.nick = r.onStand ∧ d.nick = r.onTurn

variable {m m' : ClientManager} {i j k : ℕ} {c d : Client} {r : RoomHnefatafl}

theorem Opponents.symm (ho : Opponents m k r i c j d) : Opponents m k r j d i c :=
  ⟨ho.room, ho.find, ho.snd, ho.fst, ho.ne.symm, ho.sndRoom, ho.fstRoom, ho.sndName, ho.fstName,
    ho.nicks.symm.imp And.symm And.symm⟩

namespace Hall

open Client

/-- A search by nick finds the only client with the nick. -/
theorem findClientByNick_eq (hnames : DistinctKeys nickKey m.clients)
    (hc : m.clients[i]? = some c) (hn : c.nick ≠ []) : m.findClientByNick c.nick = i := by
  refine findIdx_eq_of_unique hc (by simp) fun j d hd hdn => ?_
  exact eq_of_nick hnames hd hc (by simpa using hdn) fun h => hn (by simpa [h] using hdn)

theorem Member.findClientByNick (hm : m.hall.Member) (hc : m.clients[i]? = some c)
    (hn : c.nick ≠ []) : m.findClientByNick c.nick = i :=
  findClientByNick_eq hm.names hc hn

/-- A search by id finds the only room with the id. -/
theorem getRoomById_eq (hids : DistinctKeys (fun r : RoomHnefatafl => some r.roomId) m.lobby.games)
    (hr : m.lobby.games[k]? = some r) : m.lobby.getRoomById r.roomId = k := by
  refine findIdx_eq_of_unique hr (by simp) fun j r' hr' hid => ?_
  exact hids j k r' r r.roomId hr' hr (by simpa using hid) rfl

/-- Two nicks that sit in a room are those of two clients. -/
theorem opponents_of_sits
    (hids : DistinctKeys (fun r : RoomHnefatafl => some r.roomId) m.lobby.games)
    (hr : m.lobby.games[k]? = some r) (hne : r.onTurn ≠ r.onStand)
    (hturn : Sits m.clients r.onTurn r.roomId) (hstand : Sits m.clients r.onStand r.roomId) :
    ∃ i c j d, Opponents m k r i c j d ∧ c.nick = r.onTurn ∧ d.nick = r.onStand := by
  obtain ⟨hcne, c, hc, hcn, hcr⟩ := hturn
  obtain ⟨hdne, d, hd, hdn, hdr⟩ := hstand
  obtain ⟨i, hi⟩ := List.mem_iff_getElem?.1 hc
  obtain ⟨j, hj⟩ := List.mem_iff_getElem?.1 hd
  refine ⟨i, c, j, d, ⟨hr, getRoomById_eq hids hr, hi, hj, ?_, hcr, hdr, hcn ▸ hcne, hdn ▸ hdne,
    Or.inl ⟨hcn, hdn⟩⟩, hcn, hdn⟩
  rintro rfl
  obtain rfl : c = d := Option.some.inj (hi.symm.trans hj)
  exact hne (hcn.symm.trans hdn)

theorem Member.roomId_ne_zero (hm : m.hall.Member) (hr : m.lobby.games[k]? = some r) :
    r.roomId ≠ 0 := by
  intro hid
  exact hm.arranged.zero ⟨r, List.mem_of_getElem? hr, hid, rfl, rfl⟩

/-- The player on turn in a room, and its opponent. -/
theorem Member.players (hm : m.hall.Member) (hr : m.lobby.games[k]? = some r) :
    ∃ i c j d, Opponents m k r i c j d ∧ c.nick = r.onTurn ∧ d.nick = r.onStand := by
  have hpair : m.hall.seating.pair r.roomId r.onTurn r.onStand :=
    ⟨r, List.mem_of_getElem? hr, rfl, rfl, rfl⟩
  obtain ⟨hturn, hstand⟩ := hm.arranged.seated hpair
  exact opponents_of_sits hm.ids hr (hm.arranged.ne hpair) hturn hstand

/-- The players of a room, where the searches by nick find them. -/
theorem Member.players_found (hm : m.hall.Member) (hr : m.lobby.games[k]? = some r)
    (hi : m.findClientByNick r.onTurn = i) (hj : m.findClientByNick r.onStand = j) :
    ∃ c d, Opponents m k r i c j d := by
  obtain ⟨x, c, y, d, ho, hcn, hdn⟩ := hm.players hr
  rw [← hcn, hm.findClientByNick ho.fst ho.fstName] at hi
  rw [← hdn, hm.findClientByNick ho.snd ho.sndName] at hj
  subst hi hj
  exact ⟨c, d, ho⟩

/-- The opponent of a client in a room. -/
theorem Member.opponent (hm : m.hall.Member) (hc : m.clients[i]? = some c) (hn : c.nick ≠ [])
    (hroom : c.roomId ≠ 0) :
    ∃ k r j d, Opponents m k r i c j d := by
  obtain ⟨b, hb⟩ := hm.arranged.known (sits_of_client hc hn) hroom
  have hexists : ∃ r ∈ m.lobby.games, r.roomId = c.roomId ∧
      (c.nick = r.onTurn ∨ c.nick = r.onStand) := by
    rcases hb with ⟨r, hr, hid, ht, -⟩ | ⟨r, hr, hid, -, hs⟩
    · exact ⟨r, hr, hid, Or.inl ht.symm⟩
    · exact ⟨r, hr, hid, Or.inr hs.symm⟩
  obtain ⟨r, hr, hid, hplayer⟩ := hexists
  obtain ⟨k, hk⟩ := List.mem_iff_getElem?.1 hr
  obtain ⟨i', c', j, d, ho, hct, hds⟩ := hm.players hk
  rcases hplayer with ht | hs
  · obtain rfl := eq_of_nick hm.names hc ho.fst (ht.trans hct.symm) hn
    obtain rfl : c = c' := Option.some.inj (hc.symm.trans ho.fst)
    exact ⟨k, r, j, d, ho⟩
  · obtain rfl := eq_of_nick hm.names hc ho.snd (hs.trans hds.symm) hn
    obtain rfl : c = d := Option.some.inj (hc.symm.trans ho.snd)
    exact ⟨k, r, i', c', ho.symm⟩

/-- A client that is logically in a game, and is there, has a name and a room. -/
theorem Member.named (hm : m.hall.Member) (hc : m.clients[i]? = some c)
    (hgame : c.logical.inGame = true) (hstate : c.state ≠ .disconnected) :
    c.nick ≠ [] ∧ c.roomId ≠ 0 := by
  have hok := hm.ok c (List.mem_of_getElem? hc)
  refine ⟨hok.nick_ne_nil ?_ hstate, hok.game.1 hgame⟩
  rintro h
  simp [h, State.inGame] at hgame

/-- A client in a room that has a connection has a name. -/
theorem Member.named_of_room (hm : m.hall.Member) (hc : m.clients[i]? = some c)
    (hsock : 0 ≤ c.socketNum) (hroom : c.roomId ≠ 0) : c.nick ≠ [] :=
  (hm.ok c (List.mem_of_getElem? hc)).fit.named_of_room hsock hroom

end Hall

namespace Opponents

theorem getOpponentOf (ho : Opponents m k r i c j d)
    (hnames : DistinctKeys Client.nickKey m.clients) :
    m.lobby.getOpponentOf c = .ok d.nick := by
  have hroom : m.lobby.deref (m.lobby.getRoomById c.roomId) = .ok r := by
    rw [ho.fstRoom, ho.find, lobby_deref_eq_ok, ho.room]
  rw [Lobby.getOpponentOf, hroom, ok_bind]
  rcases ho.nicks with ⟨hc, hd⟩ | ⟨hc, hd⟩
  · rw [if_pos hc, hd]
    rfl
  · rw [if_neg, hd]
    · rfl
    · intro hcn
      exact ho.ne (Hall.eq_of_nick hnames ho.fst ho.snd (hcn.trans hd.symm) ho.fstName)

/-- Two managers that differ in their logs only. -/
theorem of_hall (ho : Opponents m k r i c j d) (h : m'.hall = m.hall) :
    Opponents m' k r i c j d := by
  refine ⟨?_, ?_, ?_, ?_, ho.ne, ho.fstRoom, ho.sndRoom, ho.fstName, ho.sndName, ho.nicks⟩
  · exact (congrArg (fun h => h.lobby.games[k]?) h).trans ho.room
  · exact (congrArg (fun h => h.lobby.getRoomById r.roomId) h).trans ho.find
  · exact (congrArg (fun h => h.clients[i]?) h).trans ho.fst
  · exact (congrArg (fun h => h.clients[j]?) h).trans ho.snd

/-- The players of a room after a move: `c` has the turn now. -/
theorem handedOver (ho : Opponents m k r i c j d) {r' : RoomHnefatafl}
    (hid : r'.roomId = r.roomId) (ht : r'.onTurn = c.nick) (hs : r'.onStand = d.nick) (t : Text) :
    Opponents ((m.putRoom k r').handedOver i j c.state t) k r' i (handOver c.state c) j
      (d.setState .playingOnStand) := by
  have hlt := (List.getElem?_eq_some_iff.1 ho.room).1
  refine ⟨?_, ?_, ?_, ?_, ho.ne, ?_, ?_, ?_, ho.sndName,
    Or.inl ⟨(handOver_nick _ _).trans ht.symm, hs.symm⟩⟩
  · exact List.getElem?_set_self hlt
  · rw [hid]
    exact (getRoomById_putRoom ho.room hid).trans ho.find
  · change ((m.clients.modify i (handOver c.state)).modify j (·.setState .playingOnStand))[i]? = _
    rw [List.getElem?_modify_ne _ _ ho.ne.symm, List.getElem?_modify_eq, ho.fst]
    rfl
  · change ((m.clients.modify i (handOver c.state)).modify j (·.setState .playingOnStand))[j]? = _
    rw [List.getElem?_modify_eq, List.getElem?_modify_ne _ _ ho.ne, ho.snd]
    rfl
  · rw [handOver_roomId, hid, ho.fstRoom]
  · rw [hid]
    exact ho.sndRoom
  · rw [handOver_nick]
    exact ho.fstName

end Opponents

end HnefServer
