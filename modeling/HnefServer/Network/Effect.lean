import HnefServer.Network.Route
import HnefServer.Game.Move
import HnefServer.Data.Distinct

/-!
# What each request can do

One lemma for each request says everything a run that returns has done: which iterators were
valid, which branch was taken, and the state it led to (`*_cases`).  Nothing below this module
unfolds a request.
-/

namespace HnefServer

open Protocol

namespace ClientManager

variable {m m' : ClientManager} {i j : ℕ}

/-! ### Iterators -/

theorem deref_eq_ok {c : Client} : m.deref i = .ok c ↔ m.clients[i]? = some c := by
  unfold deref
  cases m.clients[i]? <;> simp

theorem getElem?_modify {f : Client → Client} :
    (m.modify i f).clients[j]? = (m.clients[j]?).map fun c => if i = j then f c else c := by
  simp only [modify, List.getElem?_modify]
  rfl

/-! ### Messages to the opponent -/

theorem sendToOpponentOf_cases {msg : Text} (h : m.sendToOpponentOf i msg = .ok m') :
    ∃ c n, m.clients[i]? = some c ∧ m.lobby.getOpponentOf c = .ok n ∧
      (m' = m ∨ m' = m.sendToClient (m.findClientByNick n) msg) := by
  obtain ⟨c, hc, h₁⟩ := bind_eq_ok.1 h
  obtain ⟨n, hn, h₂⟩ := bind_eq_ok.1 h₁
  refine ⟨c, n, deref_eq_ok.1 hc, hn, ?_⟩
  dsimp only at h₂
  split_ifs at h₂ with h₃
  · exact Or.inl (Except.ok.inj h₂).symm
  · obtain ⟨o, -, h₄⟩ := bind_eq_ok.1 h₂
    split_ifs at h₄
    · exact Or.inl (Except.ok.inj h₄).symm
    · exact Or.inr (Except.ok.inj h₄).symm

theorem sendToOpponentOf_same {msg : Text} (h : m.sendToOpponentOf i msg = .ok m') :
    m'.clients = m.clients ∧ m'.lobby = m.lobby := by
  obtain ⟨-, -, -, -, rfl | rfl⟩ := sendToOpponentOf_cases h
  · exact ⟨rfl, rfl⟩
  · exact ⟨rfl, rfl⟩

/-! ### Rooms -/

/-- What `destroyRoom` does to the clients. -/
def freeClients (cs : List Client) (i j : ℕ) (a b : Client) : List Client :=
  ((((cs.modify i (toWaiting a.state)).modify j (toWaiting b.state)).modify i
    (·.setRoomId 0)).modify j (·.setRoomId 0))

theorem destroyRoom_cases {id : ℕ} (h : m.destroyRoom id i j = .ok m') :
    ∃ a b, m.clients[i]? = some a ∧ m.clients[j]? = some b ∧
      m'.clients = freeClients m.clients i j a b ∧ m'.sent = m.sent ∧
      (id = 0 ∧ m'.lobby = m.lobby ∨ id ≠ 0 ∧ m.lobby.getRoomById id < m.lobby.games.length ∧
        m'.lobby = { m.lobby with
          games := m.lobby.games.eraseIdx (m.lobby.getRoomById id) }) := by
  obtain ⟨a, ha, h₁⟩ := bind_eq_ok.1 h
  obtain ⟨b, hb, h₂⟩ := bind_eq_ok.1 h₁
  obtain ⟨l, hl, h₃⟩ := bind_eq_ok.1 h₂
  obtain rfl := Except.ok.inj h₃
  refine ⟨a, b, deref_eq_ok.1 ha, deref_eq_ok.1 hb, rfl, rfl, ?_⟩
  split_ifs at hl with hid
  · simp only [Lobby.eraseRoom] at hl
    split_ifs at hl with hlt
    exact Or.inr ⟨hid, hlt, (Except.ok.inj hl).symm⟩
  · exact Or.inl ⟨not_not.1 hid, (Except.ok.inj hl).symm⟩

theorem freeClients_eq {cs : List Client} {a b : Client} (hij : i ≠ j) :
    freeClients cs i j a b = (cs.modify i fun c => (toWaiting a.state c).setRoomId 0).modify j
      fun c => (toWaiting b.state c).setRoomId 0 := modify₄ _ _ _ _ hij

/-- The first of the two clients is in the lobby. -/
theorem roomId_destroyRoom {id : ℕ} (hij : i ≠ j) (h : m.destroyRoom id i j = .ok m') :
    ∃ e, m'.clients[i]? = some e ∧ e.roomId = 0 := by
  obtain ⟨a, b, ha, -, hcs, -, -⟩ := destroyRoom_cases h
  rw [hcs, freeClients_eq hij, List.getElem?_modify_ne _ _ hij.symm, List.getElem?_modify_eq, ha]
  exact ⟨_, rfl, rfl⟩

/-! ### Connecting -/

theorem reportReconnection_same (h : m.reportReconnection i = .ok m') :
    m'.clients = m.clients ∧ m'.lobby = m.lobby := by
  obtain ⟨c, -, h₁⟩ := bind_eq_ok.1 h
  obtain ⟨m₁, hsent, h₂⟩ := bind_eq_ok.1 h₁
  obtain rfl := Except.ok.inj h₂
  split_ifs at hsent
  · obtain rfl := Except.ok.inj hsent
    exact ⟨rfl, rfl⟩
  · obtain ⟨msg, -, hsent⟩ := bind_eq_ok.1 hsent
    have hsame := sendToOpponentOf_same hsent
    exact hsame

/-- The requester after it has taken over the instance `d`. -/
def takeOver (nick : Text) (d c : Client) : Client :=
  ((((c.setNick nick).setState d.stateLast).setRoomId d.roomId).resetInaccessCount)

theorem logical_takeOver {nick : Text} {d c : Client} (hd : d.stateLast.inaccessible = false) :
    (takeOver nick d c).logical = d.stateLast := by
  have hstate : (takeOver nick d c).state = d.stateLast := rfl
  rw [Client.logical_of_accessible (hstate ▸ hd), hstate]

/-- What is left of an instance that was taken over. -/
def expire (c : Client) : Client := (c.setNick []).setFlagToErase true

/-- The branch of `handleReconnection` that takes over the instance `d` at `j`. -/
theorem handleReconnection_takeOver {nick : Text} {d : Client} (hd : m.clients[j]? = some d)
    (hs : d.state = .new ∨ d.state = .ready ∨ d.state = .disconnected) :
    m.handleReconnection i j nick =
      ((m.modify i (takeOver nick d)).modify j expire).reportReconnection i := by
  -- the instance is read again after the requester was changed, which may be the same client
  have hread : ∀ f : Client → Client, ∃ d', (m.modify i f).deref j = .ok d' ∧
      (d' = f d ∨ d' = d) := by
    intro f
    refine ⟨if i = j then f d else d, deref_eq_ok.2 (by simp [getElem?_modify, hd]), ?_⟩
    split_ifs
    · exact Or.inl rfl
    · exact Or.inr rfl
  obtain ⟨d₁, hd₁, hlast⟩ := hread (·.setNick nick)
  obtain ⟨d₂, hd₂, hroom⟩ := hread fun c => (c.setNick nick).setState d.stateLast
  have hlast : d₁.stateLast = d.stateLast := by rcases hlast with rfl | rfl <;> rfl
  have hroom : d₂.roomId = d.roomId := by rcases hroom with rfl | rfl <;> rfl
  have hcomp : ∀ f g : Client → Client,
      (m.modify i f).modify i g = m.modify i fun c => g (f c) := by
    intro f g
    simp only [modify, List.modify_modify_eq]
    rfl
  rcases hs with hs | hs | hs
  all_goals
    simp only [handleReconnection, deref_eq_ok.2 hd, ok_bind, hs, hd₁, hlast, hcomp, hd₂, hroom]
    rfl

/-- The three outcomes of a reconnection to the instance `d` at `j`. -/
theorem handleReconnection_cases {nick : Text} (h : m.handleReconnection i j nick = .ok m') :
    ∃ d, m.clients[j]? = some d ∧
      ((d.state = .waiting ∨ d.state.inGame = true) ∧ m' = m.sendToClient i SC_NICK_USED ∨
        (d.state = .pinged ∨ d.state = .lost) ∧
          (m.modify i fun c => c.setState c.stateLast).reportReconnection i = .ok m' ∨
        (d.state = .new ∨ d.state = .ready ∨ d.state = .disconnected) ∧
          ((m.modify i (takeOver nick d)).modify j expire).reportReconnection i = .ok m') := by
  obtain ⟨d, hd, h₁⟩ := bind_eq_ok.1 h
  rw [deref_eq_ok] at hd
  refine ⟨d, hd, ?_⟩
  cases hs : d.state with
  | waiting | playingOnTurn | playingOnStand =>
    rw [hs] at h₁
    exact Or.inl ⟨by simp [State.inGame], (Except.ok.inj h₁).symm⟩
  | pinged | lost =>
    rw [hs] at h₁
    exact Or.inr (Or.inl ⟨by simp, h₁⟩)
  | new | ready | disconnected =>
    exact Or.inr (Or.inr ⟨by simp, handleReconnection_takeOver hd (by simp [hs]) ▸ h⟩)

/-- A client that gets its nick. -/
def enter (nick : Text) (c : Client) : Client :=
  ((c.setNick nick).setState .waiting).setStateLast .waiting

/-- The outcomes of a connect request: the nick is free and is given or refused, it is in use
from another address, or the client at `j` is the session to reconnect to. -/
theorem requestConnect_cases {nick : Text} {state : State} {b : ℤ}
    (h : m.requestConnect i nick state = .ok (m', b)) :
    ∃ c, m.clients[i]? = some c ∧
      ((∀ d ∈ m.clients, d.nick ≠ nick) ∧
          (c.stateLast = .new ∧ (state = .new ∨ state.inaccessible = true) ∧
            m' = ((m.modify i (enter nick)).sendToClient i SC_RESP_CONN).sendToClient i
              SC_IN_LOBBY ∨
          m' = m ∧ b = -1) ∨
        (∀ d ∈ m.clients, d.nick = nick → d.ipAddress ≠ c.ipAddress) ∧
            m' = m.sendToClient i SC_NICK_USED ∨
        ∃ d, m.clients[m.findClientByNickAndIp nick c.ipAddress]? = some d ∧ d.nick = nick ∧
          d.ipAddress = c.ipAddress ∧
          m.handleReconnection i (m.findClientByNickAndIp nick c.ipAddress) nick = .ok m') := by
  obtain ⟨c, hc, h₁⟩ := bind_eq_ok.1 h
  refine ⟨c, deref_eq_ok.1 hc, ?_⟩
  dsimp only at h₁
  split_ifs at h₁ with hnick hnew hip
  · have hfree : ∀ d ∈ m.clients, d.nick ≠ nick := by
      simpa using List.findIdx_eq_length.1 hnick
    cases h₁
    refine Or.inl ⟨hfree, Or.inl ⟨hnew.1, ?_, rfl⟩⟩
    rcases hnew.2 with hs | hs | hs | hs <;> simp [hs, State.inaccessible]
  · have hfree : ∀ d ∈ m.clients, d.nick ≠ nick := by
      simpa using List.findIdx_eq_length.1 hnick
    cases h₁
    exact Or.inl ⟨hfree, Or.inr ⟨rfl, rfl⟩⟩
  · have hnone : ∀ d ∈ m.clients, d.nick = nick → d.ipAddress ≠ c.ipAddress := by
      simpa using List.findIdx_eq_length.1 hip
    cases h₁
    exact Or.inr (Or.inl ⟨hnone, rfl⟩)
  · obtain ⟨m₁, hm₁, h₂⟩ := bind_eq_ok.1 h₁
    cases h₂
    rcases findIdx_cases (fun d => d.nick == nick && d.ipAddress == c.ipAddress) m.clients with
      ⟨d, hd, hp⟩ | ⟨hend, -⟩
    · simp only [Bool.and_eq_true, beq_iff_eq] at hp
      exact Or.inr (Or.inr ⟨d, hd, hp.1, hp.2, hm₁⟩)
    · exact absurd hend hip

/-- A connect request for a nick that is free, of a client that may be given one. -/
theorem requestConnect_free {nick : Text} {state : State} {c : Client}
    (hc : m.clients[i]? = some c) (hfree : ∀ d ∈ m.clients, d.nick ≠ nick)
    (hlast : c.stateLast = .new) (hs : state = .new ∨ state.inaccessible = true) :
    m.requestConnect i nick state =
      .ok (((m.modify i (enter nick)).sendToClient i SC_RESP_CONN).sendToClient i SC_IN_LOBBY,
        0) := by
  have hnone : m.findClientByNick nick = m.clients.length :=
    List.findIdx_eq_length.2 (by simpa using hfree)
  have hstate : state = .new ∨ state = .pinged ∨ state = .lost ∨ state = .disconnected := by
    cases state <;> simp_all [State.inaccessible]
  rw [requestConnect, deref_eq_ok.2 hc, ok_bind]
  dsimp only
  rw [if_pos hnone, if_pos ⟨hlast, hstate⟩]
  rfl

/-! ### Playing -/

/-- The room at a position is replaced. -/
def putRoom (m : ClientManager) (itr : ℕ) (r : RoomHnefatafl) : ClientManager :=
  { m with lobby := { m.lobby with games := m.lobby.games.set itr r } }

theorem lobby_deref_eq_ok {l : Lobby} {r : RoomHnefatafl} :
    l.deref i = .ok r ↔ l.games[i]? = some r := by
  unfold Lobby.deref
  cases l.games[i]? <;> simp

theorem room_of_getRoomById {l : Lobby} {id : ℕ} {r : RoomHnefatafl}
    (h : l.games[l.getRoomById id]? = some r) : r.roomId = id := by
  rcases findIdx_cases (fun r : RoomHnefatafl => r.roomId == id) l.games with
    ⟨r', hr', hid⟩ | ⟨hend, -⟩
  · obtain rfl : r = r' := Option.some.inj (h.symm.trans hr')
    simpa using hid
  · rw [Lobby.getRoomById, hend] at h
    simp at h

/-- A move does not change where the rooms are found. -/
theorem getRoomById_putRoom {id : ℕ} {r r' : RoomHnefatafl} (hr : m.lobby.games[i]? = some r)
    (hid : r'.roomId = r.roomId) :
    (m.putRoom i r').lobby.getRoomById id = m.lobby.getRoomById id :=
  findIdx_set hr (by simp [hid])

theorem requestMove_cases {t : Text} {b : ℤ} (h : m.requestMove i t = .ok (m', b)) :
    ∃ c r r' moved, m.clients[i]? = some c ∧
      m.lobby.games[m.lobby.getRoomById c.roomId]? = some r ∧
      r.processMove t = .ok (r', moved) ∧
      (moved = false ∧ m' = m.putRoom (m.lobby.getRoomById c.roomId) r' ∧ b = -1 ∨
        moved = true ∧
          (m.putRoom (m.lobby.getRoomById c.roomId) r').afterMove c.roomId t = .ok m' ∧ b = 0) := by
  obtain ⟨c, hc, h₁⟩ := bind_eq_ok.1 h
  obtain ⟨⟨l, moved⟩, hmv, h₂⟩ := bind_eq_ok.1 h₁
  obtain ⟨r, hr, h₃⟩ := bind_eq_ok.1 hmv
  obtain ⟨⟨r', moved'⟩, hproc, h₄⟩ := bind_eq_ok.1 h₃
  cases h₄
  refine ⟨c, r, r', moved, deref_eq_ok.1 hc, lobby_deref_eq_ok.1 hr, hproc, ?_⟩
  cases moved with
  | false =>
    cases h₂
    exact Or.inl ⟨rfl, rfl, rfl⟩
  | true =>
    obtain ⟨m₁, hm₁, h₅⟩ := bind_eq_ok.1 h₂
    cases h₅
    exact Or.inr ⟨rfl, hm₁, rfl⟩

/-- The player who gets the turn, `state` being its state. -/
def handOver (state : State) (c : Client) : Client :=
  if state.inaccessible then c.setStateLast .playingOnTurn else c.setState .playingOnTurn

@[simp] theorem handOver_nick (st : State) (c : Client) : (handOver st c).nick = c.nick := by
  unfold handOver
  split_ifs <;> rfl

@[simp] theorem handOver_roomId (st : State) (c : Client) :
    (handOver st c).roomId = c.roomId := by
  unfold handOver
  split_ifs <;> rfl

@[simp] theorem handOver_sock (st : State) (c : Client) :
    (handOver st c).socketNum = c.socketNum := by
  unfold handOver
  split_ifs <;> rfl

/-- The manager after the turn was handed over to the client at `a` by the client at `b`, and
both were told. -/
def handedOver (m : ClientManager) (a b : ℕ) (state : State) (coordinates : Text) :
    ClientManager :=
  (((m.modify a (handOver state)).modify b (·.setState .playingOnStand)).sendToClient b
    SC_MV_VALID).sendToClient a (SC_OPN_MOVE ++ OP_INI ++ coordinates)

theorem afterMove_cases {id : ℕ} {t : Text} (h : m.afterMove id t = .ok m') :
    ∃ r c d, m.lobby.games[m.lobby.getRoomById id]? = some r ∧
      m.clients[m.findClientByNick r.onTurn]? = some c ∧
      m.clients[m.findClientByNick r.onStand]? = some d ∧
      (r.gameState ≠ .gameover ∧
          m' = m.handedOver (m.findClientByNick r.onTurn) (m.findClientByNick r.onStand)
            c.state t ∨
        r.gameState = .gameover ∧
          (((m.handedOver (m.findClientByNick r.onTurn) (m.findClientByNick r.onStand)
            c.state t).sendToClient (m.findClientByNick r.onTurn) SC_GO_LOSS).sendToClient
            (m.findClientByNick r.onStand) SC_GO_WIN).destroyRoom id
              (m.findClientByNick r.onTurn) (m.findClientByNick r.onStand) = .ok m') := by
  obtain ⟨n₁, hn₁, h₁⟩ := bind_eq_ok.1 h
  obtain ⟨n₂, hn₂, h₂⟩ := bind_eq_ok.1 h₁
  obtain ⟨r, hr, hn₁⟩ := bind_eq_ok.1 hn₁
  obtain ⟨r₂, hr₂, hn₂⟩ := bind_eq_ok.1 hn₂
  obtain rfl : r = r₂ := Except.ok.inj (hr.symm.trans hr₂)
  cases hn₁
  cases hn₂
  obtain ⟨c, hc, h₃⟩ := bind_eq_ok.1 h₂
  obtain ⟨d', hd', h₄⟩ := bind_eq_ok.1 h₃
  obtain ⟨gs, hgs, h₅⟩ := bind_eq_ok.1 h₄
  obtain ⟨r₃, hr₃, hgs⟩ := bind_eq_ok.1 hgs
  obtain rfl : r = r₃ := Except.ok.inj (hr.symm.trans hr₃)
  cases hgs
  have hd : ∃ d, m.clients[m.findClientByNick r.onStand]? = some d := by
    rw [deref_eq_ok, getElem?_modify] at hd'
    obtain ⟨d, hd, -⟩ := Option.map_eq_some_iff.1 hd'
    exact ⟨d, hd⟩
  obtain ⟨d, hd⟩ := hd
  refine ⟨r, c, d, lobby_deref_eq_ok.1 hr, deref_eq_ok.1 hc, hd, ?_⟩
  by_cases hover : r.gameState = .gameover
  · rw [if_pos hover] at h₅
    exact Or.inr ⟨hover, h₅⟩
  · rw [if_neg hover] at h₅
    exact Or.inl ⟨hover, (Except.ok.inj h₅).symm⟩

/-- What a move request does, `k` being the position of the requester's room: the move is
rejected; or it is made, the players of the room swap, and both are found. -/
theorem requestMove_outcome {t : Text} {b : ℤ} (h : m.requestMove i t = .ok (m', b)) :
    ∃ c k r r', m.clients[i]? = some c ∧ k = m.lobby.getRoomById c.roomId ∧
      m.lobby.games[k]? = some r ∧ r'.roomId = r.roomId ∧
      (r.processMove t = .ok (r', false) ∧ r'.onTurn = r.onTurn ∧ r'.onStand = r.onStand ∧
          m' = m.putRoom k r' ∨
        r.processMove t = .ok (r', true) ∧ r'.onTurn = r.onStand ∧ r'.onStand = r.onTurn ∧
          ∃ a d, m.clients[m.findClientByNick r.onStand]? = some a ∧
            m.clients[m.findClientByNick r.onTurn]? = some d ∧
            (r'.gameState ≠ .gameover ∧
                m' = (m.putRoom k r').handedOver (m.findClientByNick r.onStand)
                  (m.findClientByNick r.onTurn) a.state t ∨
              r'.gameState = .gameover ∧
                ((((m.putRoom k r').handedOver (m.findClientByNick r.onStand)
                  (m.findClientByNick r.onTurn) a.state t).sendToClient
                  (m.findClientByNick r.onStand) SC_GO_LOSS).sendToClient
                  (m.findClientByNick r.onTurn) SC_GO_WIN).destroyRoom c.roomId
                  (m.findClientByNick r.onStand) (m.findClientByNick r.onTurn) = .ok m')) := by
  obtain ⟨c, r, r', moved, hc, hr, hproc, hcases⟩ := requestMove_cases h
  obtain ⟨hid, -, -, hplayers⟩ := RoomHnefatafl.processMove_players hproc
  refine ⟨c, _, r, r', hc, rfl, hr, hid, ?_⟩
  rcases hcases with ⟨rfl, rfl, -⟩ | ⟨rfl, hafter, -⟩
  · obtain ⟨-, ht, hs, -, -⟩ := hplayers.resolve_right fun hcon => by simp at hcon
    exact Or.inl ⟨hproc, ht, hs, rfl⟩
  obtain ⟨-, ht, hs⟩ := hplayers.resolve_left fun hcon => by simp at hcon
  obtain ⟨r₁, a, d, hr₁, ha, hd, hover⟩ := afterMove_cases hafter
  -- the room found after the move is the one the move was made in
  rw [getRoomById_putRoom hr hid] at hr₁
  obtain rfl : r' = r₁ := by
    have hlt := (List.getElem?_eq_some_iff.1 hr).1
    simpa [putRoom, hlt] using hr₁
  rw [ht] at ha hover
  rw [hs] at hd hover
  exact Or.inr ⟨hproc, ht, hs, a, d, ha, hd, hover⟩

theorem requestLeave_cases {b : ℤ} (h : m.requestLeave i = .ok (m', b)) :
    ∃ c n m₁, m.clients[i]? = some c ∧ m.lobby.getOpponentOf c = .ok n ∧
      (m.sendToClient i SC_RESP_LEAVE).sendToOpponentOf i SC_OPN_LEAVE = .ok m₁ ∧
      m₁.destroyRoom c.roomId i (m.findClientByNick n) = .ok m' := by
  obtain ⟨m₁, hm₁, h₁⟩ := bind_eq_ok.1 h
  obtain ⟨hcs, hl⟩ := sendToOpponentOf_same hm₁
  obtain ⟨c, hc, h₂⟩ := bind_eq_ok.1 h₁
  obtain ⟨n, hn, h₃⟩ := bind_eq_ok.1 h₂
  obtain ⟨m₂, hm₂, h₄⟩ := bind_eq_ok.1 h₃
  cases h₄
  rw [deref_eq_ok, hcs] at hc
  rw [hl] at hn
  have hfind : m₁.findClientByNick n = m.findClientByNick n := by
    rw [findClientByNick, hcs]
    rfl
  exact ⟨c, n, m₁, hc, hn, hm₁, hfind ▸ hm₂⟩

/-! ### Pairing -/

/-- What the search for a Ready client finds. -/
theorem nextReady_spec (hlt : m.nextReady i < m.clients.length) :
    ∃ d, m.clients[m.nextReady i]? = some d ∧ d.state = .ready ∧ i ≤ m.nextReady i := by
  rcases findIdx_cases (fun c : Client => c.state == .ready) (m.clients.drop i) with
    ⟨d, hd, hs⟩ | ⟨hend, -⟩
  · rw [List.getElem?_drop] at hd
    exact ⟨d, hd, by simpa using hs, Nat.le_add_right _ _⟩
  · rw [nextReady, hend, List.length_drop] at hlt
    omega

/-- A Ready client after its game has started in the room `id`. -/
def seat (id : ℕ) (st : State) (c : Client) : Client := (c.setRoomId id).setState st

theorem startGame_cases {id : ℕ} (hij : i ≠ j) (h : m.startGame id i j = .ok m') :
    m'.clients = (m.clients.modify i (seat id .playingOnTurn)).modify j (seat id .playingOnStand) ∧
      m'.lobby = m.lobby := by
  obtain ⟨_, _, h₁⟩ := bind_eq_ok.1 h
  obtain ⟨_, _, h₂⟩ := bind_eq_ok.1 h₁
  cases h₂
  exact ⟨modify₄ (fun c : Client => c.setRoomId id) (·.setRoomId id) (·.setState .playingOnTurn)
    (·.setState .playingOnStand) hij, rfl⟩

/-- The two messages of a game that starts. -/
theorem sent_startGame {id : ℕ} {c d : Client} (hc : m.clients[i]? = some c)
    (hd : m.clients[j]? = some d) (h : m.startGame id i j = .ok m') :
    m'.sent = m.sent ++ [(i, composeMsgInGame SC_TURN_YOU d.nick),
      (j, composeMsgInGame SC_TURN_OPN c.nick)] := by
  obtain ⟨d', hd', h₁⟩ := bind_eq_ok.1 h
  obtain ⟨c', hc', h₂⟩ := bind_eq_ok.1 h₁
  cases h₂
  -- no change of the two clients touches their nicks
  have hnick : ∀ (k : ℕ) (e e' : Client), m.clients[k]? = some e →
      ((((m.modify i (·.setRoomId id)).modify j (·.setRoomId id)).modify i
        (·.setState .playingOnTurn)).modify j (·.setState .playingOnStand)).clients[k]? = some e' →
      e'.nick = e.nick := by
    intro k e e' he he'
    simp only [getElem?_modify, he, Option.map_some, Option.some.injEq] at he'
    rw [← he']
    split_ifs <;> rfl
  have hdn : d'.nick = d.nick := hnick j d d' hd (deref_eq_ok.1 hd')
  have hcn : c'.nick = c.nick := hnick i c c' hc (deref_eq_ok.1 hc')
  rw [hdn, hcn]
  simp [sendToClient, modify]

/-- The Ready clients `c` and `d`, at `i` and `j`, start to play in a new room. -/
structure Paired (m m' : ClientManager) (i j : ℕ) (c d : Client) : Prop where
  fst : m.clients[i]? = some c
  snd : m.clients[j]? = some d
  lt : i < j
  fstReady : c.state = .ready
  sndReady : d.state = .ready
  clients : m'.clients = (m.clients.modify i (seat (m.lobby.roomsTotal + 1) .playingOnTurn)).modify
    j (seat (m.lobby.roomsTotal + 1) .playingOnStand)
  lobby : m'.lobby = (m.lobby.createRoom c.nick d.nick).1

/-- What one iteration of the pairing does: it is the last one; or it pairs the client at `i`
with the next Ready one and tells both; or there is no such pair. -/
theorem pairLoop_cases_sent {fuel : ℕ} (h : pairLoop (fuel + 1) m i = .ok m') :
    (m.clients.length ≤ i ∧ m' = m) ∨
      (∃ m₁ c d, Paired m m₁ i (m.nextReady (i + 1)) c d ∧
        m₁.sent = m.sent ++ [(i, composeMsgInGame SC_TURN_YOU d.nick),
          (m.nextReady (i + 1), composeMsgInGame SC_TURN_OPN c.nick)] ∧
        pairLoop fuel m₁ (m.nextReady (i + 1) + 1) = .ok m') ∨
      ∃ c, m.clients[i]? = some c ∧
        ¬ (c.state = .ready ∧ m.nextReady (i + 1) < m.clients.length) ∧
          pairLoop fuel m (i + 1) = .ok m' := by
  rw [pairLoop] at h
  by_cases hi : i < m.clients.length
  · rw [if_pos hi] at h
    obtain ⟨c, hc, h₁⟩ := bind_eq_ok.1 h
    rw [deref_eq_ok] at hc
    by_cases hp : c.state = .ready ∧ m.nextReady (i + 1) < m.clients.length
    · rw [if_pos hp] at h₁
      obtain ⟨d, hd, h₂⟩ := bind_eq_ok.1 h₁
      obtain ⟨m₁, hstart, h₃⟩ := bind_eq_ok.1 h₂
      rw [deref_eq_ok] at hd
      obtain ⟨d', hd', hds, hle⟩ := nextReady_spec hp.2
      obtain rfl : d = d' := Option.some.inj (hd.symm.trans hd')
      obtain ⟨hcs, hl⟩ := startGame_cases (Nat.ne_of_lt hle) hstart
      have hsent := sent_startGame
        (m := { m with lobby := (m.lobby.createRoom c.nick d.nick).1 }) hc hd hstart
      exact Or.inr (Or.inl ⟨m₁, c, d, ⟨hc, hd, hle, hp.1, hds, hcs, hl⟩, hsent, h₃⟩)
    · rw [if_neg hp] at h₁
      exact Or.inr (Or.inr ⟨c, hc, hp, h₁⟩)
  · rw [if_neg hi] at h
    exact Or.inl ⟨not_lt.1 hi, (Except.ok.inj h).symm⟩

/-- One iteration of the pairing, without the messages. -/
theorem pairLoop_cases {fuel : ℕ} (h : pairLoop (fuel + 1) m i = .ok m') :
    (m.clients.length ≤ i ∧ m' = m) ∨
      (∃ m₁ c d, Paired m m₁ i (m.nextReady (i + 1)) c d ∧
        pairLoop fuel m₁ (m.nextReady (i + 1) + 1) = .ok m') ∨
      ∃ c, m.clients[i]? = some c ∧
        ¬ (c.state = .ready ∧ m.nextReady (i + 1) < m.clients.length) ∧
          pairLoop fuel m (i + 1) = .ok m' := by
  rcases pairLoop_cases_sent h with hend | ⟨m₁, c, d, hp, -, hrest⟩ | hnone
  · exact Or.inl hend
  · exact Or.inr (Or.inl ⟨m₁, c, d, hp, hrest⟩)
  · exact Or.inr (Or.inr hnone)

/-- The pairing starts one game after the other. -/
theorem pairs_of_pairLoop {fuel : ℕ} (h : pairLoop fuel m i = .ok m') :
    Relation.ReflTransGen (fun m m' => ∃ i j c d, Paired m m' i j c d) m m' := by
  induction fuel generalizing m i with
  | zero =>
    cases h
    exact .refl
  | succ fuel ih =>
    rcases pairLoop_cases h with ⟨-, rfl⟩ | ⟨m₁, c, d, hp, hrest⟩ | ⟨-, -, -, hrest⟩
    · exact .refl
    · exact .head ⟨_, _, _, _, hp⟩ (ih hrest)
    · exact ih hrest

/-! ### Pinging -/

/-- The end of the countdown of a Disconnected client. -/
def countDown (c : Client) : Client :=
  let c := c.decreaseInaccessCount
  if c.cntrPings = 0 then c.setFlagToErase true else c

/-- A client after a round of the pinging thread. -/
def pinged (c : Client) : Client :=
  if c.state ≠ .new ∧ c.nick = [] ∧ c.socketNum > 0 then
    (c.setFlagToDisconnect true).setFlagToErase true
  else
    match c.state with
    | .pinged => c.setState .lost
    | .lost => c.setFlagToDisconnect true
    | .disconnected => countDown c
    | _ => c.setState .pinged

theorem modify_congr {cs : List Client} {c : Client} {f g : Client → Client}
    (hc : cs[i]? = some c) (hfg : f c = g c) : cs.modify i f = cs.modify i g := by
  apply List.ext_getElem?
  intro k
  rw [List.getElem?_modify, List.getElem?_modify]
  by_cases hk : i = k
  · subst hk
    simp [hc, hfg]
  · simp [hk]

theorem pingClient_spec (h : m.pingClient i = .ok m') :
    m'.clients = m.clients.modify i pinged ∧ m'.lobby = m.lobby := by
  obtain ⟨c, hc, h₁⟩ := bind_eq_ok.1 h
  rw [deref_eq_ok] at hc
  by_cases hunnamed : c.state ≠ .new ∧ c.nick = [] ∧ c.socketNum > 0
  · rw [if_pos hunnamed] at h₁
    cases h₁
    exact ⟨modify_congr hc (if_pos hunnamed).symm, rfl⟩
  rw [if_neg hunnamed] at h₁
  have hpinged : pinged c = match c.state with
    | .pinged => c.setState .lost
    | .lost => c.setFlagToDisconnect true
    | .disconnected => countDown c
    | _ => c.setState .pinged := if_neg hunnamed
  cases hs : c.state with
  | pinged =>
    rw [if_pos hs] at h₁
    obtain ⟨c', -, h₂⟩ := bind_eq_ok.1 h₁
    have hmod : m.clients.modify i (·.setState .lost) = m.clients.modify i pinged :=
      modify_congr hc (by rw [hpinged, hs])
    split_ifs at h₂
    · obtain ⟨hcs, hl⟩ := sendToOpponentOf_same h₂
      exact ⟨hcs.trans hmod, hl⟩
    · cases h₂
      exact ⟨hmod, rfl⟩
  | lost =>
    simp only [hs, reduceCtorEq, if_false, if_true] at h₁
    cases h₁
    exact ⟨modify_congr hc (by rw [hpinged, hs]), rfl⟩
  | disconnected =>
    simp only [hs, reduceCtorEq, if_false, if_true] at h₁
    obtain ⟨c', hc', h₂⟩ := bind_eq_ok.1 h₁
    rw [deref_eq_ok, getElem?_modify, hc] at hc'
    simp only [if_true, Option.map_some, Option.some.injEq] at hc'
    subst hc'
    have hmod : ∀ g : Client → Client, g c.decreaseInaccessCount = countDown c →
        ((m.clients.modify i (·.decreaseInaccessCount)).modify i g) =
          m.clients.modify i pinged := by
      intro g hg
      rw [List.modify_modify_eq]
      exact modify_congr hc (by rw [hpinged, hs]; exact hg)
    split_ifs at h₂ with hzero
    · cases h₂
      exact ⟨hmod _ (if_pos hzero).symm, rfl⟩
    · cases h₂
      refine ⟨modify_congr hc ?_, rfl⟩
      rw [hpinged, hs]
      exact (if_neg hzero).symm
  | new | waiting | ready | playingOnTurn | playingOnStand =>
    simp only [hs, reduceCtorEq, if_false] at h₁
    cases h₁
    exact ⟨modify_congr hc (by rw [hpinged, hs]), rfl⟩

/-- A ping round after the clients before `k` have been handled. -/
theorem pingLoop_spec {k : ℕ} (h : (List.range k).foldlM pingClient m = .ok m') :
    (∀ j, m'.clients[j]? = (m.clients[j]?).map fun c => if j < k then pinged c else c) ∧
      m'.lobby = m.lobby := by
  induction k generalizing m' with
  | zero =>
    cases h
    simp
  | succ k ih =>
    rw [List.range_succ, List.foldlM_append] at h
    obtain ⟨m₁, hm₁, h₁⟩ := bind_eq_ok.1 h
    obtain ⟨m₂, hm₂, h₂⟩ := bind_eq_ok.1 h₁
    cases h₂
    obtain ⟨hcs, hl⟩ := ih hm₁
    obtain ⟨hcs', hl'⟩ := pingClient_spec hm₂
    refine ⟨fun j => ?_, hl'.trans hl⟩
    rw [hcs', List.getElem?_modify, hcs]
    cases m.clients[j]? with
    | none => rfl
    | some c =>
      rcases Nat.lt_trichotomy j k with hj | rfl | hj
      · simp [hj, hj.ne', show j < k + 1 by omega]
      · simp
      · simp [hj.ne, show ¬ j < k by omega, show ¬ j < k + 1 by omega]

/-- **A ping round** changes every client by itself. -/
theorem pingClients_spec (h : m.pingClients = .ok m') :
    m'.clients = m.clients.map pinged ∧ m'.lobby = m.lobby := by
  obtain ⟨hcs, hl⟩ := pingLoop_spec h
  refine ⟨List.ext_getElem? fun j => ?_, hl⟩
  rw [hcs, List.getElem?_map]
  rcases Nat.lt_or_ge j m.clients.length with hj | hj
  · simp [hj]
  · simp [List.getElem?_eq_none hj]

/-! ### Erasing -/

/-- The test of `eraseClient` whether an instance has a room to leave. -/
def HasRoom (c : Client) : Prop := c.nick ≠ [] ∧ c.roomId ≠ 0 ∧ c.stateLast.inGame = true

theorem eraseClient_cases (h : m.eraseClient i = .ok m') :
    ∃ c, m.clients[i]? = some c ∧
      (¬ HasRoom c ∧ m' = { m with clients := m.clients.eraseIdx i } ∨
        HasRoom c ∧ ∃ (n : Text) (m₁ m₂ : ClientManager), m.lobby.getOpponentOf c = .ok n ∧
          m₁.clients = m.clients ∧ m₁.lobby = m.lobby ∧
          m₁.destroyRoom c.roomId i (m.findClientByNick n) = .ok m₂ ∧
          m' = { m₂ with clients := m₂.clients.eraseIdx i }) := by
  obtain ⟨c, hc, h₁⟩ := bind_eq_ok.1 h
  obtain ⟨m₂, hm₂, h₂⟩ := bind_eq_ok.1 h₁
  cases h₂
  refine ⟨c, deref_eq_ok.1 hc, ?_⟩
  by_cases hroom : HasRoom c
  · rw [if_pos (show _ ∧ _ from hroom)] at hm₂
    obtain ⟨n, hn, h₃⟩ := bind_eq_ok.1 hm₂
    obtain ⟨o, -, h₄⟩ := bind_eq_ok.1 h₃
    refine Or.inr ⟨hroom, n, _, m₂, hn, ?_, ?_, h₄, rfl⟩
    all_goals
      split_ifs
      · rfl
      · rfl
  · rw [if_neg (show ¬ (_ ∧ _) from hroom)] at hm₂
    cases hm₂
    exact Or.inl ⟨hroom, rfl⟩

/-! ### Evicting -/

/-- The second loop over the clients from position `i` on: the choice is Disconnected, and no
Disconnected client looked at has a smaller count. -/
theorem longestLoop_spec {l cs : List Client} (best : ℕ × Client) (hcs : l.drop i = cs)
    (hbest : l[best.1]? = some best.2) (hs : best.2.state = .disconnected) :
    ∃ c, l[longestLoop best i cs]? = some c ∧ c.state = .disconnected ∧
      c.cntrPings ≤ best.2.cntrPings ∧
      ∀ d ∈ cs, d.state = .disconnected → c.cntrPings ≤ d.cntrPings := by
  induction cs generalizing best i with
  | nil => exact ⟨best.2, hbest, hs, le_rfl, fun d hd => absurd hd List.not_mem_nil⟩
  | cons e cs ih =>
    have he : l[i]? = some e := by
      rw [← List.head?_drop, hcs]
      rfl
    have hdrop : l.drop (i + 1) = cs := by
      rw [← List.tail_drop, hcs]
      rfl
    unfold longestLoop longerDisconnected
    split_ifs with hlonger
    · obtain ⟨c, hc, hcs', hle, hmin⟩ := ih (i, e) hdrop he hlonger.1
      refine ⟨c, hc, hcs', hle.trans hlonger.2.le, fun d hd hds => ?_⟩
      rcases List.mem_cons.1 hd with rfl | hd
      · exact hle
      · exact hmin d hd hds
    · obtain ⟨c, hc, hcs', hle, hmin⟩ := ih best hdrop hbest hs
      refine ⟨c, hc, hcs', hle, fun d hd hds => ?_⟩
      rcases List.mem_cons.1 hd with rfl | hd
      · exact hle.trans (not_lt.1 fun hlt => hlonger ⟨hds, hlt⟩)
      · exact hmin d hd hds

/-- The longest Disconnected client, if there is a Disconnected client. -/
theorem longestDisconnected_cases (m : ClientManager) :
    (m.isDisconnectedClient = true ∧ ∃ k c, m.longestDisconnected = some k ∧
        m.clients[k]? = some c ∧ c.state = .disconnected ∧
        ∀ d ∈ m.clients, d.state = .disconnected → c.cntrPings ≤ d.cntrPings) ∨
      (m.isDisconnectedClient = false ∧ m.longestDisconnected = none ∧
        ∀ d ∈ m.clients, d.state ≠ .disconnected) := by
  rcases findIdx_cases (fun c : Client => c.state == .disconnected) m.clients with
    ⟨c, hc, hs⟩ | ⟨hend, hnone⟩
  · have hstate : c.state = .disconnected := by simpa using hs
    obtain ⟨e, he, hes, hle, hmin⟩ :=
      longestLoop_spec (i := (m.clients.findIdx fun c => c.state == .disconnected) + 1)
        (m.clients.findIdx fun c => c.state == .disconnected, c) rfl hc hstate
    refine Or.inl ⟨List.any_eq_true.2 ⟨c, List.mem_of_getElem? hc, hs⟩, _, e, ?_, he, hes, ?_⟩
    · simp only [longestDisconnected, hc]
    · intro d hd hds
      -- the clients before the first Disconnected one are not Disconnected
      obtain ⟨j, hj⟩ := List.mem_iff_getElem?.1 hd
      rcases Nat.lt_trichotomy j (m.clients.findIdx fun c => c.state == .disconnected) with
        hlt | rfl | hgt
      · have hnot := List.not_of_lt_findIdx hlt
        obtain ⟨hlen, hat⟩ := List.getElem?_eq_some_iff.1 hj
        simp [hat, hds] at hnot
      · obtain rfl : c = d := Option.some.inj (hc.symm.trans hj)
        exact hle
      · obtain ⟨n, rfl⟩ := Nat.exists_eq_add_of_lt hgt
        refine hmin d (List.mem_iff_getElem?.2 ⟨n, ?_⟩) hds
        rw [List.getElem?_drop, Nat.add_right_comm, hj]
  · refine Or.inr ⟨?_, ?_, by simpa using hnone⟩
    · simpa [isDisconnectedClient] using hnone
    · simp [longestDisconnected, hend]

end ClientManager

/-! ### Connections -/

namespace Server

open ClientManager

variable {s s' : Server} {i : ℕ}

theorem manage_eq_ok {x : Except Fault ClientManager} :
    s.manage x = .ok s' ↔ ∃ m, x = .ok m ∧ { s with mngClient := m } = s' := by
  simp [manage, bind_eq_ok]

/-- A client whose connection was closed. -/
def disconnect (c : Client) : Client := (c.setState .disconnected).setSocket (-42)

theorem disconnect_socketNum (c : Client) : (disconnect c).socketNum < 0 := by
  change (-42 : ℤ) < 0
  decide

theorem closeConnection_cases (h : s.closeConnection i = .ok s') :
    ∃ c, s.mngClient.clients[i]? = some c ∧
      (c.socketNum < 0 ∧ s' = s ∨
        0 ≤ c.socketNum ∧ ∃ m, m.clients = s.mngClient.clients.modify i disconnect ∧
          m.lobby = s.mngClient.lobby ∧
          s' = { s with mngClient := m, sockets := FD_CLR c.socketNum s.sockets }) := by
  obtain ⟨c, hc, h₁⟩ := bind_eq_ok.1 h
  refine ⟨c, deref_eq_ok.1 hc, ?_⟩
  by_cases hs : c.socketNum < 0
  · rw [if_pos hs] at h₁
    cases h₁
    exact Or.inl ⟨hs, rfl⟩
  · rw [if_neg hs] at h₁
    have hmod : ((s.mngClient.setDisconnected i).setBadSocket i (-42)).clients =
        s.mngClient.clients.modify i disconnect := by
      simp only [setBadSocket, setDisconnected, ClientManager.modify, List.modify_modify_eq]
      rfl
    obtain ⟨c', -, h₂⟩ := bind_eq_ok.1 h₁
    refine Or.inr ⟨by omega, ?_⟩
    split_ifs at h₂
    · obtain ⟨m, hm, rfl⟩ := manage_eq_ok.1 h₂
      obtain ⟨hcs, hl⟩ := sendToOpponentOf_same hm
      exact ⟨m, hcs.trans hmod, hl, rfl⟩
    · cases h₂
      exact ⟨_, hmod, rfl, rfl⟩

/-- The client whose connection was closed has no socket, and its flags are those it had. -/
theorem closed_of_closeConnection (h : s.closeConnection i = .ok s') :
    ∃ c c', s.mngClient.clients[i]? = some c ∧ s'.mngClient.clients[i]? = some c' ∧
      c'.socketNum < 0 ∧ c'.flagToErase = c.flagToErase := by
  obtain ⟨c, hc, ⟨hs, rfl⟩ | ⟨-, m, hcs, -, rfl⟩⟩ := closeConnection_cases h
  · exact ⟨c, c, hc, hc, hs, rfl⟩
  · refine ⟨c, disconnect c, hc, ?_, disconnect_socketNum c, rfl⟩
    change m.clients[i]? = _
    rw [hcs, List.getElem?_modify_eq, hc]
    rfl

/-- A client is sent a message, its connection is closed and the instance is erased. -/
def Dismissed (msg : Text) (i : ℕ) (s s' : Server) : Prop :=
  ∃ s₁, { s with mngClient := s.mngClient.sendToClient i msg }.closeConnection i = .ok s₁ ∧
    s₁.manage (s₁.mngClient.eraseClient i) = .ok s'

/-- What the check of the capacity does to a full server: the longest Disconnected client is
erased; or there is none, and the newest client is dismissed. -/
theorem checkCapacity_cases (h : s.checkCapacity = .ok s') :
    (s.mngClient.clients.length = s.maxClients ∧ ∃ k c,
        s.mngClient.longestDisconnected = some k ∧ s.mngClient.clients[k]? = some c ∧
        c.state = .disconnected ∧
        s' = { s with mngClient :=
          { s.mngClient with clients := s.mngClient.clients.eraseIdx k } }) ∨
      (s.mngClient.clients.length = s.maxClients ∧ s.mngClient.longestDisconnected = none ∧
        Dismissed SC_MANY_CLNT (s.mngClient.clients.length - 1) s s') ∨
      (s.mngClient.clients.length ≠ s.maxClients ∧ s' = s) := by
  unfold checkCapacity at h
  by_cases hfull : s.mngClient.clients.length = s.maxClients
  · rw [if_pos hfull] at h
    rcases longestDisconnected_cases s.mngClient with ⟨hdisc, k, c, hk, hc, hs, -⟩ | ⟨hdisc, hk, -⟩
    · rw [if_pos hdisc, eraseLongestDisconnectedClient, hk] at h
      cases h
      exact Or.inl ⟨hfull, k, c, hk, hc, hs, rfl⟩
    · rw [if_neg (by simp [hdisc])] at h
      exact Or.inr (Or.inl ⟨hfull, hk, bind_eq_ok.1 h⟩)
  · rw [if_neg hfull] at h
    cases h
    exact Or.inr (Or.inr ⟨hfull, rfl⟩)

/-- What the flags of a client do: its connection is closed or not, and then it is erased or
not. -/
theorem processFlags_cases (h : s.processFlags i = .ok s') :
    ∃ c s₁ c₁, s.mngClient.clients[i]? = some c ∧ s₁.mngClient.clients[i]? = some c₁ ∧
      c₁.flagToErase = c.flagToErase ∧
      (c.flagToDisconnect = true ∧ c₁.socketNum < 0 ∧ (∃ s₂, s.closeConnection i = .ok s₂ ∧
          s₁ = { s₂ with mngClient := s₂.mngClient.modify i (·.setFlagToDisconnect false) }) ∨
        c.flagToDisconnect = false ∧ s₁ = s) ∧
      (c.flagToErase = true ∧ s₁.manage (s₁.mngClient.eraseClient i) = .ok s' ∨
        c.flagToErase = false ∧ s' = s₁) := by
  obtain ⟨c, hc, h₁⟩ := bind_eq_ok.1 h
  obtain ⟨s₁, hs₁, h₂⟩ := bind_eq_ok.1 h₁
  obtain ⟨c₁, hc₁, h₃⟩ := bind_eq_ok.1 h₂
  rw [deref_eq_ok] at hc hc₁
  have hclose : c₁.flagToErase = c.flagToErase ∧
      (c.flagToDisconnect = true ∧ c₁.socketNum < 0 ∧ (∃ s₂, s.closeConnection i = .ok s₂ ∧
          s₁ = { s₂ with mngClient := s₂.mngClient.modify i (·.setFlagToDisconnect false) }) ∨
        c.flagToDisconnect = false ∧ s₁ = s) := by
    by_cases hflag : c.flagToDisconnect = true
    · rw [if_pos hflag] at hs₁
      obtain ⟨s₂, hs₂, h₄⟩ := bind_eq_ok.1 hs₁
      cases h₄
      obtain ⟨c', c₂, hc', hc₂, hsock, herase⟩ := closed_of_closeConnection hs₂
      obtain rfl : c = c' := Option.some.inj (hc.symm.trans hc')
      change (s₂.mngClient.modify i (·.setFlagToDisconnect false)).clients[i]? = some c₁ at hc₁
      rw [getElem?_modify, hc₂, Option.map_some, if_pos rfl] at hc₁
      obtain rfl := Option.some.inj hc₁
      exact ⟨herase, Or.inl ⟨hflag, hsock, s₂, hs₂, rfl⟩⟩
    · rw [if_neg hflag] at hs₁
      cases hs₁
      obtain rfl : c = c₁ := Option.some.inj (hc.symm.trans hc₁)
      exact ⟨rfl, Or.inr ⟨by simpa using hflag, rfl⟩⟩
  refine ⟨c, s₁, c₁, hc, hc₁, hclose.1, hclose.2, ?_⟩
  rw [hclose.1] at h₃
  by_cases herase : c.flagToErase = true
  · rw [if_pos herase] at h₃
    exact Or.inl ⟨herase, h₃⟩
  · rw [if_neg herase] at h₃
    cases h₃
    exact Or.inr ⟨by simpa using herase, rfl⟩

/-- The shutdown dismisses one client after the other. -/
theorem closeClientSockets_invariant {P : Server → Prop}
    (hP : ∀ s s', P s → Dismissed SC_SHDW 0 s s' → P s') {fuel : ℕ} (hs : P s)
    (h : closeClientSockets fuel s = .ok s') : P s' := by
  induction fuel generalizing s with
  | zero =>
    cases h
    exact hs
  | succ fuel ih =>
    rw [closeClientSockets] at h
    split_ifs at h
    · cases h
      exact hs
    · obtain ⟨s₁, hs₁, h₁⟩ := bind_eq_ok.1 h
      obtain ⟨s₂, hs₂, h₂⟩ := bind_eq_ok.1 h₁
      exact ih (hP s s₂ hs ⟨s₁, hs₁, hs₂⟩) h₂

/-- A relation between the server before and after that holds along the parts of a pass which
handle no frame: closing a connection, erasing an instance, and what is done about the two. -/
structure Preserving (R : Server → Server → Prop) : Prop where
  refl : ∀ s, R s s
  trans : ∀ s₁ s₂ s₃, R s₁ s₂ → R s₂ s₃ → R s₁ s₃
  tell : ∀ s i, ∀ msg ∈ [SC_MANY_CLNT, SC_SHDW, SC_KICK],
    R s { s with mngClient := s.mngClient.sendToClient i msg }
  close : ∀ s i s', s.closeConnection i = .ok s' → R s s'
  erase : ∀ s i s', s.manage (s.mngClient.eraseClient i) = .ok s' → R s s'
  evict : ∀ s k, R s { s with mngClient :=
    { s.mngClient with clients := s.mngClient.clients.eraseIdx k } }
  unflag : ∀ s i, R s { s with mngClient := s.mngClient.modify i (·.setFlagToDisconnect false) }

namespace Preserving

variable {R : Server → Server → Prop}

theorem kick (hR : Preserving R) (h : s.kick i = .ok s') : R s s' :=
  hR.trans _ _ _ (hR.tell s i SC_KICK (by simp)) (hR.close _ _ _ h)

theorem dismissed (hR : Preserving R) {msg : Text} (hmsg : msg ∈ [SC_MANY_CLNT, SC_SHDW, SC_KICK])
    (h : Dismissed msg i s s') : R s s' := by
  obtain ⟨s₁, hclose, herase⟩ := h
  have hclosed := hR.trans _ _ _ (hR.tell s i msg hmsg) (hR.close _ _ _ hclose)
  exact hR.trans _ _ _ hclosed (hR.erase _ _ _ herase)

theorem checkCapacity (hR : Preserving R) (h : s.checkCapacity = .ok s') : R s s' := by
  rcases checkCapacity_cases h with ⟨-, k, c, -, -, -, rfl⟩ | ⟨-, -, hdismiss⟩ | ⟨-, rfl⟩
  · exact hR.evict s k
  · exact hR.dismissed (by simp) hdismiss
  · exact hR.refl _

theorem processFlags (hR : Preserving R) (h : s.processFlags i = .ok s') : R s s' := by
  obtain ⟨c, s₁, c₁, -, -, -, hfirst, hsecond⟩ := processFlags_cases h
  have hclosed : R s s₁ := by
    rcases hfirst with ⟨-, -, s₂, hs₂, rfl⟩ | ⟨-, rfl⟩
    · exact hR.trans _ _ _ (hR.close _ _ _ hs₂) (hR.unflag s₂ i)
    · exact hR.refl _
  rcases hsecond with ⟨-, herase⟩ | ⟨-, rfl⟩
  · exact hR.trans _ _ _ hclosed (hR.erase _ _ _ herase)
  · exact hclosed

theorem closeClientSockets (hR : Preserving R) {fuel : ℕ}
    (h : closeClientSockets fuel s = .ok s') : R s s' :=
  closeClientSockets_invariant (P := R s)
    (fun _ _ hs hst => hR.trans _ _ _ hs (hR.dismissed (by simp) hst)) (hR.refl s) h

end Preserving

/-- What a frame does: it is rejected, or served. -/
theorem frame_cases {d : Frame} (h : s.handle (.frame i d) = .ok s') :
    ∃ c m b, s.mngClient.clients[i]? = some c ∧ s' = { s with mngClient := m } ∧
      (d.acceptedIn c.state = false ∧ m = s.mngClient ∨
        d.acceptedIn c.state = true ∧ s.mngClient.serveFrame i c.state d = .ok (m, b)) := by
  obtain ⟨m, hm, rfl⟩ := manage_eq_ok.1 h
  rw [routeRequest_map_fst, handleFrame] at hm
  cases hc : s.mngClient.deref i with
  | error f => simp [hc, Except.map] at hm
  | ok c =>
    rw [hc, ok_bind] at hm
    cases hacc : d.acceptedIn c.state with
    | false =>
      rw [hacc] at hm
      cases hm
      exact ⟨c, _, 0, deref_eq_ok.1 hc, rfl, Or.inl ⟨hacc, rfl⟩⟩
    | true =>
      rw [hacc, if_pos rfl] at hm
      cases hserve : s.mngClient.serveFrame i c.state d with
      | error f => simp [hserve, Except.map] at hm
      | ok p =>
        rw [hserve] at hm
        cases hm
        exact ⟨c, _, p.2, deref_eq_ok.1 hc, rfl, Or.inr ⟨hacc, hserve⟩⟩

end Server

end HnefServer
