import HnefServer.Invariant.Steps

/-!
# Orderly requests return

Whenever the clients and the rooms agree, an orderly request dereferences valid iterators only,
and returns (`returns_*`).
-/

namespace HnefServer

open Protocol ClientManager

namespace Hall

open Client

variable {strict : Bool} {m m' : ClientManager} {i j k : ℕ} {c d : Client} {r : RoomHnefatafl}

theorem returns_deref (hc : m.clients[i]? = some c) : Returns (m.deref i) :=
  ⟨c, deref_eq_ok.2 hc⟩

theorem returns_deref_of_lt (hi : i < m.clients.length) : Returns (m.deref i) :=
  returns_deref (List.getElem?_eq_getElem hi)

theorem returns_deref_modify {f : Client → Client} (hc : m.clients[i]? = some c) :
    Returns ((m.modify j f).deref i) :=
  returns_deref (by rw [getElem?_modify, hc]; rfl)

theorem returns_toOpponent (hnames : DistinctKeys nickKey m.clients)
    (ho : Opponents m k r i c j d) (msg : Text) : Returns (m.sendToOpponentOf i msg) := by
  have hj := findClientByNick_eq hnames ho.snd ho.sndName
  have hlt := (List.getElem?_eq_some_iff.1 ho.snd).1
  simp only [sendToOpponentOf, deref_eq_ok.2 ho.fst, ok_bind, ho.getOpponentOf hnames, hj, hlt.ne,
    if_false, deref_eq_ok.2 ho.snd]
  split_ifs
  · exact .ok _
  · exact .ok _

theorem returns_sendToOpponentOf (hm : m.hall.Member) (hc : m.clients[i]? = some c)
    (hn : c.nick ≠ []) (hroom : c.roomId ≠ 0) (msg : Text) :
    Returns (m.sendToOpponentOf i msg) := by
  obtain ⟨k, r, j, d, ho⟩ := hm.opponent hc hn hroom
  exact returns_toOpponent hm.names ho msg

theorem returns_destroyRoom (ho : Opponents m k r i c j d) :
    Returns (m.destroyRoom r.roomId i j) := by
  have hlt := (List.getElem?_eq_some_iff.1 ho.room).1
  simp only [destroyRoom, deref_eq_ok.2 ho.fst, deref_eq_ok.2 ho.snd, ok_bind]
  refine Returns.bind ?_ fun _ _ => .ok _
  split_ifs
  · rw [Lobby.eraseRoom, if_pos (by simpa [ClientManager.modify, ho.find] using hlt)]
    exact .ok _
  · exact .ok _

/-! ### Connecting -/

theorem returns_reportReconnection (hm : m.hall.Member) (hc : m.clients[i]? = some c)
    (hn : c.roomId ≠ 0 → c.nick ≠ []) : Returns (m.reportReconnection i) := by
  simp only [reportReconnection, deref_eq_ok.2 hc, ok_bind]
  refine Returns.bind ?_ fun _ _ => .ok _
  split_ifs with hroom
  · exact .ok _
  · obtain ⟨k, r, j, d, ho⟩ := hm.opponent hc (hn hroom) hroom
    refine Returns.bind ?_ fun msg _ =>
      returns_sendToOpponentOf (m := m.sendToClient i msg) hm hc (hn hroom) hroom _
    have hderef : m.lobby.deref (m.lobby.getRoomById c.roomId) = .ok r := by
      rw [ho.fstRoom, ho.find, lobby_deref_eq_ok, ho.room]
    simp only [composeMsgInGameRecn, ho.getOpponentOf hm.names, Lobby.getPlayfieldString, hderef,
      ok_bind]
    exact .ok _

theorem returns_requestConnect (hm : m.hall.Member) (hc : m.clients[i]? = some c)
    (hsock : 0 ≤ c.socketNum) {n : Nick} (ho : m.OrderlyFrame strict c (.connect n)) :
    Returns (m.requestConnect i n.text c.state) := by
  have hok := hm.ok c (List.mem_of_getElem? hc)
  simp only [requestConnect, deref_eq_ok.2 hc, ok_bind]
  split_ifs with hnick hnew hip
  · exact .ok _
  · exact .ok _
  · exact .ok _
  refine Returns.bind ?_ fun _ _ => .ok _
  rcases findIdx_cases (fun d : Client => d.nick == n.text && d.ipAddress == c.ipAddress)
    m.clients with ⟨d, hd, hp⟩ | ⟨hend, -⟩
  swap
  · exact absurd hend hip
  change m.clients[m.findClientByNickAndIp n.text c.ipAddress]? = some d at hd
  simp only [Bool.and_eq_true, beq_iff_eq] at hp
  obtain ⟨hshort, hlong, hready, hnew⟩ := ho d (List.mem_of_getElem? hd) hp.1 hp.2
  have hshortReturns : (d.state = .pinged ∨ d.state = .lost) →
      Returns ((m.modify i fun c => c.setState c.stateLast).reportReconnection i) := by
    intro hs
    have hchange : Changes strict m.hall (m.modify i fun c => c.setState c.stateLast).hall :=
      changes_restore hm hc hsock (hshort hs) rfl rfl
    have hnamed := hm.named_of_room hc hsock
    exact returns_reportReconnection (hm.changes hchange) (c := c.setState c.stateLast)
      (by simp [getElem?_modify, hc]) hnamed
  cases hs : d.state with
  | waiting | playingOnTurn | playingOnStand =>
    simp only [handleReconnection, deref_eq_ok.2 hd, ok_bind, hs]
    exact .ok _
  | pinged | lost =>
    simp only [handleReconnection, deref_eq_ok.2 hd, ok_bind, hs]
    exact hshortReturns (by simp [hs])
  | new => exact absurd hs hnew
  | ready => exact absurd hs hready
  | disconnected =>
    rw [handleReconnection_takeOver hd (by simp [hs])]
    have hchange : Changes strict m.hall
        ((m.modify i (takeOver n.text d)).modify
          (m.findClientByNickAndIp n.text c.ipAddress) expire).hall :=
      changes_takeOver hm hc hsock hd hp.1 n.ne_nil hs (hlong hs)
    have hij := ne_of_disconnected hm hc hsock hd hs
    exact returns_reportReconnection (hm.changes hchange) (c := takeOver n.text d c)
      (by simp [getElem?_modify, hc, hij.symm]) fun _ => n.ne_nil

/-! ### Playing -/

theorem returns_afterMove (hnames : DistinctKeys nickKey m.clients)
    (ho : Opponents m k r j c i d) (hcn : c.nick = r.onStand) (hdn : d.nick = r.onTurn)
    {r' : RoomHnefatafl} (hid : r'.roomId = r.roomId) (ht : r'.onTurn = r.onStand)
    (hs : r'.onStand = r.onTurn) (t : Text) : Returns ((m.putRoom k r').afterMove r.roomId t) := by
  have hafter := ho.handedOver hid (ht.trans hcn.symm) (hs.trans hdn.symm) t
  have hderef : (m.putRoom k r').lobby.deref ((m.putRoom k r').lobby.getRoomById r.roomId) =
      .ok r' := by
    rw [getRoomById_putRoom ho.room hid, ho.find, lobby_deref_eq_ok]
    exact hafter.room
  have hj : (m.putRoom k r').findClientByNick r'.onTurn = j := by
    rw [ht, ← hcn]
    exact findClientByNick_eq hnames ho.fst ho.fstName
  have hi : (m.putRoom k r').findClientByNick r'.onStand = i := by
    rw [hs, ← hdn]
    exact findClientByNick_eq hnames ho.snd ho.sndName
  have hc : (m.putRoom k r').clients[j]? = some c := ho.fst
  unfold afterMove
  rw [show (m.putRoom k r').lobby.getNickofPlayerOnTurn r.roomId = .ok r'.onTurn by
    rw [Lobby.getNickofPlayerOnTurn, hderef]; rfl, ok_bind,
    show (m.putRoom k r').lobby.getNickofPlayerOnStand r.roomId = .ok r'.onStand by
    rw [Lobby.getNickofPlayerOnStand, hderef]; rfl, ok_bind]
  dsimp only
  rw [hi, hj, deref_eq_ok.2 hc, ok_bind]
  refine Returns.bind ?_ fun _ _ => Returns.bind ⟨r'.gameState, ?_⟩ fun gs _ => ?_
  · exact returns_deref_modify ho.snd
  · change (m.putRoom k r').lobby.getRoomStatus r.roomId = .ok r'.gameState
    rw [Lobby.getRoomStatus, hderef]
    rfl
  · by_cases hover : gs = .gameover
    · rw [if_pos hover, ← hid]
      refine returns_destroyRoom (hafter.of_hall ?_)
      rw [hall_sendToClient, hall_sendToClient]
      rfl
    · rw [if_neg hover]
      exact .ok _

/-- A move request returns if the two players of the room are there. -/
theorem returns_requestMove_of_players (hnames : DistinctKeys nickKey m.clients) {a b : Client}
    {x y : ℕ} (hc : m.clients[i]? = some c) (hid : c.roomId = r.roomId)
    (ho : Opponents m k r x a y b) (ha : a.nick = r.onTurn) (hb : b.nick = r.onStand)
    (t : Coordinates) : Returns (m.requestMove i t.text) := by
  have hk : m.lobby.getRoomById c.roomId = k := by rw [hid, ho.find]
  have hlen : t.text.length = 8 := Nat.le_antisymm t.upper t.lower
  obtain ⟨⟨r', moved⟩, hproc⟩ := RoomHnefatafl.processMove_returns (r := r) hlen t.chars
  simp only [requestMove, deref_eq_ok.2 hc, ok_bind, Lobby.moveInRoom, hk,
    lobby_deref_eq_ok.2 ho.room, hproc, pure_eq_ok]
  cases moved with
  | false => exact .ok _
  | true =>
    simp only [if_true]
    refine Returns.bind ?_ fun _ _ => .ok _
    obtain ⟨hid', -, -, hturn⟩ := RoomHnefatafl.processMove_players hproc
    obtain ⟨-, ht, hs⟩ := hturn.resolve_left fun h => by simp at h
    rw [hid]
    exact returns_afterMove hnames ho.symm hb ha hid' ht hs t.text

theorem returns_requestMove (hm : m.hall.Member) (hc : m.clients[i]? = some c)
    (hn : c.nick ≠ []) (hroom : c.roomId ≠ 0) (t : Coordinates) :
    Returns (m.requestMove i t.text) := by
  obtain ⟨k, r, j, d, ho⟩ := hm.opponent hc hn hroom
  obtain ⟨x, a, y, b, hplayers, ha, hb⟩ := hm.players ho.room
  exact returns_requestMove_of_players hm.names hc ho.fstRoom hplayers ha hb t

theorem returns_requestLeave (hnames : DistinctKeys nickKey m.clients)
    (ho : Opponents m k r i c j d) : Returns (m.requestLeave i) := by
  refine Returns.bind (returns_toOpponent (m := m.sendToClient i SC_RESP_LEAVE) hnames
    (ho.of_hall rfl) _) fun m₁ hm₁ => ?_
  obtain ⟨hcs, hl⟩ := sendToOpponentOf_same hm₁
  have hsame : m₁.hall = m.hall := by
    simp only [ClientManager.hall, hcs, hl]
    rfl
  have ho₁ : Opponents m₁ k r i c j d := ho.of_hall hsame
  have hnames₁ : DistinctKeys nickKey m₁.clients := hcs ▸ hnames
  simp only [deref_eq_ok.2 ho₁.fst, ok_bind, ho₁.getOpponentOf hnames₁,
    findClientByNick_eq hnames₁ ho₁.snd ho₁.sndName, ho.fstRoom]
  exact Returns.bind (returns_destroyRoom ho₁) fun _ _ => .ok _

theorem returns_serveFrame (hm : m.hall.Member) (hc : m.clients[i]? = some c)
    (hsock : 0 ≤ c.socketNum) {f : Frame} (ho : m.OrderlyFrame strict c f)
    (hacc : f.acceptedIn c.state = true) : Returns (m.serveFrame i c.state f) := by
  have hplayer : (c.state = .playingOnTurn ∨ c.state = .playingOnStand ∨ c.state = .pinged) →
      (c.state = .pinged → c.stateLast.inGame = true) → c.nick ≠ [] ∧ c.roomId ≠ 0 := by
    intro hs ho
    obtain ⟨hgame, hgone⟩ := inGame_of_frame hs ho
    exact hm.named hc hgame hgone
  cases f with
  | ping | pong | ready => exact .ok _
  | connect n => exact returns_requestConnect hm hc hsock ho
  | move t =>
    obtain ⟨hn, hroom⟩ := hplayer
      (by simp only [Frame.acceptedIn, Bool.or_eq_true, beq_iff_eq] at hacc; tauto) ho
    exact returns_requestMove hm hc hn hroom t
  | leave =>
    obtain ⟨hn, hroom⟩ := hplayer (by simpa [Frame.acceptedIn, or_assoc] using hacc) ho
    obtain ⟨k, r, j, d, ho⟩ := hm.opponent hc hn hroom
    exact returns_requestLeave hm.names ho
  | chat msg =>
    obtain ⟨hn, hroom⟩ := hplayer (by simpa [Frame.acceptedIn, or_assoc] using hacc) ho
    exact Returns.bind (returns_sendToOpponentOf hm hc hn hroom _) fun _ _ => .ok _
  | ok => cases hacc

theorem returns_handleFrame (hm : m.hall.Member) (hc : m.clients[i]? = some c)
    (hsock : 0 ≤ c.socketNum) {d : Frame} (ho : m.OrderlyFrame strict c d) :
    Returns (m.handleFrame i d) := by
  rw [handleFrame, deref_eq_ok.2 hc, ok_bind]
  cases hacc : d.acceptedIn c.state with
  | false => exact .ok _
  | true => exact returns_serveFrame hm hc hsock ho hacc

/-! ### Pairing -/

theorem exists_client (hi : i < m.clients.length) : ∃ c, m.clients[i]? = some c :=
  ⟨_, List.getElem?_eq_getElem hi⟩

theorem returns_startGame {id : ℕ} (hi : i < m.clients.length) (hj : j < m.clients.length) :
    Returns (m.startGame id i j) := by
  refine Returns.bind ?_ fun _ _ => Returns.bind ?_ fun _ _ => .ok _
  · exact returns_deref_of_lt (by simpa [ClientManager.modify] using hj)
  · exact returns_deref_of_lt (by simpa [ClientManager.modify, sendToClient] using hi)

theorem returns_pairLoop (fuel : ℕ) : Returns (pairLoop fuel m i) := by
  induction fuel generalizing m i with
  | zero => exact .ok _
  | succ fuel ih =>
    rw [pairLoop]
    by_cases hi : i < m.clients.length
    · rw [if_pos hi]
      refine Returns.bind (returns_deref_of_lt hi) fun c _ => ?_
      by_cases hp : c.state = .ready ∧ m.nextReady (i + 1) < m.clients.length
      · rw [if_pos hp]
        refine Returns.bind (returns_deref_of_lt hp.2) fun d _ => ?_
        exact Returns.bind (returns_startGame hi hp.2) fun m₁ _ => ih
      · rw [if_neg hp]
        exact ih
    · rw [if_neg hi]
      exact .ok _

/-! ### Pinging -/

theorem returns_pingClient (hm : m.hall.Member) (hc : m.clients[i]? = some c) :
    Returns (m.pingClient i) := by
  have hok := hm.ok c (List.mem_of_getElem? hc)
  simp only [pingClient, deref_eq_ok.2 hc, ok_bind]
  by_cases hunnamed : c.state ≠ .new ∧ c.nick = [] ∧ c.socketNum > 0
  · rw [if_pos hunnamed]
    exact .ok _
  rw [if_neg hunnamed]
  by_cases hp : c.state = .pinged
  · rw [if_pos hp]
    -- the client stays in its game, if it is in one
    have hlost : Changes false m.hall
        ((m.sendToClient i OP_PING).modify i (·.setState .lost)).hall :=
      change_client hc rfl rfl
        ⟨hok.setInaccessible rfl (by simp [hp]) (by simp), rfl, rfl⟩ (by simp)
    have hc' : ((m.sendToClient i OP_PING).modify i (·.setState .lost)).clients[i]? =
        some (c.setState .lost) := by
      simp [getElem?_modify, sendToClient, hc]
    rw [deref_eq_ok.2 hc', ok_bind]
    by_cases hgame : (c.setState .lost).stateLast.inGame = true
    · rw [if_pos hgame]
      obtain ⟨hn, hroom⟩ := (hm.changes hlost).named hc' hgame (by simp)
      exact returns_sendToOpponentOf (hm.changes hlost) hc' hn hroom _
    · rw [if_neg hgame]
      exact .ok _
  rw [if_neg hp]
  by_cases hl : c.state = .lost
  · rw [if_pos hl]
    exact .ok _
  rw [if_neg hl]
  by_cases hd : c.state = .disconnected
  · rw [if_pos hd]
    refine Returns.bind (returns_deref_modify hc) fun c' _ => ?_
    split_ifs
    · exact .ok _
    · exact .ok _
  · rw [if_neg hd]
    exact .ok _

theorem returns_pingLoop (is : List ℕ) (hm : m.hall.Member)
    (his : ∀ i ∈ is, i < m.clients.length) : Returns (is.foldlM pingClient m) := by
  induction is generalizing m with
  | nil => exact .ok _
  | cons i is ih =>
    rw [List.foldlM_cons]
    obtain ⟨c, hc⟩ := exists_client (his i List.mem_cons_self)
    refine Returns.bind (returns_pingClient hm hc) fun m₁ hm₁ => ?_
    have hfirst : Changes false m.hall m₁.hall := changes_pingClient hm hm₁
    refine ih (hm.changes hfirst) fun j hj => ?_
    rw [(pingClient_spec hm₁).1, List.length_modify]
    exact his j (List.mem_cons_of_mem i hj)

/-! ### Erasing -/

theorem returns_eraseClient (hnames : DistinctKeys nickKey m.clients)
    (hc : m.clients[i]? = some c)
    (ho : HasRoom c → ∃ k r j d, Opponents m k r i c j d) : Returns (m.eraseClient i) := by
  simp only [eraseClient, deref_eq_ok.2 hc, ok_bind]
  refine Returns.bind ?_ fun _ _ => .ok _
  by_cases hhas : HasRoom c
  · rw [if_pos (show _ ∧ _ from hhas)]
    obtain ⟨k, r, j, d, ho⟩ := ho hhas
    simp only [ho.getOpponentOf hnames, findClientByNick_eq hnames ho.snd ho.sndName, ok_bind,
      deref_eq_ok.2 ho.snd, ho.fstRoom]
    split_ifs
    · exact returns_destroyRoom (ho.of_hall rfl)
    · exact returns_destroyRoom ho
  · rw [if_neg (show ¬ (_ ∧ _) from hhas)]
    exact .ok _

end Hall

/-! ### Connections -/

namespace Server

open Hall

variable {strict : Bool} {s s' : Server} {i : ℕ} {c : Client} {l : Input}

theorem returns_manage {x : Except Fault ClientManager} (hx : Returns x) : Returns (s.manage x) :=
  Returns.bind hx fun _ _ => .ok _

theorem returns_closeConnection (hm : s.hall.Member) (hc : s.mngClient.clients[i]? = some c) :
    Returns (s.closeConnection i) := by
  have hok := hm.ok c (List.mem_of_getElem? hc)
  simp only [closeConnection, deref_eq_ok.2 hc, ok_bind]
  by_cases hsock : c.socketNum < 0
  · rw [if_pos hsock]
    exact .ok _
  rw [if_neg hsock]
  have hclosed : Changes false s.hall
      ((s.mngClient.setDisconnected i).setBadSocket i (-42)).hall :=
    change_client (f := disconnect) hc
      (by
        simp only [setBadSocket, setDisconnected, ClientManager.modify, List.modify_modify_eq]
        rfl)
      rfl ⟨hok.disconnect, rfl, rfl⟩ fun hs => nomatch hs
  have hc' : ((s.mngClient.setDisconnected i).setBadSocket i (-42)).clients[i]? =
      some (disconnect c) := by
    simp [setBadSocket, setDisconnected, ClientManager.modify, hc, disconnect]
  rw [deref_eq_ok.2 hc', ok_bind]
  by_cases hgame : (disconnect c).stateLast.inGame = true
  · rw [if_pos hgame]
    have hstate : c.state ≠ .disconnected := fun hs => hsock (hok.gone hs)
    obtain ⟨hn, hroom⟩ := hm.named hc hgame hstate
    exact returns_manage (returns_sendToOpponentOf (hm.changes hclosed) hc' hn hroom _)
  · rw [if_neg hgame]
    exact .ok _

/-- The instance whose connection was closed can be erased. -/
theorem returns_erase_closed (hm : s.hall.Member) (h : s.closeConnection i = .ok s') :
    Returns (s'.manage (s'.mngClient.eraseClient i)) := by
  obtain ⟨-, c, -, hc, -⟩ := closed_of_closeConnection h
  have hclose : Changes false s.hall s'.hall := changes_closeConnection hm h
  have hm' := hm.changes hclose
  exact returns_manage (returns_eraseClient hm'.names hc fun h => hm'.opponent hc h.1 h.2.1)

theorem returns_checkCapacity (hm : s.hall.Member) (hmax : 0 < s.maxClients) :
    Returns s.checkCapacity := by
  unfold checkCapacity
  split_ifs with hfull hdisc
  · exact .ok _
  · obtain ⟨c, hc⟩ := exists_client (m := s.mngClient) (i := s.mngClient.clients.length - 1)
      (by omega)
    let last := s.mngClient.clients.length - 1
    let told := { s with mngClient := s.mngClient.sendToClient last SC_MANY_CLNT }
    exact Returns.bind (returns_closeConnection (s := told) hm hc) fun _ hclose =>
      returns_erase_closed (s := told) hm hclose
  · exact .ok _

theorem returns_processFlags (hm : s.hall.Member) (hi : i < s.mngClient.clients.length) :
    Returns (s.processFlags i) := by
  obtain ⟨c, hc⟩ := exists_client hi
  simp only [processFlags, deref_eq_ok.2 hc, ok_bind]
  have herase : ∀ s₁ : Server, s₁.hall.Member → (∃ c₁, s₁.mngClient.clients[i]? = some c₁) →
      Returns (do
        let c ← s₁.mngClient.deref i
        if c.flagToErase then s₁.manage (s₁.mngClient.eraseClient i) else return s₁) := by
    rintro s₁ hm₁ ⟨c₁, hc₁⟩
    rw [deref_eq_ok.2 hc₁, ok_bind]
    split_ifs
    · exact returns_manage (returns_eraseClient hm₁.names hc₁ fun h => hm₁.opponent hc₁ h.1 h.2.1)
    · exact .ok _
  by_cases hflag : c.flagToDisconnect = true
  · rw [if_pos hflag]
    refine Returns.bind (Returns.bind (returns_closeConnection hm hc) fun _ _ => .ok _) ?_
    intro s₁ hs₁
    obtain ⟨s₂, hs₂, h₁⟩ := bind_eq_ok.1 hs₁
    cases h₁
    have hclose : Changes false s.hall s₂.hall := changes_closeConnection hm hs₂
    obtain ⟨-, c₂, -, hc₂, hsock, -⟩ := closed_of_closeConnection hs₂
    have hok := (hm.changes hclose).ok c₂ (List.mem_of_getElem? hc₂)
    have hreset : Changes false s₂.hall
        (s₂.mngClient.modify i (·.setFlagToDisconnect false)).hall :=
      change_client hc₂ rfl rfl ⟨hok.clearFlag hsock, rfl, rfl⟩ fun _ _ => rfl
    exact herase { s₂ with mngClient := s₂.mngClient.modify i (·.setFlagToDisconnect false) }
      ((hm.changes hclose).changes hreset) ⟨_, by rw [getElem?_modify, hc₂]; rfl⟩
  · rw [if_neg hflag]
    exact herase s hm ⟨c, hc⟩

theorem returns_closeClientSockets (fuel : ℕ) (hm : s.hall.Member) :
    Returns (closeClientSockets fuel s) := by
  induction fuel generalizing s with
  | zero => exact .ok _
  | succ fuel ih =>
    rw [closeClientSockets]
    split_ifs with hnil
    · exact .ok _
    · obtain ⟨c, hc⟩ := exists_client (m := s.mngClient) (List.length_pos_iff.2 hnil)
      let told := { s with mngClient := s.mngClient.sendToClient 0 SC_SHDW }
      refine Returns.bind (returns_closeConnection (s := told) hm hc) fun s₁ hclose =>
        Returns.bind (returns_erase_closed (s := told) hm hclose) fun s₂ herase => ih ?_
      have hchanges : Changes false s.hall s₂.hall := changes_dismissed hm ⟨s₁, hclose, herase⟩
      exact hm.changes hchanges

end Server

variable {strict : Bool} {s s' : Server} {l : Input}

/-- **An orderly step returns**: no iterator it dereferences is invalid. -/
theorem server_not_faults (hm : s.hall.Member) (hmax : 0 < s.maxClients)
    (ho : s.Orderly strict l) : ¬ server.Faults s l := by
  rw [System.not_faults_iff]
  intro hguard
  have hreturns : Returns (s.clearSent.handle l) := by
    change s.clearSent.hall.Member at hm
    cases l with
    | accept ip fd =>
      have hjoin : Hall.Changes false s.clearSent.hall (s.clearSent.acceptConnection ip fd).hall :=
        Server.changes_acceptConnection
      refine Server.returns_checkCapacity (hm.changes hjoin) ?_
      unfold Server.acceptConnection
      split_ifs <;> exact hmax
    | frame client d =>
      obtain ⟨-, c, hc, hsock⟩ := hguard
      change Returns (s.clearSent.manage _)
      refine Server.returns_manage ?_
      obtain ⟨p, hp⟩ := Hall.returns_handleFrame (m := s.clearSent.mngClient) hm hc hsock (ho c hc)
      rw [routeRequest_map_fst, hp]
      exact .ok _
    | close client =>
      obtain ⟨-, c, hc, -⟩ := hguard
      exact Server.returns_closeConnection hm hc
    | kick client =>
      obtain ⟨-, c, hc, -⟩ := hguard
      exact Server.returns_closeConnection
        (s := { s.clearSent with mngClient := s.clearSent.mngClient.sendToClient client SC_KICK })
        hm hc
    | flags client => exact Server.returns_processFlags hm hguard.2
    | pair => exact Server.returns_manage (Hall.returns_pairLoop _)
    | ping =>
      exact Server.returns_manage
        (Hall.returns_pingLoop _ hm fun i hi => List.mem_range.1 hi)
    | shutdown => exact Returns.bind (Server.returns_closeClientSockets _ hm) fun _ _ => .ok _
  obtain ⟨s', hs'⟩ := hreturns
  exact ⟨s', hguard, hs'⟩

end HnefServer
