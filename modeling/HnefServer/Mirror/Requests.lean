import HnefServer.Mirror.Informs

/-!
# The requests of a game inform its players

A move, the end of a game, and a reconnection to it: whoever is in the room learns from the frames
what has become of the game, and nobody else's room changes.
-/

namespace HnefServer

open Protocol ClientManager

variable {m m' m₁ : ClientManager} {i j k x : ℕ} {c d e : Client} {r r' : RoomHnefatafl}
  {vs : List Mirror} {v : Mirror} {t : Text}

/-! ### Restoring -/

/-- Restoring the last state of the client leaves it where it is. -/
def Client.Recalls (c : Client) : Prop :=
  c.state.inaccessible = true ∨ c.stateLast.place = c.state.place

instance (c : Client) : Decidable c.Recalls := inferInstanceAs (Decidable (_ ∨ _))

theorem stays_restore (hok : c.Ok) (hr : c.Recalls) : Stays c (c.setState c.stateLast) := by
  refine ⟨?_, rfl, fun h => h, fun h => h⟩
  rw [Client.logical_setState hok.last]
  cases hs : c.state.inaccessible with
  | true => rw [Client.logical_of_inaccessible hs]
  | false =>
    rw [Client.logical_of_accessible hs]
    exact hr.resolve_left (by simp [hs])

theorem stays_inaccessible {s : State} (hs : s.inaccessible = true) : Stays c (c.setState s) :=
  ⟨by rw [Client.logical_setState_of_inaccessible hs], rfl, fun h => h, fun h => h⟩

/-! ### Who is in a room -/

/-- The two opponents are the only connected clients in their room. -/
theorem Opponents.only (ho : Opponents m k r i c j d) (hm : m.hall.Member)
    (he : m.clients[x]? = some e) (hsock : 0 ≤ e.socketNum) (hi : x ≠ i) (hj : x ≠ j) :
    e.roomId ≠ r.roomId := by
  intro hid
  have hroom : e.roomId ≠ 0 := hid ▸ hm.roomId_ne_zero ho.room
  have hn : e.nick ≠ [] := hm.named_of_room he hsock hroom
  obtain ⟨k', r', y, e', ho'⟩ := hm.opponent he hn hroom
  have hk : k' = k := by rw [← ho'.find, ← ho.find, ← ho'.fstRoom, hid]
  subst hk
  obtain rfl : r' = r := Option.some.inj (ho'.room.symm.trans ho.room)
  have hnick : e.nick = c.nick ∨ e.nick = d.nick := by
    rcases ho'.nicks with ⟨h, -⟩ | ⟨h, -⟩ <;> rcases ho.nicks with ⟨hc, hd⟩ | ⟨hc, hd⟩
    · exact Or.inl (h.trans hc.symm)
    · exact Or.inr (h.trans hd.symm)
    · exact Or.inr (h.trans hd.symm)
    · exact Or.inl (h.trans hc.symm)
  rcases hnick with h | h
  · exact hi (Hall.eq_of_nick hm.names he ho.fst h hn)
  · exact hj (Hall.eq_of_nick hm.names he ho.snd h hn)

/-- Closing a room keeps the others. -/
theorem roomKept_eraseIdx {games : List RoomHnefatafl} (hr : games[k]? = some r)
    (hne : e.roomId ≠ r.roomId) : RoomKept games (games.eraseIdx k) e := by
  intro r₁ hr₁ hid
  obtain ⟨y, hy⟩ := List.mem_iff_getElem?.1 hr₁
  refine ⟨r₁, List.mem_eraseIdx_iff_getElem?.2 ⟨y, ?_, hy⟩, rfl, rfl⟩
  rintro rfl
  obtain rfl : r = r₁ := Option.some.inj (hr.symm.trans hy)
  exact hne hid.symm

/-- Changing a room keeps the others. -/
theorem roomKept_set {games : List RoomHnefatafl} (hr : games[k]? = some r)
    (hne : e.roomId ≠ r.roomId ∨ r'.roomId = r.roomId ∧ r'.pf = r.pf) :
    RoomKept games (games.set k r') e := by
  have hlt := (List.getElem?_eq_some_iff.1 hr).1
  intro r₁ hr₁ hid
  obtain ⟨y, hy⟩ := List.mem_iff_getElem?.1 hr₁
  by_cases hyk : y = k
  · subst hyk
    obtain rfl : r = r₁ := Option.some.inj (hr.symm.trans hy)
    obtain ⟨hid', hpf⟩ := hne.resolve_left fun h => h hid.symm
    exact ⟨r', (mem_set hlt).2 (Or.inl rfl), hid', hpf⟩
  · exact ⟨r₁, (mem_set hlt).2 (Or.inr ⟨y, hyk, hy⟩), rfl, rfl⟩

/-! ### The end of a game -/

/-- **Both players of a room that is destroyed are in the lobby**, and know it if they are told
so before. -/
theorem informs_destroyRoom (hm : m.hall.Member) (ho : Opponents m k r i c j d)
    (log : List (ℕ × Text)) (hcs : m₁.clients = m.clients) (hl : m₁.lobby = m.lobby)
    (hsent : m₁.sent = m.sent ++ log)
    (hi : 0 ≤ c.socketNum → ∀ v : Mirror, (v.receiveAll (mailOf i log)).view = .lobby)
    (hj : 0 ≤ d.socketNum → ∀ v : Mirror, (v.receiveAll (mailOf j log)).view = .lobby)
    (hothers : ∀ (v : Mirror) x, x ≠ i → x ≠ j → v.receiveAll (mailOf x log) = v)
    (h : m₁.destroyRoom r.roomId i j = .ok m') : Informs m m' := by
  obtain ⟨a, b, ha, hb, hcs', hsent', hgames⟩ := destroyRoom_cases h
  rw [hcs] at ha hb hcs'
  rw [hl, ho.find] at hgames
  obtain rfl : c = a := Option.some.inj (ho.fst.symm.trans ha)
  obtain rfl : d = b := Option.some.inj (ho.snd.symm.trans hb)
  obtain ⟨hzero, -⟩ | ⟨-, -, hl'⟩ := hgames
  · exact absurd hzero (hm.roomId_ne_zero ho.room)
  rw [freeClients_eq ho.ne] at hcs'
  have hfree : ∀ (e : Client) (v : Mirror), e.Fit → e.nick ≠ [] →
      (0 ≤ e.socketNum → v.view = .lobby) →
      Reflects m'.lobby.games ((toWaiting e.state e).setRoomId 0) v := by
    intro e v hfit hn hv
    obtain ⟨-, hlog⟩ := hfit.toWaiting hn
    refine ⟨fun _ => by rw [hlog]; decide, fun hs => ?_⟩
    have hsock : 0 ≤ e.socketNum := by
      simp only [toWaiting] at hs
      split_ifs at hs <;> exact hs
    rw [hv hsock]
    exact congrArg State.place hlog
  have hfit : ∀ {x : ℕ} {e : Client}, m.clients[x]? = some e → e.Fit :=
    fun he => (hm.ok _ (List.mem_of_getElem? he)).fit
  refine ⟨log, by rw [hsent', hsent], fun vs hvs => hvs.two ho.fst ho.snd ho.ne hcs' ?_ ?_ ?_⟩
  · intro x e v hxi hxj he hv
    rw [hothers v x hxi hxj, hl']
    exact (Stays.refl e).reflects (fun hs => roomKept_eraseIdx ho.room
      (ho.only hm he hs hxi hxj)) hv
  · exact fun v _ _ => hfree c _ (hfit ho.fst) ho.fstName fun hs => hi hs v
  · exact fun v _ _ => hfree d _ (hfit ho.snd) ho.sndName fun hs => hj hs v

/-- The opponent is told, unless it is disconnected. -/
theorem sent_toOpponent (ho : Opponents m k r i c j d)
    (hnames : DistinctKeys Client.nickKey m.clients) {msg : Text}
    (h : m.sendToOpponentOf i msg = .ok m') : m'.clients = m.clients ∧ m'.lobby = m.lobby ∧
      m'.sent = m.sent ++ if d.state = .disconnected then [] else [(j, msg)] := by
  have hj : m.findClientByNick d.nick = j := Hall.findClientByNick_eq hnames ho.snd ho.sndName
  have hlt := (List.getElem?_eq_some_iff.1 ho.snd).1
  have heq : m.sendToOpponentOf i msg =
      if d.state = .disconnected then .ok m else .ok (m.sendToClient j msg) := by
    simp only [sendToOpponentOf, deref_eq_ok.2 ho.fst, ok_bind, ho.getOpponentOf hnames, hj,
      deref_eq_ok.2 ho.snd, if_neg hlt.ne, pure_eq_ok]
  rw [heq] at h
  split_ifs at h ⊢
  · cases h
    exact ⟨rfl, rfl, by simp⟩
  · cases h
    exact ⟨rfl, rfl, rfl⟩

theorem receiveAll_lobby {msg : Text} (h : msg ∈ lobbyMsgs) (v : Mirror) :
    (v.receiveAll [msg]).view = .lobby := by
  rw [Mirror.receiveAll, List.foldl_cons, List.foldl_nil, Mirror.receive, News.read_lobby h]

theorem connected_of_ok (hok : c.Ok) (hsock : 0 ≤ c.socketNum) : c.state ≠ .disconnected := by
  intro h
  have hneg := hok.gone h
  omega

theorem informs_requestLeave (hm : m.hall.Member) (ho : Opponents m k r i c j d) {b : ℤ}
    (h : m.requestLeave i = .ok (m', b)) : Informs m m' := by
  obtain ⟨c', n, m₁, hc', hn, hsend, hdestroy⟩ := requestLeave_cases h
  obtain rfl : c = c' := Option.some.inj (ho.fst.symm.trans hc')
  obtain rfl : d.nick = n := Except.ok.inj ((ho.getOpponentOf hm.names).symm.trans hn)
  rw [hm.findClientByNick ho.snd ho.sndName, ho.fstRoom] at hdestroy
  have ho₁ : Opponents (m.sendToClient i SC_RESP_LEAVE) k r i c j d := ho.of_hall rfl
  obtain ⟨hcs, hl, hsent⟩ := sent_toOpponent ho₁ hm.names hsend
  have hsent' : m₁.sent = m.sent ++ ((i, SC_RESP_LEAVE) ::
      if d.state = .disconnected then [] else [(j, SC_OPN_LEAVE)]) := by
    rw [hsent]
    exact List.append_assoc ..
  refine informs_destroyRoom hm ho _ hcs hl hsent' ?_ ?_ ?_ hdestroy
  · intro _ v
    have hmail : mailOf i (if d.state = .disconnected then [] else [(j, SC_OPN_LEAVE)]) = [] := by
      split_ifs
      · rfl
      · rw [mailOf_cons_ne ho.ne.symm, mailOf_nil]
    rw [mailOf_cons_self, hmail]
    exact receiveAll_lobby (by decide) v
  · intro hs v
    have hthere := connected_of_ok (hm.ok d (List.mem_of_getElem? ho.snd)) hs
    rw [if_neg hthere, mailOf_cons_ne ho.ne, mailOf_cons_self, mailOf_nil]
    exact receiveAll_lobby (by decide) v
  · intro v x hxi hxj
    have hmail : mailOf x ((i, SC_RESP_LEAVE) ::
        if d.state = .disconnected then [] else [(j, SC_OPN_LEAVE)]) = [] := by
      rw [mailOf_cons_ne (Ne.symm hxi)]
      split_ifs
      · rfl
      · rw [mailOf_cons_ne (Ne.symm hxj), mailOf_nil]
    rw [hmail]
    rfl

/-! ### Moves -/

/-- The rooms change, but nobody's board does. -/
theorem informs_rooms (hcs : m'.clients = m.clients) (hsent : m'.sent = m.sent)
    (hroom : ∀ e, RoomKept m.lobby.games m'.lobby.games e) : Informs m m' := by
  refine ⟨[], by simp [hsent], fun vs hvs => hvs.deliver (by rw [hcs]) fun x c v hc _ => ?_⟩
  exact ⟨c, hcs ▸ hc, (Stays.refl c).reflects fun _ => hroom c⟩

/-- **A move is told to both players**: the one who asked for it makes it when it is called valid,
the other one when it gets the coordinates. -/
theorem mirrored_handedOver (hm : m.hall.Member) (ho : Opponents m k r i c j d)
    (hid : r'.roomId = r.roomId) (hpf : r'.pf = r.pf.played t)
    (hclog : c.logical = .playingOnStand) (hdlog : d.logical = .playingOnTurn)
    (hvs : m.Mirrored vs) (hasked : ∀ v, vs[j]? = some v → v.asked = some t) :
    ((m.putRoom k r').handedOver i j c.state t).Mirrored
      (deliver [(j, SC_MV_VALID), (i, SC_OPN_MOVE ++ OP_INI ++ t)] vs) := by
  have hroom := hm.roomId_ne_zero ho.room
  have hlt := (List.getElem?_eq_some_iff.1 ho.room).1
  have hmem : r' ∈ m.lobby.games.set k r' := (mem_set hlt).2 (Or.inl rfl)
  obtain ⟨-, hlog⟩ := (hm.ok c (List.mem_of_getElem? ho.fst)).handOver (ho.fstRoom ▸ hroom)
    ho.fstName
  have hlog' : (d.setState .playingOnStand).logical = .playingOnStand := Client.logical_setState rfl
  -- a player who sees a game sees the board of the room
  have hboard : ∀ {e : Client} {v : Mirror}, e.roomId = r.roomId → e.logical.inGame = true →
      Sees m.lobby.games e v.view → ∃ turn, v.view = .game turn r.pf ∧
        e.logical.place = if turn then .playingOnTurn else .playingOnStand := by
    intro e v he hgame hsees
    cases hview : v.view with
    | outside | lobby =>
      rw [hview] at hsees
      exact absurd hsees (by cases hl : e.logical <;> simp_all [State.inGame, State.place, Sees])
    | game turn board =>
      rw [hview] at hsees
      obtain ⟨hplace, r₁, hr₁, hid₁, rfl⟩ := hsees
      obtain rfl : r₁ = r := hm.ids.eq_of_mem hr₁ (List.mem_of_getElem? ho.room)
        (congrArg some (hid₁.trans he)) rfl
      exact ⟨turn, rfl, hplace⟩
  refine hvs.two (f := handOver c.state) (g := (·.setState .playingOnStand)) ho.fst ho.snd ho.ne
    rfl ?_ ?_ ?_
  · intro x e v hxi hxj he hv
    rw [mailOf_cons_ne (Ne.symm hxj), mailOf_cons_ne (Ne.symm hxi), mailOf_nil]
    exact (Stays.refl e).reflects (fun hs => roomKept_set ho.room
      (Or.inl (ho.only hm he hs hxi hxj))) hv
  · intro v _ hv
    rw [mailOf_cons_ne ho.ne.symm, mailOf_cons_self, mailOf_nil]
    refine ⟨fun _ => by rw [hlog]; decide, fun hs => ?_⟩
    rw [handOver_sock] at hs
    obtain ⟨turn, hview, hplace⟩ := hboard ho.fstRoom (by rw [hclog]; rfl) (hv.sees hs)
    have hturn : turn = false := by
      rw [hclog] at hplace
      cases turn
      · rfl
      · cases hplace
    subst hturn
    have hread : (v.receiveAll [SC_OPN_MOVE ++ OP_INI ++ t]).view = .game true (r.pf.played t) := by
      rw [Mirror.receiveAll, List.foldl_cons, List.foldl_nil, Mirror.receive, News.read_moved]
      simp only [hview]
    rw [hread]
    exact ⟨congrArg State.place hlog, r', hmem, by rw [hid, handOver_roomId, ho.fstRoom], hpf⟩
  · intro v hv' hv
    rw [mailOf_cons_self, mailOf_cons_ne ho.ne, mailOf_nil]
    refine ⟨fun _ => by rw [hlog']; decide, fun hs => ?_⟩
    obtain ⟨turn, hview, hplace⟩ := hboard ho.sndRoom (by rw [hdlog]; rfl) (hv.sees hs)
    have hturn : turn = true := by
      rw [hdlog] at hplace
      cases turn
      · cases hplace
      · rfl
    subst hturn
    have hread : (v.receiveAll [SC_MV_VALID]).view = .game false (r.pf.played t) := by
      rw [Mirror.receiveAll, List.foldl_cons, List.foldl_nil, Mirror.receive, News.read_valid]
      simp only [hview, hasked v hv']
    rw [hread]
    exact ⟨congrArg State.place hlog', r', hmem, by rw [hid]; exact ho.sndRoom.symm, hpf⟩

/-- The player on turn, and the other one. -/
theorem opponents_of_onTurn (hm : m.hall.Member) (ht : m.hall.Turns) (hc : m.clients[i]? = some c)
    (hlog : c.logical = .playingOnTurn) (hs : c.state ≠ .disconnected)
    (hr : m.lobby.games[m.lobby.getRoomById c.roomId]? = some r) :
    ∃ j d, Opponents m (m.lobby.getRoomById c.roomId) r j d i c ∧ d.nick = r.onStand ∧
      c.nick = r.onTurn ∧ d.logical = .playingOnStand := by
  obtain ⟨hn, hroom⟩ := hm.named hc (by rw [hlog]; rfl) hs
  obtain ⟨k, r₁, j, d, ho⟩ := hm.opponent hc hn hroom
  have hk : k = m.lobby.getRoomById c.roomId := by rw [ho.fstRoom, ho.find]
  subst hk
  obtain rfl : r = r₁ := Option.some.inj (hr.symm.trans ho.room)
  have hmem : r ∈ m.hall.lobby.games := List.mem_of_getElem? hr
  have hrole := ht r hmem c (List.mem_of_getElem? hc)
  rcases ho.nicks with ⟨hcn, hdn⟩ | ⟨hcn, hdn⟩
  · exact ⟨j, d, ho.symm, hdn, hcn, (ht r hmem d (List.mem_of_getElem? ho.snd)).stand hdn⟩
  · rw [hrole.stand hcn] at hlog
    cases hlog

theorem mirrored_requestMove (hm : m.hall.Member) (ht : m.hall.Turns)
    (hc : m.clients[i]? = some c) (hlog : c.logical = .playingOnTurn)
    (hs : c.state ≠ .disconnected) {t : Coordinates} {b : ℤ}
    (h : m.requestMove i t.text = .ok (m', b)) : ∃ log, m'.sent = m.sent ++ log ∧
      ∀ vs, m.Mirrored vs → (∀ v, vs[i]? = some v → v.asked = some t.text) →
        m'.Mirrored (deliver log vs) := by
  obtain ⟨c', k, r, r', hc', hk, hr, hid, hout⟩ := requestMove_outcome h
  obtain rfl : c = c' := Option.some.inj (hc.symm.trans hc')
  rcases hout with ⟨hproc, -, -, rfl⟩ | ⟨hproc, hturn, hstand, a, d', ha, -, hover⟩
  · obtain ⟨-, -, -, ⟨-, -, -, hpf, -⟩ | ⟨hb, -⟩⟩ := RoomHnefatafl.processMove_players hproc
    swap
    · cases hb
    obtain ⟨log, hsent, hinf⟩ : Informs m (m.putRoom k r') :=
      informs_rooms rfl rfl fun e => roomKept_set hr (Or.inr ⟨hid, hpf⟩)
    exact ⟨log, hsent, fun vs hvs _ => hinf vs hvs⟩
  obtain ⟨j, d, ho, hdn, hcn, hdlog⟩ := opponents_of_onTurn hm ht hc hlog hs (hk ▸ hr)
  rw [← hk] at ho
  have hi : m.findClientByNick r.onTurn = i := hcn ▸ hm.findClientByNick hc ho.sndName
  have hj : m.findClientByNick r.onStand = j := hdn ▸ hm.findClientByNick ho.fst ho.fstName
  rw [hj] at ha
  rw [hi, hj] at hover
  obtain rfl : d = a := Option.some.inj (ho.fst.symm.trans ha)
  obtain ⟨p, q, hspells, -, -, hpf, -⟩ := RoomHnefatafl.processMove_accepted hproc
  have hpf' : r'.pf = r.pf.played t.text := by
    rw [Playfield.played, squaresOf_eq_some.2 hspells]
    exact hpf
  have htold : ∀ vs, m.Mirrored vs → (∀ v, vs[i]? = some v → v.asked = some t.text) → _ :=
    fun vs hvs hasked => mirrored_handedOver hm ho hid hpf' hdlog hlog hvs hasked
  rcases hover with ⟨-, rfl⟩ | ⟨-, hdestroy⟩
  · exact ⟨_, List.append_assoc .., htold⟩
  -- the room is destroyed after both have made the last move
  have hchanged : m.hall.Changes true _ := Hall.changes_handedOver (t := t.text) hm hr
    ⟨hid, (RoomHnefatafl.processMove_players hproc).2.1,
      (RoomHnefatafl.processMove_players hproc).2.2.1⟩ hturn hstand (hj ▸ ha)
  rw [hi, hj] at hchanged
  have ho' := ho.handedOver hid (hturn.trans hdn.symm) (hstand.trans hcn.symm) t.text
  have hroom : c.roomId = r'.roomId := ho.sndRoom.trans hid.symm
  rw [hroom] at hdestroy
  obtain ⟨log, hsent, hinf⟩ : Informs _ m' := by
    refine informs_destroyRoom (hm.changes hchanged) ho' [(j, SC_GO_LOSS), (i, SC_GO_WIN)]
      ?_ ?_ ?_ ?_ ?_ ?_ hdestroy
    · rfl
    · rfl
    · exact List.append_assoc ..
    · intro _ v
      rw [mailOf_cons_self, mailOf_cons_ne ho.ne.symm, mailOf_nil]
      exact receiveAll_lobby (by decide) v
    · intro _ v
      rw [mailOf_cons_ne ho.ne, mailOf_cons_self, mailOf_nil]
      exact receiveAll_lobby (by decide) v
    · intro v x hxj hxi
      rw [mailOf_cons_ne (Ne.symm hxj), mailOf_cons_ne (Ne.symm hxi), mailOf_nil]
      rfl
  refine ⟨[(i, SC_MV_VALID), (j, SC_OPN_MOVE ++ OP_INI ++ t.text)] ++ log, ?_, ?_⟩
  · rw [hsent, ← List.append_assoc]
    exact congrArg (· ++ log) (List.append_assoc ..)
  · intro vs hvs hasked
    rw [deliver_append]
    exact hinf _ (htold vs hvs hasked)

/-! ### Reconnections -/

/-- What a reconnection tells: the client learns where it is back, and nobody else anything about
their place. -/
theorem told_reconnection (h : m.reportReconnection i = .ok m') :
    ∃ c log, m.clients[i]? = some c ∧ m'.sent = m.sent ++ log ∧
      (∀ x (v : Mirror), x ≠ i → v.receiveAll (mailOf x log) = v) ∧
      ∀ v : Mirror, (c.roomId = 0 → (v.receiveAll (mailOf i log)).view = .lobby) ∧
        (c.roomId ≠ 0 → ∃ r ∈ m.lobby.games, r.roomId = c.roomId ∧
          (v.receiveAll (mailOf i log)).view = .game (c.state = .playingOnTurn) r.pf) := by
  obtain ⟨c, hc, h₁⟩ := bind_eq_ok.1 h
  obtain ⟨m₁, hm₁, h₂⟩ := bind_eq_ok.1 h₁
  cases h₂
  refine ⟨c, ?_⟩
  by_cases hroom : c.roomId = 0
  · rw [if_pos hroom] at hm₁
    cases hm₁
    refine ⟨[(i, composeMsgInLobbyRecn)], deref_eq_ok.1 hc, rfl, fun x v hx => ?_, fun v => ?_⟩
    · rw [mailOf_cons_ne (Ne.symm hx), mailOf_nil]
      rfl
    · rw [mailOf_cons_self, mailOf_nil]
      exact ⟨fun _ => receiveAll_lobby (by decide) v, fun hne => absurd hroom hne⟩
  · rw [if_neg hroom] at hm₁
    obtain ⟨msg, hmsg, hsend⟩ := bind_eq_ok.1 hm₁
    obtain ⟨n, -, h₃⟩ := bind_eq_ok.1 hmsg
    obtain ⟨board, hboard, h₄⟩ := bind_eq_ok.1 h₃
    obtain ⟨r, hr, h₅⟩ := bind_eq_ok.1 hboard
    cases h₅
    cases h₄
    rw [lobby_deref_eq_ok] at hr
    obtain ⟨log, hsent, hlog⟩ : ∃ log, m₁.sent = m.sent ++ (i, backInGame
        (if c.state = .playingOnTurn then SC_TURN_YOU else SC_TURN_OPN) n r.getPlayfieldString) ::
          log ∧ ∀ p ∈ log, News.read p.2 = .other := by
      obtain ⟨-, -, -, -, rfl | rfl⟩ := sendToOpponentOf_cases hsend
      · exact ⟨[], rfl, by simp⟩
      · refine ⟨[_], List.append_assoc .., fun p hp => ?_⟩
        obtain rfl := List.mem_singleton.1 hp
        rfl
    have hquiet : ∀ x, ∀ msg ∈ mailOf x log, News.read msg = .other := by
      intro x msg hmsg
      obtain ⟨p, hp, rfl⟩ := List.mem_map.1 hmsg
      exact hlog p (List.mem_of_mem_filter hp)
    refine ⟨_, deref_eq_ok.1 hc, hsent, fun x v hx => ?_, fun v => ⟨fun hzero => absurd hzero hroom,
      fun _ => ⟨r, List.mem_of_getElem? hr, room_of_getRoomById hr, ?_⟩⟩⟩
    · rw [mailOf_cons_ne (Ne.symm hx), receiveAll_other (hquiet x)]
    · have hread := News.read_inGameRecn (c.state = .playingOnTurn) n r
      simp only [decide_eq_true_eq] at hread
      rw [mailOf_cons_self]
      change ((v.receive _).receiveAll (mailOf i log)).view = _
      rw [receiveAll_other (hquiet i), Mirror.receive, hread]

end HnefServer
