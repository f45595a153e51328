import HnefServer.Invariant.Follow
import HnefServer.Mirror.Requests

/-!
# The steps inform their clients

The rest of the requests, the pairing, the rounds of the pinging thread, and the steps of the
server, which may also erase an instance together with what its client believes.
-/

namespace HnefServer

open Protocol ClientManager

/-- The frames a client sends only when it should: a pong restores the place the client is at, a
move is asked for by the player on turn, and a nick whose holder is Pinged or Lost is asked for by
nobody without a place. -/
def ClientManager.CandidFrame (m : ClientManager) (c : Client) : Frame → Prop
  | .pong => c.Recalls
  | .move _ => c.state = .pinged → c.stateLast = .playingOnTurn
  | .connect n => ∀ d ∈ m.clients, d.nick = n.text → d.ipAddress = c.ipAddress →
      d.state = .pinged ∨ d.state = .lost → c.Recalls ∧ c.logical ≠ .new
  | .ready | .leave | .chat _ | .ping | .ok => True

instance (m : ClientManager) (c : Client) : (d : Frame) → Decidable (m.CandidFrame c d)
  | .pong => inferInstanceAs (Decidable c.Recalls)
  | .move _ => inferInstanceAs (Decidable (_ → _))
  | .connect n => inferInstanceAs (Decidable (∀ d ∈ m.clients, d.nick = n.text →
      d.ipAddress = c.ipAddress → _ → _))
  | .ready | .leave | .chat _ | .ping | .ok => isTrue trivial

variable {m m' : ClientManager} {i j k : ℕ} {c d : Client} {r : RoomHnefatafl}
  {vs : List Mirror} {s s' : Server}

/-! ### Requests -/

theorem informs_requestReady (hm : m.hall.Member) (hc : m.clients[i]? = some c)
    (hs : c.state = .waiting ∨ c.state = .pinged ∧ c.nick ≠ [] ∧ c.roomId = 0) :
    Informs m (m.modify i (·.setState .ready)) := by
  refine .one (f := (·.setState .ready)) [] hc rfl rfl (List.append_nil _).symm
    (fun _ _ _ => rfl) fun v hv => ?_
  have hok := hm.ok c (List.mem_of_getElem? hc)
  have hplace : c.logical.place = .waiting := by
    rcases hs with hs | ⟨-, hn, hroom⟩
    · rw [Client.logical_of_accessible (by rw [hs]; rfl), hs]
      rfl
    · have hnew := hv.entered hn
      have hgame : c.logical.inGame = false := by
        rw [← Bool.not_eq_true, hok.game]
        exact not_not.2 hroom
      have hacc := hok.fit.logical_accessible
      cases hl : c.logical <;> simp_all [State.inGame, State.inaccessible, State.place]
  have hready : (c.setState .ready).logical.place = c.logical.place := by
    rw [Client.logical_setState rfl, hplace]
    rfl
  exact Stays.reflects ⟨hready, rfl, fun h => h, fun h => h⟩ (fun _ => .refl _ c) hv

/-- Restoring the last state of a client. -/
theorem informs_restore (hm : m.hall.Member) (hc : m.clients[i]? = some c) (hr : c.Recalls) :
    Informs m (m.modify i fun c => c.setState c.stateLast) := by
  refine .client (f := fun c => c.setState c.stateLast) rfl rfl rfl fun c' hc' => ?_
  obtain rfl : c = c' := Option.some.inj (hc.symm.trans hc')
  exact stays_restore (hm.ok c (List.mem_of_getElem? hc)) hr

theorem informs_requestPing (hm : m.hall.Member) (hc : m.clients[i]? = some c) :
    Informs m (m.requestPing i c.state).1 := by
  have hpong : News.read OP_PONG = .other := News.read_other (by decide)
  simp only [requestPing]
  split_ifs with hs
  · have hrecalls : c.Recalls := by
      rcases hs with hs | hs <;> exact Or.inl (by rw [hs]; rfl)
    exact (informs_restore hm hc hrecalls).trans (.tell hpong)
  · exact .tell hpong

/-! ### Connecting -/

theorem informs_enter (hc : m.clients[i]? = some c) (n : Text) :
    Informs m (((m.modify i (enter n)).sendToClient i SC_RESP_CONN).sendToClient i
      SC_IN_LOBBY) := by
  refine .one (f := enter n) [(i, SC_RESP_CONN), (i, SC_IN_LOBBY)] hc rfl rfl
    (List.append_assoc ..) (fun x v hx => ?_) fun v _ => ⟨fun _ => nofun, fun _ => ?_⟩
  · rw [mailOf_cons_ne (Ne.symm hx), mailOf_cons_ne (Ne.symm hx), mailOf_nil]
    rfl
  · rw [mailOf_cons_self, mailOf_cons_self, mailOf_nil]
    change Sees _ _ ((v.receive SC_RESP_CONN).receiveAll [SC_IN_LOBBY]).view
    rw [receiveAll_lobby (by decide)]
    rfl

/-- What is true of a client that has been told where it is back. -/
theorem sees_back {games : List RoomHnefatafl} {v : Mirror}
    (hgame : c.state.inGame = true ↔ c.roomId ≠ 0) (hnew : c.state ≠ .new)
    (hacc : c.state.inaccessible = false)
    (hlobby : c.roomId = 0 → v.view = .lobby)
    (hroom : c.roomId ≠ 0 → ∃ r ∈ games, r.roomId = c.roomId ∧
      v.view = .game (c.state = .playingOnTurn) r.pf) : Sees games c v.view := by
  have hlog := Client.logical_of_accessible hacc
  by_cases hzero : c.roomId = 0
  · rw [hlobby hzero]
    change c.logical.place = .waiting
    rw [hlog]
    have hnot : c.state.inGame = false := by
      rw [← Bool.not_eq_true, hgame]
      exact not_not.2 hzero
    cases hs : c.state <;> simp_all [State.inGame, State.inaccessible, State.place]
  · obtain ⟨r, hr, hid, hview⟩ := hroom hzero
    rw [hview]
    refine ⟨?_, r, hr, hid, rfl⟩
    have hin := hgame.2 hzero
    rw [hlog]
    cases hs : c.state <;> simp_all [State.inGame, State.place]

/-- A short reconnection: the client is back where it was. -/
theorem informs_resume (hm : m.hall.Member) (hc : m.clients[i]? = some c) (hr : c.Recalls)
    (hnew : c.logical ≠ .new)
    (h : (m.modify i fun c => c.setState c.stateLast).reportReconnection i = .ok m') :
    Informs m m' := by
  have hok := hm.ok c (List.mem_of_getElem? hc)
  obtain ⟨c', log, hc', hsent, hothers, hback⟩ := told_reconnection h
  rw [getElem?_modify, hc] at hc'
  obtain rfl : c.setState c.stateLast = c' := by simpa using hc'
  obtain ⟨hcs, hl⟩ := reportReconnection_same h
  have hplace := (stays_restore hok hr).place
  rw [Client.logical_setState hok.last] at hplace
  refine .one (f := fun c => c.setState c.stateLast) log hc hcs hl hsent hothers fun v hv => ?_
  obtain ⟨hlobby, hroom⟩ := hback v
  refine ⟨fun _ => ?_, fun _ => sees_back ?_ ?_ hok.last hlobby hroom⟩
  · rw [Client.logical_setState hok.last, ← place_ne_new, hplace, place_ne_new]
    exact hnew
  · change c.stateLast.inGame = true ↔ c.roomId ≠ 0
    rw [← hok.game]
    cases hs : c.stateLast <;> cases hl' : c.logical <;> simp_all [State.place, State.inGame]
  · change c.stateLast ≠ .new
    rw [← place_ne_new, hplace, place_ne_new]
    exact hnew

/-- A long reconnection: the client is where the instance it takes over was. -/
theorem informs_takeOver (hm : m.hall.Member) (hc : m.clients[i]? = some c)
    (hd : m.clients[j]? = some d) (hij : i ≠ j) {n : Text} (hn : d.nick = n) (hne : n ≠ [])
    (hs : d.state = .disconnected)
    (h : ((m.modify i (takeOver n d)).modify j expire).reportReconnection i = .ok m') :
    Informs m m' := by
  have hok := hm.ok d (List.mem_of_getElem? hd)
  have hdlog : d.logical = d.stateLast := Client.logical_of_inaccessible (by rw [hs]; rfl)
  obtain ⟨c', log, hc', hsent, hothers, hback⟩ := told_reconnection h
  rw [getElem?_modify, getElem?_modify, hc] at hc'
  obtain rfl : takeOver n d c = c' := by simpa [hij.symm] using hc'
  obtain ⟨hcs, hl⟩ := reportReconnection_same h
  refine ⟨log, hsent, fun vs hvs => ?_⟩
  -- the instance taken over has entered
  obtain ⟨v₀, -, hv₀⟩ := forall₂_exists_right hvs hd
  have hentered : d.logical ≠ .new := hv₀.entered (hn ▸ hne)
  refine hvs.two (f := takeOver n d) (g := expire) hc hd hij hcs ?_ ?_ ?_
  · intro x e v hx _ _ hv
    rw [hothers x v hx, hl]
    exact hv
  · intro v _ _
    obtain ⟨hlobby, hroom⟩ := hback v
    rw [hl]
    refine ⟨fun _ => ?_, fun _ => sees_back ?_ ?_ hok.last hlobby hroom⟩
    · rw [logical_takeOver hok.last, ← hdlog]
      exact hentered
    · change d.stateLast.inGame = true ↔ d.roomId ≠ 0
      rw [← hdlog]
      exact hok.game
    · change d.stateLast ≠ .new
      rw [← hdlog]
      exact hentered
  · intro v _ _
    have hgone : d.socketNum < 0 := hok.gone hs
    refine ⟨fun hnick => absurd rfl hnick, fun hsock => ?_⟩
    change 0 ≤ d.socketNum at hsock
    omega

theorem informs_requestConnect (hm : m.hall.Member) (hc : m.clients[i]? = some c)
    (hsock : 0 ≤ c.socketNum) {n : Nick} (ho : m.OrderlyFrame true c (.connect n))
    (hcand : m.CandidFrame c (.connect n)) {b : ℤ}
    (h : m.requestConnect i n.text c.state = .ok (m', b)) : Informs m m' := by
  have hused : News.read SC_NICK_USED = .other := News.read_other (by decide)
  obtain ⟨c', hc', ⟨-, ⟨-, -, rfl⟩ | ⟨rfl, -⟩⟩ | ⟨-, rfl⟩ | ⟨d, hd, hdn, hda, hrec⟩⟩ :=
    requestConnect_cases h
  all_goals obtain rfl : c = c' := Option.some.inj (hc.symm.trans hc')
  · exact informs_enter hc n.text
  · exact .refl _
  · exact .tell hused
  · have hmem := List.mem_of_getElem? hd
    obtain ⟨e, he, hcases⟩ := handleReconnection_cases hrec
    obtain rfl : d = e := Option.some.inj (hd.symm.trans he)
    obtain ⟨-, hfree, hready, hnew⟩ := ho d hmem hdn hda
    rcases hcases with ⟨-, rfl⟩ | ⟨hs, hrep⟩ | ⟨hs, hrep⟩
    · exact .tell hused
    · obtain ⟨hr, hlog⟩ := hcand d hmem hdn hda hs
      exact informs_resume hm hc hr hlog hrep
    · have hgone : d.state = .disconnected := (hs.resolve_left hnew).resolve_left hready
      exact informs_takeOver hm hc hd (Hall.ne_of_disconnected hm hc hsock hd hgone) hdn n.ne_nil
        hgone hrep

/-! ### Frames -/

/-- **Every request informs the clients.**  The mover knows the move it has asked for. -/
theorem mirrored_serveFrame (hm : m.hall.Member) (ht : m.hall.Turns)
    (hc : m.clients[i]? = some c) (hsock : 0 ≤ c.socketNum) {f : Frame}
    (ho : m.OrderlyFrame true c f) (hcand : m.CandidFrame c f)
    (hacc : f.acceptedIn c.state = true) {b : ℤ}
    (h : m.serveFrame i c.state f = .ok (m', b)) : ∃ log, m'.sent = m.sent ++ log ∧
      ∀ vs, m.Mirrored vs →
        (∀ t v, f = .move t → vs[i]? = some v → v.asked = some t.text) →
          m'.Mirrored (deliver log vs) := by
  have of_informs : Informs m m' → ∃ log, m'.sent = m.sent ++ log ∧ ∀ vs, m.Mirrored vs →
      (∀ t v, f = .move t → vs[i]? = some v → v.asked = some t.text) →
        m'.Mirrored (deliver log vs) := by
    rintro ⟨log, hsent, hinf⟩
    exact ⟨log, hsent, fun vs hvs _ => hinf vs hvs⟩
  cases f with
  | ping =>
    cases h
    exact of_informs (informs_requestPing hm hc)
  | pong =>
    cases h
    exact of_informs (informs_restore hm hc hcand)
  | connect n => exact of_informs (informs_requestConnect hm hc hsock ho hcand h)
  | ready =>
    cases h
    refine of_informs (informs_requestReady hm hc ?_)
    rcases (by simpa [Frame.acceptedIn] using hacc : c.state = .waiting ∨ c.state = .pinged) with
      hs | hs
    · exact Or.inl hs
    · exact Or.inr ⟨hs, ho hs⟩
  | move t =>
    have hlog : c.logical = .playingOnTurn ∧ c.state ≠ .disconnected := by
      rcases (by simpa [Frame.acceptedIn] using hacc : c.state = .playingOnTurn ∨
        c.state = .pinged) with hs | hs
      · exact ⟨by rw [Client.logical_of_accessible (by rw [hs]; rfl), hs], by rw [hs]; decide⟩
      · exact ⟨by rw [Client.logical_of_inaccessible (by rw [hs]; rfl), hcand hs],
          by rw [hs]; decide⟩
    obtain ⟨log, hsent, hinf⟩ := mirrored_requestMove hm ht hc hlog.1 hlog.2 h
    exact ⟨log, hsent, fun vs hvs hasked => hinf vs hvs fun v hv => hasked t v rfl hv⟩
  | leave =>
    have hs : c.state = .playingOnTurn ∨ c.state = .playingOnStand ∨ c.state = .pinged := by
      simpa [Frame.acceptedIn, or_assoc] using hacc
    obtain ⟨hgame, hthere⟩ := Hall.inGame_of_frame hs ho
    obtain ⟨hn, hroom⟩ := hm.named hc hgame hthere
    obtain ⟨k, r, j, d, hopp⟩ := hm.opponent hc hn hroom
    exact of_informs (informs_requestLeave hm hopp h)
  | chat msg =>
    obtain ⟨m₁, hsend, h₁⟩ := bind_eq_ok.1 h
    cases h₁
    exact of_informs (.tellOpponent (News.read_chat _) hsend)
  | ok => cases hacc

/-! ### Pairing -/

theorem informs_paired (hp : m.Paired m' i j c d)
    (hsent : m'.sent = m.sent ++ [(i, composeMsgInGame SC_TURN_YOU d.nick),
      (j, composeMsgInGame SC_TURN_OPN c.nick)]) : Informs m m' := by
  have hij : i ≠ j := hp.lt.ne
  let id := m.lobby.roomsTotal + 1
  have hgames : m'.lobby.games = m.lobby.games ++ [RoomHnefatafl.create id c.nick d.nick] := by
    rw [hp.lobby]
    rfl
  have hnew : RoomHnefatafl.create id c.nick d.nick ∈ m'.lobby.games := by
    rw [hgames]
    exact List.mem_append_right _ (List.mem_singleton_self _)
  refine ⟨_, hsent, fun vs hvs => hvs.two hp.fst hp.snd hij hp.clients ?_ ?_ ?_⟩
  · intro x e v hxi hxj he hv
    rw [mailOf_cons_ne (Ne.symm hxi), mailOf_cons_ne (Ne.symm hxj), mailOf_nil]
    refine (Stays.refl e).reflects (fun _ r hr _ => ⟨r, ?_, rfl, rfl⟩) hv
    rw [hgames]
    exact List.mem_append_left _ hr
  · intro v _ _
    rw [mailOf_cons_self, mailOf_cons_ne hij.symm, mailOf_nil]
    have hread := News.read_inGame true d.nick
    rw [if_pos rfl] at hread
    have hlog : (seat id .playingOnTurn c).logical = .playingOnTurn := Client.logical_setState rfl
    refine ⟨fun _ => by rw [hlog]; decide, fun _ => ?_⟩
    rw [Mirror.receiveAll, List.foldl_cons, List.foldl_nil, Mirror.receive, hread]
    exact ⟨congrArg State.place hlog, _, hnew, rfl, rfl⟩
  · intro v _ _
    rw [mailOf_cons_ne hij, mailOf_cons_self, mailOf_nil]
    have hread := News.read_inGame false c.nick
    rw [if_neg Bool.false_ne_true] at hread
    have hlog : (seat id .playingOnStand d).logical = .playingOnStand := Client.logical_setState rfl
    refine ⟨fun _ => by rw [hlog]; decide, fun _ => ?_⟩
    rw [Mirror.receiveAll, List.foldl_cons, List.foldl_nil, Mirror.receive, hread]
    exact ⟨congrArg State.place hlog, _, hnew, rfl, rfl⟩

theorem informs_pairLoop {fuel : ℕ} (h : pairLoop fuel m i = .ok m') : Informs m m' := by
  induction fuel generalizing m i with
  | zero =>
    cases h
    exact .refl _
  | succ fuel ih =>
    rcases pairLoop_cases_sent h with ⟨-, rfl⟩ | ⟨m₁, c, d, hp, hsent, hrest⟩ | ⟨-, -, -, hrest⟩
    · exact .refl _
    · exact (informs_paired hp hsent).trans (ih hrest)
    · exact ih hrest

/-! ### Pinging -/

theorem quiet_pingClient (h : m.pingClient i = .ok m') :
    Sends (fun p => News.read p.2 = .other) m m' := by
  have hping : News.read OP_PING = .other := News.read_other (by decide)
  have hlost : News.read SC_OPN_LOST = .other := News.read_other (by decide)
  have hkick : News.read SC_KICK = .other := News.read_other (by decide)
  have htell : ∀ msg, News.read msg = .other →
      Sends (fun p => News.read p.2 = .other) m (m.sendToClient i msg) :=
    fun msg hmsg => Sends.send (P := fun p => News.read p.2 = .other) hmsg
  obtain ⟨c, -, h₁⟩ := bind_eq_ok.1 h
  split_ifs at h₁
  · cases h₁
    exact .refl m
  · obtain ⟨c', -, h₂⟩ := bind_eq_ok.1 h₁
    split_ifs at h₂
    · refine (htell _ hping).trans ?_
      obtain ⟨-, -, -, -, rfl | rfl⟩ := sendToOpponentOf_cases h₂
      · exact .of_eq rfl
      · exact .send hlost
    · cases h₂
      exact htell _ hping
  · cases h₁
    exact htell _ hkick
  · obtain ⟨c', -, h₂⟩ := bind_eq_ok.1 h₁
    split_ifs at h₂ <;> cases h₂ <;> exact .refl m
  · cases h₁
    exact htell _ hping

theorem informs_pingClient (hm : m.hall.Member) (h : m.pingClient i = .ok m') : Informs m m' := by
  obtain ⟨hcs, hl⟩ := pingClient_spec h
  refine .quiet (quiet_pingClient h) hl ?_
  rw [hcs]
  refine forall₂_modify Stays.refl fun c hc => ?_
  obtain ⟨-, hn, hroom, hlog⟩ := (hm.ok c (List.mem_of_getElem? hc)).pinged
  exact ⟨by rw [hlog], hroom, fun h => hn ▸ h, fun h => quiet_pinged.sock c ▸ h⟩

theorem informs_pingLoop (is : List ℕ) (hm : m.hall.Member)
    (h : is.foldlM pingClient m = .ok m') : Informs m m' := by
  induction is generalizing m with
  | nil =>
    cases h
    exact .refl _
  | cons i is ih =>
    rw [List.foldlM_cons] at h
    obtain ⟨m₁, hm₁, h₁⟩ := bind_eq_ok.1 h
    have hchanged : m.hall.Changes true m₁.hall := Hall.changes_pingClient hm hm₁
    exact (informs_pingClient hm hm₁).trans (ih (hm.changes hchanged) h₁)

/-! ### Closing and erasing -/

theorem informs_closeConnection (h : s.closeConnection i = .ok s') :
    Informs s.mngClient s'.mngClient := by
  have hdisc : News.read SC_OPN_DISC = .other := News.read_other (by decide)
  obtain ⟨c, hc, h₁⟩ := bind_eq_ok.1 h
  by_cases hs : c.socketNum < 0
  · rw [if_pos hs] at h₁
    cases h₁
    exact .refl _
  · rw [if_neg hs] at h₁
    have hclosed : Informs s.mngClient
        ((s.mngClient.setDisconnected i).setBadSocket i (-42)) := by
      refine .client (i := i) (f := Server.disconnect) ?_ rfl rfl fun c _ => ?_
      · simp only [setBadSocket, setDisconnected, ClientManager.modify, List.modify_modify_eq]
        rfl
      · have hstay : Stays c (c.setState .disconnected) := stays_inaccessible rfl
        refine ⟨hstay.place, rfl, fun h => h, fun hsock => ?_⟩
        have hneg := Server.disconnect_socketNum c
        omega
    obtain ⟨c', -, h₂⟩ := bind_eq_ok.1 h₁
    split_ifs at h₂
    · obtain ⟨m, hm, rfl⟩ := Server.manage_eq_ok.1 h₂
      exact hclosed.trans (.tellOpponent hdisc hm)
    · cases h₂
      exact hclosed

/-- An operation that informs the clients and erases an instance. -/
def ClientManager.InformsBut (i : ℕ) (m m' : ClientManager) : Prop :=
  ∃ log, m'.sent = m.sent ++ log ∧
    ∀ vs, m.Mirrored vs → m'.Mirrored ((deliver log vs).eraseIdx i)

theorem ClientManager.Informs.erase (h : Informs m m') :
    InformsBut i m { m' with clients := m'.clients.eraseIdx i } := by
  obtain ⟨log, hsent, hinf⟩ := h
  exact ⟨log, hsent, fun vs hvs => forall₂_eraseIdx (hinf vs hvs) i⟩

theorem ClientManager.Informs.but {m₁ : ClientManager} (h : Informs m m₁)
    (h' : InformsBut i m₁ m') : InformsBut i m m' := by
  obtain ⟨log, hsent, hinf⟩ := h
  obtain ⟨log', hsent', hinf'⟩ := h'
  refine ⟨log ++ log', by rw [hsent', hsent, List.append_assoc], fun vs hvs => ?_⟩
  rw [deliver_append]
  exact hinf' _ (hinf vs hvs)

/-- The opponent of an instance that is erased learns that it is alone. -/
theorem informs_eraseClient (hm : m.hall.Member) (hc : m.clients[i]? = some c)
    (hsock : c.socketNum < 0) (h : m.eraseClient i = .ok m') : InformsBut i m m' := by
  obtain ⟨c', hc', h₁⟩ := bind_eq_ok.1 h
  obtain rfl : c = c' := Option.some.inj (hc.symm.trans (deref_eq_ok.1 hc'))
  obtain ⟨m₂, hm₂, h₂⟩ := bind_eq_ok.1 h₁
  cases h₂
  refine Informs.erase ?_
  split_ifs at hm₂ with hroom
  swap
  · cases hm₂
    exact .refl _
  obtain ⟨k, r, j, d, ho⟩ := hm.opponent hc hroom.1 hroom.2.1
  obtain ⟨n, hn, h₃⟩ := bind_eq_ok.1 hm₂
  obtain rfl : d.nick = n := Except.ok.inj ((ho.getOpponentOf hm.names).symm.trans hn)
  obtain ⟨e, he, h₄⟩ := bind_eq_ok.1 h₃
  rw [hm.findClientByNick ho.snd ho.sndName] at he h₄
  obtain rfl : d = e := Option.some.inj (ho.snd.symm.trans (deref_eq_ok.1 he))
  rw [ho.fstRoom] at h₄
  have hgone : ¬ 0 ≤ c.socketNum := not_le.2 hsock
  by_cases hthere : d.state = .disconnected
  · rw [if_neg (not_not.2 hthere)] at h₄
    refine informs_destroyRoom hm ho [] rfl rfl (List.append_nil _).symm
      (fun hs => absurd hs hgone) (fun hs => ?_) (fun _ _ _ _ => rfl) h₄
    exact absurd hthere (connected_of_ok (hm.ok d (List.mem_of_getElem? ho.snd)) hs)
  · rw [if_pos hthere] at h₄
    refine informs_destroyRoom hm ho [(j, SC_OPN_GONE), (i, SC_IN_LOBBY)] ?_ ?_ ?_
      (fun hs => absurd hs hgone) (fun _ v => ?_) (fun v x hxi hxj => ?_) h₄
    · rfl
    · rfl
    · exact List.append_assoc ..
    · rw [mailOf_cons_self, mailOf_cons_ne ho.ne, mailOf_nil]
      exact receiveAll_lobby (by decide) v
    · rw [mailOf_cons_ne (Ne.symm hxj), mailOf_cons_ne (Ne.symm hxi), mailOf_nil]
      rfl

theorem informs_erase (hm : s.hall.Member) (hc : s.mngClient.clients[i]? = some c)
    (hsock : c.socketNum < 0) (h : s.manage (s.mngClient.eraseClient i) = .ok s') :
    InformsBut i s.mngClient s'.mngClient := by
  obtain ⟨m, hm', rfl⟩ := Server.manage_eq_ok.1 h
  exact informs_eraseClient hm hc hsock hm'

/-- The client is told `msg`, its connection is closed, and its instance is erased. -/
theorem informs_dismissed {msg : Text} (hm : s.hall.Member) (hmsg : News.read msg = .other)
    (h : Server.Dismissed msg i s s') : InformsBut i s.mngClient s'.mngClient := by
  obtain ⟨s₁, hclose, herase⟩ := h
  obtain ⟨-, c, -, hc, hsock, -⟩ := Server.closed_of_closeConnection hclose
  have hchanged : Hall.Changes true s.hall s₁.hall :=
    Server.changes_closeConnection (s := { s with mngClient := s.mngClient.sendToClient i msg }) hm
      hclose
  have htold : Informs s.mngClient (s.mngClient.sendToClient i msg) := .tell hmsg
  exact (htold.trans (informs_closeConnection hclose)).but
    (informs_erase (hm.changes hchanged) hc hsock herase)

theorem informs_processFlags (hm : s.hall.Member) (h : s.processFlags i = .ok s') :
    (∃ c ∈ s.mngClient.clients[i]?, c.flagToErase = true) ∧
        InformsBut i s.mngClient s'.mngClient ∨
      (¬ ∃ c ∈ s.mngClient.clients[i]?, c.flagToErase = true) ∧
        Informs s.mngClient s'.mngClient := by
  obtain ⟨c, s₁, c₁, hc, hc₁, hflag, hfirst, hsecond⟩ := Server.processFlags_cases h
  have hclosed : Informs s.mngClient s₁.mngClient ∧ s₁.hall.Member ∧
      (c₁.flagToErase = true → c₁.socketNum < 0) := by
    rcases hfirst with ⟨-, hsock, s₂, hs₂, rfl⟩ | ⟨hdisc, rfl⟩
    · have hreset : Informs s₂.mngClient (s₂.mngClient.modify i (·.setFlagToDisconnect false)) :=
        .client (f := (·.setFlagToDisconnect false)) rfl rfl rfl fun _ _ =>
          ⟨rfl, rfl, fun h => h, fun h => h⟩
      have hclose : Hall.Changes true s.hall s₂.hall := Server.changes_closeConnection hm hs₂
      have hm₂ : s₂.hall.Member := hm.changes hclose
      obtain ⟨-, c₂, -, hc₂, hsock₂, -⟩ := Server.closed_of_closeConnection hs₂
      have hok := hm₂.ok c₂ (List.mem_of_getElem? hc₂)
      have hchanged : Hall.Changes true s₂.hall
          (s₂.mngClient.modify i (·.setFlagToDisconnect false)).hall :=
        Hall.change_client hc₂ rfl rfl ⟨hok.clearFlag hsock₂, rfl, rfl⟩ fun _ _ => rfl
      exact ⟨(informs_closeConnection hs₂).trans hreset, hm₂.changes hchanged, fun _ => hsock⟩
    · obtain rfl : c = c₁ := Option.some.inj (hc.symm.trans hc₁)
      exact ⟨.refl _, hm, fun he => (hm.ok c (List.mem_of_getElem? hc)).flags he hdisc⟩
  obtain ⟨hinf, hm₁, hsock⟩ := hclosed
  rcases hsecond with ⟨he, herase⟩ | ⟨he, rfl⟩
  · exact Or.inl ⟨⟨c, hc, he⟩,
      hinf.but (informs_erase hm₁ hc₁ (hsock (hflag.trans he)) herase)⟩
  · exact Or.inr ⟨by simp [hc, he], hinf⟩

/-! ### The steps of the server -/

namespace Server

/-- The input of an orderly run whose clients send only what they should. -/
def Candid (s : Server) : Input → Prop
  | .frame i f => s.Orderly true (.frame i f) ∧
      ∀ c ∈ s.mngClient.clients[i]?, s.mngClient.CandidFrame c f
  | l => s.Orderly true l

instance (s : Server) : (l : Input) → Decidable (s.Candid l)
  | .frame i f => inferInstanceAs (Decidable (s.Orderly true (.frame i f) ∧
      ∀ c ∈ s.mngClient.clients[i]?, s.mngClient.CandidFrame c f))
  | .accept ip fd => inferInstanceAs (Decidable (s.Orderly true (.accept ip fd)))
  | .close _ | .kick _ | .flags _ | .pair | .ping | .shutdown => isTrue trivial

theorem Candid.orderly {l : Input} (h : s.Candid l) : s.Orderly true l := by
  cases l with
  | frame => exact h.1
  | accept => exact h
  | close | kick | flags | pair | ping | shutdown => trivial

/-- The client that asks for a move remembers it. -/
def ask (l : Input) (vs : List Mirror) : List Mirror :=
  match l with
  | .frame i (.move t) => vs.modify i (·.ask t.text)
  | _ => vs

/-- The mirrors of the clients after a step. -/
def mirrors (s : Server) (l : Input) (s' : Server) (vs : List Mirror) : List Mirror :=
  s.follow l (fun _ _ => Mirror.fresh) (deliver s'.mngClient.sent (ask l vs))

end Server

theorem Mirrored.ask {l : Input} (h : m.Mirrored vs) : m.Mirrored (Server.ask l vs) := by
  unfold Server.ask
  split
  · exact forall₂_modify_right h fun c v _ _ hv => ⟨hv.entered, hv.sees⟩
  · exact h

/-- What the last client gets is of no interest when it is erased. -/
theorem eraseIdx_deliver_append (log : List (ℕ × Text)) (vs : List Mirror) (v w : Mirror) :
    (deliver log (vs ++ [v])).eraseIdx vs.length = (deliver log vs ++ [w]).eraseIdx vs.length := by
  have hlen : (deliver log vs).length = vs.length := length_deliver
  refine List.ext_getElem? fun x => ?_
  rw [List.getElem?_eraseIdx, List.getElem?_eraseIdx]
  split_ifs with hx
  · rw [getElem?_deliver, List.getElem?_append_left hx, List.getElem?_append_left (hlen.symm ▸ hx),
      getElem?_deliver]
  · rw [List.getElem?_eq_none (by rw [length_deliver, List.length_append, List.length_singleton]
                                  omega),
      List.getElem?_eq_none (by rw [List.length_append, hlen, List.length_singleton]; omega)]

theorem mirrored_accept {ip : Text} {fd : ℤ} (hm : s.hall.Member) (hempty : s.mngClient.sent = [])
    (h : (s.acceptConnection ip fd).checkCapacity = .ok s') (hvs : s.mngClient.Mirrored vs) :
    s'.mngClient.Mirrored (s.follow (.accept ip fd) (fun _ _ => Mirror.fresh)
      (deliver s'.mngClient.sent vs)) := by
  have hsent : (s.acceptConnection ip fd).mngClient.sent = [] := by
    unfold Server.acceptConnection
    split_ifs <;> exact hempty
  have hlobby : (s.acceptConnection ip fd).mngClient.lobby = s.mngClient.lobby := by
    unfold Server.acceptConnection
    split_ifs <;> rfl
  have hfresh : Reflects s.mngClient.lobby.games (Client.create ip fd) Mirror.fresh :=
    ⟨fun hn => absurd rfl hn, fun _ => rfl⟩
  have hjoined : (s.acceptConnection ip fd).mngClient.Mirrored
      (if fd > 0 then vs ++ [Mirror.fresh] else vs) := by
    unfold ClientManager.Mirrored
    rw [hlobby, Server.clients_acceptConnection]
    split_ifs
    · exact forall₂_append hvs (.cons hfresh .nil)
    · exact hvs
  have hjoin : Hall.Changes true s.hall (s.acceptConnection ip fd).hall :=
    Server.changes_acceptConnection
  have hm₁ : (s.acceptConnection ip fd).hall.Member := hm.changes hjoin
  dsimp only [Server.follow, Server.evicted]
  rcases Server.checkCapacity_cases h with ⟨hfull, k, c, hk, -, -, rfl⟩ | ⟨hfull, hk, hgone⟩ |
    ⟨hfull, rfl⟩
  · -- a disconnected instance is evicted
    rw [if_pos hfull, hk, hsent]
    exact forall₂_eraseIdx hjoined k
  · -- the accepted connection is refused
    obtain ⟨log, hlog, hinf⟩ := informs_dismissed hm₁ (News.read_other (by decide)) hgone
    rw [hsent, List.nil_append] at hlog
    have hleft := hinf _ hjoined
    rw [if_pos hfull, hk, hlog]
    dsimp only [Option.getD_none]
    split_ifs at hleft ⊢ with hfd
    · have hlen : (s.acceptConnection ip fd).mngClient.clients.length - 1 = vs.length := by
        rw [Server.clients_acceptConnection, if_pos hfd, List.length_append,
          List.length_singleton, Nat.add_sub_cancel]
        exact hvs.length_eq
      rw [hlen] at hleft ⊢
      rwa [← eraseIdx_deliver_append]
    · exact hleft
  · rw [if_neg hfull, hsent]
    exact hjoined

/-- **What the clients believe stays true** in every candid step. -/
theorem server_step_mirrored {l : Input} (hb : s.world.Base) (hm : s.hall.Member)
    (ht : s.hall.Turns) (hl : s.Candid l) (h : server.Step s l s') (hvs : s.mngClient.Mirrored vs) :
    s'.mngClient.Mirrored (s.mirrors l s' vs) := by
  have hstep := h
  obtain ⟨hguard, hexec⟩ := h
  change s.clearSent.handle l = .ok s' at hexec
  replace hm : s.clearSent.hall.Member := hm
  have of_informs : Informs s.clearSent.mngClient s'.mngClient →
      s'.mngClient.Mirrored (deliver s'.mngClient.sent (Server.ask l vs)) := by
    rintro ⟨log, hsent, hinf⟩
    rw [show s'.mngClient.sent = log from hsent]
    exact hinf _ (Mirrored.ask hvs)
  cases l with
  | accept ip fd =>
    have hevicted : (s.clearSent.acceptConnection ip fd).evicted =
        (s.acceptConnection ip fd).evicted := by
      unfold Server.acceptConnection
      split_ifs <;> rfl
    have hlast := mirrored_accept hm rfl hexec hvs
    rwa [Server.follow, hevicted] at hlast
  | frame i f =>
    obtain ⟨c, m, b, hc, rfl, ⟨-, rfl⟩ | ⟨hacc, hserve⟩⟩ := Server.frame_cases hexec
    · exact of_informs (.refl _)
    · obtain ⟨-, c', hc', hsock⟩ := hguard
      obtain rfl : c = c' := Option.some.inj (hc.symm.trans hc')
      obtain ⟨log, hsent, hinf⟩ := mirrored_serveFrame hm ht hc hsock (hl.1 c hc)
        (hl.2 c hc) hacc hserve
      rw [Server.mirrors, show m.sent = log from hsent]
      refine hinf _ (Mirrored.ask hvs) ?_
      rintro t v rfl hv
      change (vs.modify i (·.ask t.text))[i]? = some v at hv
      rw [List.getElem?_modify_eq] at hv
      obtain ⟨w, -, rfl⟩ := Option.map_eq_some_iff.1 hv
      rfl
  | close i => exact of_informs (informs_closeConnection hexec)
  | kick i =>
    have htold : Informs s.clearSent.mngClient (s.clearSent.mngClient.sendToClient i SC_KICK) :=
      .tell (News.read_other (by decide))
    exact of_informs (htold.trans (informs_closeConnection hexec))
  | flags i =>
    rcases informs_processFlags hm hexec with ⟨he, log, hsent, hinf⟩ | ⟨he, hinf⟩
    · change ∃ c ∈ s.mngClient.clients[i]?, c.flagToErase = true at he
      rw [Server.mirrors, Server.follow, if_pos he, show s'.mngClient.sent = log from hsent]
      exact hinf _ hvs
    · change ¬ ∃ c ∈ s.mngClient.clients[i]?, c.flagToErase = true at he
      have hlast := of_informs hinf
      rwa [Server.mirrors, Server.follow, if_neg he]
  | pair =>
    obtain ⟨m, hm', rfl⟩ := Server.manage_eq_ok.1 hexec
    exact of_informs (informs_pairLoop hm')
  | ping =>
    obtain ⟨m, hm', rfl⟩ := Server.manage_eq_ok.1 hexec
    exact of_informs (informs_pingLoop _ hm hm')
  | shutdown =>
    have hnil : AllFollowed false [] s'.mngClient.clients :=
      server_step_followed hb hstep nofun nofun nofun
    change List.Forall₂ _ s'.mngClient.clients []
    rw [List.forall₂_nil_left_iff.1 hnil]
    exact .nil

end HnefServer
