import HnefServer.Game.Move
import HnefServer.Invariant.Orderly

/-!
# The requests of an orderly run

Every request that an orderly run serves is a sequence of `Hall.Change`; so is the pairing of the
Ready clients, and a round of the pinging thread.
-/

namespace HnefServer

open Protocol ClientManager

namespace Hall

open Client

/-- Sequences of changes. -/
def Changes (strict : Bool) : Hall → Hall → Prop := Relation.ReflTransGen (Change strict)

variable {strict : Bool}

namespace Changes

variable {h h' h'' : Hall}

theorem refl (h : Hall) : Changes strict h h := Relation.ReflTransGen.refl

theorem single (h₁ : Change strict h h') : Changes strict h h' := Relation.ReflTransGen.single h₁

theorem trans (h₁ : Changes strict h h') (h₂ : Changes strict h' h'') : Changes strict h h'' :=
  Relation.ReflTransGen.trans h₁ h₂

/-- A property of agreeing halls that every change keeps. -/
theorem invariant {P : Hall → Prop} (hP : ∀ h h', h.Member → P h → Change strict h h' → P h')
    (hst : Changes strict h h') (hm : h.Member) (hp : P h) : h'.Member ∧ P h' := by
  induction hst with
  | refl => exact ⟨hm, hp⟩
  | tail _ hst ih => exact ⟨ih.1.change hst, hP _ _ ih.1 ih.2 hst⟩

end Changes

theorem Member.changes {h h' : Hall} (hm : h.Member) (hst : Changes strict h h') : h'.Member :=
  (hst.invariant (P := fun _ => True) (fun _ _ _ _ _ => trivial) hm trivial).1

/-! ### The requests of an orderly run -/

variable {m m' : ClientManager} {i j k : ℕ} {c d : Client} {r : RoomHnefatafl}

/-- One client changes where it is, and messages are sent. -/
theorem change_client {f : Client → Client} (hc : m.clients[i]? = some c)
    (hcs : m'.clients = m.clients.modify i f) (hl : m'.lobby = m.lobby)
    (hf : Seated c (f c) c.roomId)
    (hrole : strict = true → c.roomId ≠ 0 → (f c).logical = c.logical) :
    Changes strict m.hall m'.hall := by
  simp only [ClientManager.hall, hcs, hl]
  exact .single (.client _ i c f hc hf hrole)

theorem changes_of_same (hcs : m'.clients = m.clients) (hl : m'.lobby = m.lobby) :
    Changes strict m.hall m'.hall := by
  simp only [ClientManager.hall, hcs, hl]
  exact .refl _

/-- The client gets back its last state. -/
theorem changes_restore (hm : m.hall.Member) (hc : m.clients[i]? = some c)
    (hsock : 0 ≤ c.socketNum) (hr : c.RestoreOk strict)
    (hcs : m'.clients = m.clients.modify i fun c => c.setState c.stateLast)
    (hl : m'.lobby = m.lobby) : Changes strict m.hall m'.hall := by
  have hok := hm.ok c (List.mem_of_getElem? hc)
  refine change_client hc hcs hl ⟨hok.restore hr hsock, rfl, rfl⟩ fun hs hroom => ?_
  subst hs
  exact hok.logical_restore hr hroom

theorem changes_destroyRoom (hm : m.hall.Member) (ho : Opponents m k r i c j d)
    (h : m.destroyRoom r.roomId i j = .ok m') : Changes strict m.hall m'.hall := by
  obtain ⟨a, b, ha, hb, hcs, -, ⟨hid, -⟩ | ⟨-, -, hl⟩⟩ := destroyRoom_cases h
  · exact absurd hid (hm.roomId_ne_zero ho.room)
  obtain rfl : c = a := Option.some.inj (ho.fst.symm.trans ha)
  obtain rfl : d = b := Option.some.inj (ho.snd.symm.trans hb)
  have hc := hm.ok c (List.mem_of_getElem? ho.fst)
  have hd := hm.ok d (List.mem_of_getElem? ho.snd)
  rw [freeClients_eq ho.ne] at hcs
  rw [ho.find] at hl
  simp only [ClientManager.hall, hcs, hl]
  refine .single (.finish _ k i j r c d _ _ ho.room ho.fst ho.snd ho.ne ho.nicks
    ⟨hc.toWaiting ho.fstName, ?_, rfl⟩ ⟨hd.toWaiting ho.sndName, ?_, rfl⟩)
  all_goals
    unfold toWaiting
    split_ifs <;> rfl

/-- A Disconnected instance is not the one a frame came from. -/
theorem ne_of_disconnected (hm : m.hall.Member) (hc : m.clients[i]? = some c)
    (hsock : 0 ≤ c.socketNum) (hd : m.clients[j]? = some d) (hs : d.state = .disconnected) :
    i ≠ j := by
  rintro rfl
  obtain rfl : c = d := Option.some.inj (hc.symm.trans hd)
  have hgone := (hm.ok c (List.mem_of_getElem? hc)).gone hs
  omega

/-- A client in the lobby takes over a Disconnected instance. -/
theorem changes_takeOver (hm : m.hall.Member) (hc : m.clients[i]? = some c)
    (hsock : 0 ≤ c.socketNum) (hd : m.clients[j]? = some d) {n : Text} (hn : d.nick = n)
    (hne : n ≠ []) (hs : d.state = .disconnected) (hroom : c.roomId = 0) :
    Changes strict m.hall ((m.modify i (takeOver n d)).modify j expire).hall := by
  subst hn
  have hok := hm.ok c (List.mem_of_getElem? hc)
  have hdok := hm.ok d (List.mem_of_getElem? hd)
  have hlog : (takeOver d.nick d c).logical = d.logical := by
    rw [logical_takeOver hdok.last, logical_of_inaccessible (by rw [hs]; rfl)]
  exact .single (.transfer _ i j c d _ _ hc hd (ne_of_disconnected hm hc hsock hd hs) hroom hne
    (hok.takeOver hdok hne hs hsock) rfl rfl hlog (hdok.expire hs) rfl)

theorem changes_requestConnect (hm : m.hall.Member) (hc : m.clients[i]? = some c)
    (hsock : 0 ≤ c.socketNum) {n : Nick} (ho : m.OrderlyFrame strict c (.connect n)) {b : ℤ}
    (h : m.requestConnect i n.text c.state = .ok (m', b)) : Changes strict m.hall m'.hall := by
  have hok := hm.ok c (List.mem_of_getElem? hc)
  obtain ⟨c', hc', hcases⟩ := requestConnect_cases h
  obtain rfl : c = c' := Option.some.inj (hc.symm.trans hc')
  rcases hcases with ⟨hfree, ⟨hlast, hstate, rfl⟩ | ⟨rfl, -⟩⟩ | ⟨-, rfl⟩ | ⟨d, hd, hn, hip, hrec⟩
  · -- the first nick of the client
    have hnew : c.logical = .new := logical_new hlast hstate
    have hroom : c.roomId = 0 := hok.roomId_eq_zero (by rw [hnew]; rfl)
    exact .single (.name _ i c _ hc hroom (hok.enter n.ne_nil hnew) hroom n.ne_nil hfree)
  · exact .refl _
  · exact changes_of_same rfl rfl
  · obtain ⟨hshort, hlong, hready, hnew⟩ := ho d (List.mem_of_getElem? hd) hn hip
    obtain ⟨d', hd', hcases⟩ := handleReconnection_cases hrec
    obtain rfl : d = d' := Option.some.inj (hd.symm.trans hd')
    rcases hcases with ⟨-, rfl⟩ | ⟨hs, hrep⟩ | ⟨hs, hrep⟩
    · exact changes_of_same rfl rfl
    · obtain ⟨hcs, hl⟩ := reportReconnection_same hrep
      exact changes_restore hm hc hsock (hshort hs) hcs hl
    · obtain ⟨hcs, hl⟩ := reportReconnection_same hrep
      have hdisc : d.state = .disconnected := (hs.resolve_left hnew).resolve_left hready
      simp only [ClientManager.hall, hcs, hl]
      exact changes_takeOver hm hc hsock hd hn n.ne_nil hdisc (hlong hdisc)

/-- The turn passes in a room in which a move was made. -/
theorem changes_handedOver (hm : m.hall.Member) (hr : m.lobby.games[k]? = some r)
    {r' : RoomHnefatafl} (hr' : SameRoom r r') (hturn : r'.onTurn = r.onStand)
    (hstand : r'.onStand = r.onTurn) {t : Text}
    (hc : m.clients[m.findClientByNick r.onStand]? = some c) :
    Changes strict m.hall ((m.putRoom k r').handedOver (m.findClientByNick r.onStand)
      (m.findClientByNick r.onTurn) c.state t).hall := by
  obtain ⟨i, d, j, c', ho, hdn, hcn⟩ := hm.players hr
  have hi : m.findClientByNick r.onTurn = i := by
    rw [← hdn]
    exact hm.findClientByNick ho.fst ho.fstName
  have hj : m.findClientByNick r.onStand = j := by
    rw [← hcn]
    exact hm.findClientByNick ho.snd ho.sndName
  rw [hj] at hc
  rw [hi, hj]
  obtain rfl : c = c' := Option.some.inj (hc.symm.trans ho.snd)
  have hroom := hm.roomId_ne_zero hr
  obtain ⟨hok, hlog⟩ := (hm.ok c (List.mem_of_getElem? ho.snd)).handOver (ho.sndRoom ▸ hroom)
    ho.sndName
  exact .single (.turn _ k j i r r' c d _ _ hr hr' hturn hstand ho.snd ho.fst ho.ne.symm
    (hcn.trans hturn.symm) (hdn.trans hstand.symm) ⟨hok, handOver_nick _ _, handOver_roomId _ _⟩
    ⟨(hm.ok d (List.mem_of_getElem? ho.fst)).standBy (ho.fstRoom ▸ hroom) ho.fstName, rfl, rfl⟩
    hlog (logical_setState rfl))

theorem findClientByNick_modify {f : Client → Client} (hf : ∀ c, (f c).nick = c.nick) (n : Text) :
    (m.modify i f).findClientByNick n = m.findClientByNick n :=
  findIdx_modify fun c => by rw [hf]

theorem findClientByNick_handedOver {st : State} {t n : Text} :
    (m.handedOver i j st t).findClientByNick n = m.findClientByNick n := by
  change ((m.modify i (handOver st)).modify j (·.setState .playingOnStand)).findClientByNick n = _
  have hstand : ∀ c : Client, (c.setState .playingOnStand).nick = c.nick := fun _ => rfl
  rw [findClientByNick_modify hstand, findClientByNick_modify (handOver_nick st)]

/-- A game that is over is left by its two players, who have been told. -/
theorem changes_gameover (hm : m.hall.Member) (hr : m.lobby.games[k]? = some r)
    (hi : m.findClientByNick r.onTurn = i) (hj : m.findClientByNick r.onStand = j)
    {told : ClientManager} (htold : told.hall = m.hall) {id : ℕ} (hid : r.roomId = id)
    (h : told.destroyRoom id i j = .ok m') : Changes strict m.hall m'.hall := by
  subst hid
  obtain ⟨c, d, ho⟩ := hm.players_found hr hi hj
  have hm' : told.hall.Member := htold ▸ hm
  exact htold ▸ changes_destroyRoom hm' (ho.of_hall htold) h

theorem changes_requestMove (hm : m.hall.Member) {t : Text} {b : ℤ}
    (h : m.requestMove i t = .ok (m', b)) : Changes strict m.hall m'.hall := by
  obtain ⟨c, k, r, r', -, rfl, hr, hid, hcases⟩ := requestMove_outcome h
  rcases hcases with ⟨hproc, ht, hs, rfl⟩ | ⟨hproc, ht, hs, a, d, ha, -, hover⟩
  all_goals
    obtain ⟨-, hblack, hwhite, -⟩ := RoomHnefatafl.processMove_players hproc
    have hsame : SameRoom r r' := ⟨hid, hblack, hwhite⟩
  · exact .single (.reject _ _ r r' hr hsame ht hs)
  have hpassed : Changes strict m.hall _ := changes_handedOver (t := t) hm hr hsame ht hs ha
  rcases hover with ⟨-, rfl⟩ | ⟨-, hdestroy⟩
  · exact hpassed
  · have hroom : r'.roomId = c.roomId := hid.trans (room_of_getRoomById hr)
    have hr' : (m.putRoom (m.lobby.getRoomById c.roomId)
        r').lobby.games[m.lobby.getRoomById c.roomId]? = some r' := by
      have hlt := (List.getElem?_eq_some_iff.1 hr).1
      simp [putRoom, hlt]
    refine hpassed.trans (changes_gameover (hm.changes hpassed) hr' ?_ ?_ ?_ hroom hdestroy)
    · rw [findClientByNick_handedOver, ht]
      rfl
    · rw [findClientByNick_handedOver, hs]
      rfl
    · rw [hall_sendToClient, hall_sendToClient]

theorem changes_requestLeave (hm : m.hall.Member) (hc : m.clients[i]? = some c)
    (hn : c.nick ≠ []) (hroom : c.roomId ≠ 0) {b : ℤ} (h : m.requestLeave i = .ok (m', b)) :
    Changes strict m.hall m'.hall := by
  obtain ⟨c', n, m₁, hc', hopp, hsend, hdestroy⟩ := requestLeave_cases h
  obtain rfl : c = c' := Option.some.inj (hc.symm.trans hc')
  obtain ⟨k, r, j, d, ho⟩ := hm.opponent hc hn hroom
  obtain rfl : d.nick = n := Except.ok.inj ((ho.getOpponentOf hm.names).symm.trans hopp)
  obtain ⟨hcs, hl⟩ := sendToOpponentOf_same hsend
  have hsame : m₁.hall = m.hall := by
    simp only [ClientManager.hall, hcs, hl]
    rfl
  have hm₁ : m₁.hall.Member := hsame ▸ hm
  have ho₁ : Opponents m₁ k r i c j d := ho.of_hall hsame
  rw [hm.findClientByNick ho.snd ho.sndName, ho.fstRoom] at hdestroy
  exact hsame ▸ changes_destroyRoom hm₁ ho₁ hdestroy

/-- The state in which a frame that only players send is accepted is a state in the game. -/
theorem inGame_of_frame (hs : c.state = .playingOnTurn ∨ c.state = .playingOnStand ∨
    c.state = .pinged) (ho : c.state = .pinged → c.stateLast.inGame = true) :
    c.logical.inGame = true ∧ c.state ≠ .disconnected := by
  rcases hs with hs | hs | hs
  · rw [logical_of_accessible (by rw [hs]; rfl), hs]
    exact ⟨rfl, by decide⟩
  · rw [logical_of_accessible (by rw [hs]; rfl), hs]
    exact ⟨rfl, by decide⟩
  · rw [logical_of_inaccessible (by rw [hs]; rfl), hs]
    exact ⟨ho hs, by decide⟩

theorem changes_serveFrame (hm : m.hall.Member) (hc : m.clients[i]? = some c)
    (hsock : 0 ≤ c.socketNum) {d : Frame} (ho : m.OrderlyFrame strict c d)
    (hacc : d.acceptedIn c.state = true) {b : ℤ}
    (h : m.serveFrame i c.state d = .ok (m', b)) : Changes strict m.hall m'.hall := by
  have hok := hm.ok c (List.mem_of_getElem? hc)
  cases d with
  | ping =>
    cases h
    split_ifs with hs
    · have hinacc : c.state.inaccessible = true := by
        rcases hs with hs | hs <;> rw [hs] <;> rfl
      exact changes_restore hm hc hsock (Or.inl hinacc) rfl rfl
    · exact changes_of_same rfl rfl
  | pong =>
    cases h
    exact changes_restore hm hc hsock ho rfl rfl
  | connect n => exact changes_requestConnect hm hc hsock ho h
  | ready =>
    cases h
    have hlobby : c.nick ≠ [] ∧ c.roomId = 0 := by
      by_cases hp : c.state = .pinged
      · exact ho hp
      · exact hok.fit.lobby (Or.inl (by simpa [Frame.acceptedIn, hp] using hacc))
    exact change_client hc rfl rfl ⟨hok.setReady hlobby.1 hlobby.2 hsock, rfl, rfl⟩
      fun _ hroom => absurd hlobby.2 hroom
  | move t => exact changes_requestMove hm h
  | leave =>
    have hstate : c.state = .playingOnTurn ∨ c.state = .playingOnStand ∨ c.state = .pinged := by
      simpa [Frame.acceptedIn, or_assoc] using hacc
    obtain ⟨hgame, hgone⟩ := inGame_of_frame hstate ho
    obtain ⟨hn, hroom⟩ := hm.named hc hgame hgone
    exact changes_requestLeave hm hc hn hroom h
  | chat msg =>
    obtain ⟨m₁, hsend, h₁⟩ := bind_eq_ok.1 h
    cases h₁
    obtain ⟨hcs, hl⟩ := sendToOpponentOf_same hsend
    exact changes_of_same hcs hl
  | ok => cases hacc

/-! ### Pairing -/

/-- A Ready client is in the lobby and has a name. -/
theorem Member.lobby_of_ready (hm : m.hall.Member) (hc : m.clients[i]? = some c)
    (hs : c.state = .ready) : c.nick ≠ [] ∧ c.roomId = 0 :=
  (hm.ok c (List.mem_of_getElem? hc)).fit.lobby (Or.inr hs)

theorem changes_paired (hm : m.hall.Member) (h : m.Paired m' i j c d) :
    Changes strict m.hall m'.hall := by
  obtain ⟨hcn, hcroom⟩ := hm.lobby_of_ready h.fst h.fstReady
  obtain ⟨hdn, hdroom⟩ := hm.lobby_of_ready h.snd h.sndReady
  have hid : m.lobby.roomsTotal + 1 ≠ 0 := Nat.succ_ne_zero _
  have hc := hm.ok c (List.mem_of_getElem? h.fst)
  have hd := hm.ok d (List.mem_of_getElem? h.snd)
  simp only [ClientManager.hall, h.clients, h.lobby]
  exact .single (.start _ i j c d _ _ h.fst h.snd h.lt.ne hcroom hdroom hcn hdn
    ⟨hc.start h.fstReady hid rfl, rfl, rfl⟩ ⟨hd.start h.sndReady hid rfl, rfl, rfl⟩
    (logical_setState rfl) (logical_setState rfl))

theorem changes_pairLoop {fuel : ℕ} (hm : m.hall.Member) (h : pairLoop fuel m i = .ok m') :
    Changes strict m.hall m'.hall := by
  have hpairs := pairs_of_pairLoop h
  clear h
  induction hpairs with
  | refl => exact .refl _
  | tail _ hp ih =>
    obtain ⟨i, j, c, d, hp⟩ := hp
    exact ih.trans (changes_paired (hm.changes ih) hp)

/-! ### Pinging -/

theorem changes_pingClient (hm : m.hall.Member) (h : m.pingClient i = .ok m') :
    Changes strict m.hall m'.hall := by
  obtain ⟨c, hc, -⟩ := bind_eq_ok.1 h
  rw [deref_eq_ok] at hc
  obtain ⟨hcs, hl⟩ := pingClient_spec h
  obtain ⟨hok, hn, hroom, hlog⟩ := (hm.ok c (List.mem_of_getElem? hc)).pinged
  exact change_client hc hcs hl ⟨hok, hn, hroom⟩ fun _ _ => hlog

theorem changes_pingLoop (is : List ℕ) (hm : m.hall.Member)
    (h : is.foldlM pingClient m = .ok m') : Changes strict m.hall m'.hall := by
  induction is generalizing m with
  | nil =>
    cases h
    exact .refl _
  | cons i is ih =>
    rw [List.foldlM_cons] at h
    obtain ⟨m₁, hm₁, h₁⟩ := bind_eq_ok.1 h
    have hfirst : Changes strict m.hall m₁.hall := changes_pingClient hm hm₁
    exact hfirst.trans (ih (hm.changes hfirst) h₁)

/-! ### Erasing -/

/-- An instance without a connection is erased: a player leaves its game. -/
theorem changes_eraseClient (hm : m.hall.Member) (hc : m.clients[i]? = some c)
    (hsock : c.socketNum < 0) (h : m.eraseClient i = .ok m') :
    Changes strict m.hall m'.hall := by
  have hok := hm.ok c (List.mem_of_getElem? hc)
  obtain ⟨c', hc', hcases⟩ := eraseClient_cases h
  obtain rfl : c = c' := Option.some.inj (hc.symm.trans hc')
  rcases hcases with ⟨hnot, rfl⟩ | ⟨⟨hn, hroom, -⟩, n, m₁, m₂, hopp, hcs, hl, hdestroy, rfl⟩
  · refine .single (.drop _ i c hc ?_)
    by_contra hcon
    rw [not_or] at hcon
    exact hnot ⟨hcon.1, hcon.2, hok.away hsock hcon.2⟩
  · obtain ⟨k, r, j, d, ho⟩ := hm.opponent hc hn hroom
    obtain rfl : d.nick = n := Except.ok.inj ((ho.getOpponentOf hm.names).symm.trans hopp)
    have hsame : m₁.hall = m.hall := by simp only [ClientManager.hall, hcs, hl]
    have ho₁ : Opponents m₁ k r i c j d := ho.of_hall hsame
    rw [hm.findClientByNick ho.snd ho.sndName, ho.fstRoom] at hdestroy
    have hm₁ : m₁.hall.Member := hsame ▸ hm
    have hfree : Changes strict m.hall m₂.hall := hsame ▸ changes_destroyRoom hm₁ ho₁ hdestroy
    -- the erased player is in the lobby by now
    obtain ⟨e, he, heroom⟩ := roomId_destroyRoom ho.ne hdestroy
    exact hfree.trans (.single (.drop _ i e he (Or.inr heroom)))

end Hall

end HnefServer
