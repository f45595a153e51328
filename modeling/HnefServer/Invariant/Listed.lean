import HnefServer.Invariant.Base
import HnefServer.Invariant.Requests

/-!
# The players the rooms list

`Hall.Listed` says that every room lists two players, who are in the room.  A frame that is fair
(`ClientManager.FairFrame`) may be disorderly otherwise: the frames of a Pinged client that fault,
or that act on its room whatever its state was before, leave the rooms as they should be.
-/

namespace HnefServer

open Protocol ClientManager

/-! ### Fair frames -/

/-- The client `c` may ask for the session `d`: what it is given instead of a Pinged or Lost
session does not take it out of its game, it takes over a Disconnected session only from the lobby,
and the session is not Ready or New. -/
def Client.MayAskFor (c d : Client) : Prop :=
  (d.state = .pinged ∨ d.state = .lost → c.StaysInGame) ∧
    (d.state = .disconnected → c.roomId = 0) ∧ d.state ≠ .ready ∧ d.state ≠ .new

instance (c d : Client) : Decidable (c.MayAskFor d) :=
  inferInstanceAs (Decidable ((_ ∨ _ → _) ∧ (_ → _) ∧ _ ≠ _ ∧ _ ≠ _))

/-- A frame of the client `c` makes nobody Ready but a named client in the lobby, and takes no
player out of its game. -/
def ClientManager.FairFrame (m : ClientManager) (c : Client) : Frame → Prop
  | .ready => c.state = .pinged → c.nick ≠ [] ∧ c.roomId = 0
  | .pong => c.StaysInGame
  | .connect n => ∀ d ∈ m.clients, d.nick = n.text → d.ipAddress = c.ipAddress → c.MayAskFor d
  | .move _ | .leave | .chat _ | .ping | .ok => True

instance (m : ClientManager) (c : Client) : (d : Frame) → Decidable (m.FairFrame c d)
  | .ready => inferInstanceAs (Decidable (_ → _ ∧ _))
  | .pong => inferInstanceAs (Decidable c.StaysInGame)
  | .connect n => inferInstanceAs (Decidable (∀ d ∈ m.clients, d.nick = n.text →
      d.ipAddress = c.ipAddress → c.MayAskFor d))
  | .move _ => isTrue trivial
  | .leave => isTrue trivial
  | .chat _ => isTrue trivial
  | .ping => isTrue trivial
  | .ok => isTrue trivial

namespace Hall

open Client

/-- A room has the colours of its two players, and both are there. -/
structure Played (cs : List Client) (r : RoomHnefatafl) : Prop where
  colours : Coloured r
  ne : r.onTurn ≠ r.onStand
  onTurn : Sits cs r.onTurn r.roomId
  onStand : Sits cs r.onStand r.roomId

/-- Every room is played by two clients, each of which is in the states its room and its name
demand. -/
structure Listed (h : Hall) : Prop where
  fit : ∀ c ∈ h.clients, c.Fit
  played : ∀ r ∈ h.lobby.games, Played h.clients r

/-! ### Seats that stay -/

section Sits

variable {cs : List Client} {i j : ℕ} {c d : Client} {f g : Client → Client} {n : Text} {x : ℕ}

/-- A client that keeps its nick and its room, if it sits in the room `x`. -/
theorem Sits.modify (h : Sits cs n x) (hc : cs[i]? = some c)
    (hstay : c.nick ≠ [] → c.roomId = x → (f c).nick = c.nick ∧ (f c).roomId = c.roomId) :
    Sits (cs.modify i f) n x := by
  obtain ⟨hne, e, he, rfl, rfl⟩ := h
  obtain ⟨k, hk⟩ := List.mem_iff_getElem?.1 he
  by_cases hik : i = k
  · subst hik
    obtain rfl : c = e := Option.some.inj (hc.symm.trans hk)
    obtain ⟨hn, hroom⟩ := hstay hne rfl
    refine ⟨hne, f c, List.mem_of_getElem? (i := i) ?_, hn, hroom⟩
    rw [List.getElem?_modify_eq, hc]
    rfl
  · refine ⟨hne, e, List.mem_of_getElem? (i := k) ?_, rfl, rfl⟩
    rw [List.getElem?_modify_ne _ _ hik, hk]

theorem Sits.modify₂ (h : Sits cs n x) (hc : cs[i]? = some c) (hd : cs[j]? = some d) (hij : i ≠ j)
    (hf : c.nick ≠ [] → c.roomId = x → (f c).nick = c.nick ∧ (f c).roomId = c.roomId)
    (hg : d.nick ≠ [] → d.roomId = x → (g d).nick = d.nick ∧ (g d).roomId = d.roomId) :
    Sits ((cs.modify i f).modify j g) n x :=
  (h.modify hc hf).modify ((List.getElem?_modify_ne _ _ hij).trans hd) hg

theorem Sits.eraseIdx (h : Sits cs n x) (hc : cs[i]? = some c)
    (hleft : c.nick = [] ∨ c.roomId ≠ x) : Sits (cs.eraseIdx i) n x := by
  obtain ⟨hne, e, he, rfl, rfl⟩ := h
  obtain ⟨k, hk⟩ := List.mem_iff_getElem?.1 he
  refine ⟨hne, e, List.mem_eraseIdx_iff_getElem?.2 ⟨k, ?_, hk⟩, rfl, rfl⟩
  rintro rfl
  obtain rfl : c = e := Option.some.inj (hc.symm.trans hk)
  rcases hleft with hn | hroom
  · exact hne hn
  · exact hroom rfl

theorem Sits.append (h : Sits cs n x) (cs' : List Client) : Sits (cs ++ cs') n x := by
  obtain ⟨hne, e, he, hn, hroom⟩ := h
  exact ⟨hne, e, List.mem_append_left _ he, hn, hroom⟩

/-- Where the first of two clients sits after they were changed. -/
theorem sits_fst (hc : cs[i]? = some c) (hij : i ≠ j) (hn : (f c).nick ≠ []) :
    Sits ((cs.modify i f).modify j g) (f c).nick (f c).roomId := by
  refine ⟨hn, f c, List.mem_of_getElem? (i := i) ?_, rfl, rfl⟩
  rw [List.getElem?_modify_ne _ _ hij.symm, List.getElem?_modify_eq, hc]
  rfl

theorem sits_snd (hd : cs[j]? = some d) (hij : i ≠ j) (hn : (g d).nick ≠ []) :
    Sits ((cs.modify i f).modify j g) (g d).nick (g d).roomId := by
  refine ⟨hn, g d, List.mem_of_getElem? (i := j) ?_, rfl, rfl⟩
  rw [List.getElem?_modify_eq, List.getElem?_modify_ne _ _ hij, hd]
  rfl

/-- The client at `i` gets the nick and the room of another, and was in the lobby. -/
theorem Sits.transfer (h : Sits cs n x) (hx : x ≠ 0) (hc : cs[i]? = some c) (hd : cs[j]? = some d)
    (hij : i ≠ j) (hroom : c.roomId = 0) (hn : (f c).nick = d.nick)
    (hfx : (f c).roomId = d.roomId) : Sits ((cs.modify i f).modify j g) n x := by
  obtain ⟨hne, e, he, rfl, rfl⟩ := h
  obtain ⟨k, hk⟩ := List.mem_iff_getElem?.1 he
  have hki : i ≠ k := by
    rintro rfl
    obtain rfl : c = e := Option.some.inj (hc.symm.trans hk)
    exact hx hroom
  by_cases hjk : j = k
  · -- the seat is now that of the client at `i`
    subst hjk
    obtain rfl : d = e := Option.some.inj (hd.symm.trans hk)
    rw [← hn, ← hfx]
    exact sits_fst hc hij (hn ▸ hne)
  · refine ⟨hne, e, List.mem_of_getElem? (i := k) ?_, rfl, rfl⟩
    rw [List.getElem?_modify_ne _ _ hjk, List.getElem?_modify_ne _ _ hki, hk]

theorem Played.mono {r : RoomHnefatafl} {cs' : List Client} (h : Played cs r)
    (hs : ∀ n, Sits cs n r.roomId → Sits cs' n r.roomId) : Played cs' r :=
  ⟨h.colours, h.ne, hs _ h.onTurn, hs _ h.onStand⟩

/-- The room after a move, made or rejected. -/
theorem Played.moved {r r' : RoomHnefatafl} (h : Played cs r) (hr' : SameRoom r r')
    (hp : r'.onTurn = r.onTurn ∧ r'.onStand = r.onStand ∨
      r'.onTurn = r.onStand ∧ r'.onStand = r.onTurn) : Played cs r' := by
  have hcol := h.colours
  unfold Coloured at hcol
  rcases hp with ⟨ht, hs⟩ | ⟨ht, hs⟩
  · refine ⟨?_, ?_, ?_, ?_⟩
    · unfold Coloured
      rw [hr'.black, hr'.white, ht, hs]
      exact hcol
    · rw [ht, hs]
      exact h.ne
    · rw [ht, hr'.id]
      exact h.onTurn
    · rw [hs, hr'.id]
      exact h.onStand
  · refine ⟨?_, ?_, ?_, ?_⟩
    · unfold Coloured
      rw [hr'.black, hr'.white, ht, hs]
      exact hcol.symm
    · rw [ht, hs]
      exact h.ne.symm
    · rw [ht, hr'.id]
      exact h.onStand
    · rw [hs, hr'.id]
      exact h.onTurn

end Sits

/-! ### The requests -/

variable {m m' : ClientManager} {i j k : ℕ} {c d : Client} {r : RoomHnefatafl} {f : Client → Client}
  {socks : List ℤ}

namespace Listed

theorem of_same (hl : m.hall.Listed) (hcs : m'.clients = m.clients)
    (hlobby : m'.lobby = m.lobby) : m'.hall.Listed := by
  have hsame : m'.hall = m.hall := by simp only [ClientManager.hall, hcs, hlobby]
  exact hsame ▸ hl

/-- One client changes, which keeps its nick and its room if it sits in a room. -/
theorem client (hl : m.hall.Listed) (hc : m.clients[i]? = some c)
    (hcs : m'.clients = m.clients.modify i f) (hlobby : m'.lobby = m.lobby) (hfit : (f c).Fit)
    (hstay : ∀ r ∈ m.lobby.games, c.nick ≠ [] → c.roomId = r.roomId →
      (f c).nick = c.nick ∧ (f c).roomId = c.roomId) : m'.hall.Listed := by
  refine ⟨?_, fun r hr => ?_⟩
  · change ∀ c ∈ m'.clients, c.Fit
    rw [hcs]
    exact forall_modify hl.fit hc hfit
  · change Played m'.clients r
    rw [hcs]
    have hr : r ∈ m.lobby.games := hlobby ▸ hr
    exact (hl.played r hr).mono fun n hn => hn.modify hc (hstay r hr)

/-- The client gets back its last state. -/
theorem restore (hl : m.hall.Listed) (hc : m.clients[i]? = some c) (hsock : 0 ≤ c.socketNum)
    (hr : c.StaysInGame) (hcs : m'.clients = m.clients.modify i fun c => c.setState c.stateLast)
    (hlobby : m'.lobby = m.lobby) : m'.hall.Listed :=
  hl.client hc hcs hlobby ((hl.fit c (List.mem_of_getElem? hc)).restore hr hsock)
    fun _ _ _ _ => ⟨rfl, rfl⟩

/-- A room is destroyed, and two clients that are in it go back to the lobby. -/
theorem destroyRoom (hl : m.hall.Listed)
    (hids : DistinctKeys (fun r : RoomHnefatafl => some r.roomId) m.lobby.games)
    (hr : m.lobby.games[k]? = some r) (hid : r.roomId ≠ 0) (hc : m.clients[i]? = some c)
    (hd : m.clients[j]? = some d) (hij : i ≠ j) (hcn : c.nick ≠ []) (hdn : d.nick ≠ [])
    (hcr : c.roomId = r.roomId) (hdr : d.roomId = r.roomId)
    (h : m.destroyRoom r.roomId i j = .ok m') : m'.hall.Listed := by
  obtain ⟨a, b, ha, hb, hcs, -, ⟨hzero, -⟩ | ⟨-, -, hlobby⟩⟩ := destroyRoom_cases h
  · exact absurd hzero hid
  obtain rfl : c = a := Option.some.inj (hc.symm.trans ha)
  obtain rfl : d = b := Option.some.inj (hd.symm.trans hb)
  rw [freeClients_eq hij] at hcs
  rw [getRoomById_eq hids hr] at hlobby
  refine ⟨?_, fun r₁ hr₁ => ?_⟩
  · change ∀ c ∈ m'.clients, c.Fit
    rw [hcs]
    exact forall_modify₂ hl.fit hc hd hij ((hl.fit c (List.mem_of_getElem? hc)).toWaiting hcn).1
      ((hl.fit d (List.mem_of_getElem? hd)).toWaiting hdn).1
  · change r₁ ∈ m'.lobby.games at hr₁
    change Played m'.clients r₁
    rw [hlobby] at hr₁
    rw [hcs]
    obtain ⟨x, hxk, hx⟩ := List.mem_eraseIdx_iff_getElem?.1 hr₁
    have hother : r.roomId ≠ r₁.roomId := fun hsame =>
      hxk (hids x k r₁ r r.roomId hx hr (congrArg some hsame.symm) rfl)
    refine (hl.played r₁ (List.mem_of_getElem? hx)).mono fun n hn => hn.modify₂ hc hd hij ?_ ?_
    · exact fun _ hsame => absurd (hcr.symm.trans hsame) hother
    · exact fun _ hsame => absurd (hdr.symm.trans hsame) hother

/-- A move changes one room, whose players stay or swap. -/
theorem putRoom (hl : m.hall.Listed) (hr : m.lobby.games[k]? = some r) {r' : RoomHnefatafl}
    (hr' : SameRoom r r') (hp : r'.onTurn = r.onTurn ∧ r'.onStand = r.onStand ∨
      r'.onTurn = r.onStand ∧ r'.onStand = r.onTurn) : (m.putRoom k r').hall.Listed := by
  refine ⟨hl.fit, fun r₁ hr₁ => ?_⟩
  rcases List.mem_or_eq_of_mem_set hr₁ with hr₁ | rfl
  · exact hl.played r₁ hr₁
  · exact (hl.played r (List.mem_of_getElem? hr)).moved hr' hp

/-- The turn passes between two named clients. -/
theorem handedOver (hl : m.hall.Listed) (hc : m.clients[i]? = some c)
    (hd : m.clients[j]? = some d) (hij : i ≠ j) (hcn : c.nick ≠ []) (hdn : d.nick ≠ [])
    (t : Text) : (m.handedOver i j c.state t).hall.Listed := by
  refine ⟨?_, fun r hr => (hl.played r hr).mono fun n hn => hn.modify₂ hc hd hij ?_ ?_⟩
  · exact forall_modify₂ hl.fit hc hd hij ((hl.fit c (List.mem_of_getElem? hc)).handOver hcn).1
      ((hl.fit d (List.mem_of_getElem? hd)).standBy hdn)
  · exact fun _ _ => ⟨handOver_nick _ _, handOver_roomId _ _⟩
  · exact fun _ _ => ⟨rfl, rfl⟩

theorem requestMove (hl : m.hall.Listed) (hb : (m.world socks).Base) {t : Text} {b : ℤ}
    (h : m.requestMove i t = .ok (m', b)) : m'.hall.Listed := by
  obtain ⟨c, k, r, r', -, hk, hr, hid, hcases⟩ := requestMove_outcome h
  rcases hcases with ⟨hproc, ht, hs, rfl⟩ | ⟨hproc, ht, hs, a, d, ha, hd, hover⟩
  all_goals
    obtain ⟨-, hblack, hwhite, -⟩ := RoomHnefatafl.processMove_players hproc
    have hsame : SameRoom r r' := ⟨hid, hblack, hwhite⟩
  · exact hl.putRoom hr hsame (Or.inl ⟨ht, hs⟩)
  have hput := hl.putRoom hr hsame (Or.inr ⟨ht, hs⟩)
  -- the searches find the two players of the room
  have hplay := hl.played r (List.mem_of_getElem? hr)
  obtain ⟨x, e, y, e', ho, hen, hen'⟩ :=
    opponents_of_sits hb.ids hr hplay.ne hplay.onTurn hplay.onStand
  have hx : m.findClientByNick r.onTurn = x := by
    rw [← hen]
    exact findClientByNick_eq hb.nicks ho.fst ho.fstName
  have hy : m.findClientByNick r.onStand = y := by
    rw [← hen']
    exact findClientByNick_eq hb.nicks ho.snd ho.sndName
  rw [hx, hy] at hover
  rw [hy] at ha
  obtain rfl : e' = a := Option.some.inj (ho.snd.symm.trans ha)
  have hpassed := hput.handedOver ho.snd ho.fst ho.ne.symm ho.sndName ho.fstName t
  rcases hover with ⟨-, rfl⟩ | ⟨-, hdestroy⟩
  · exact hpassed
  · have hroom : c.roomId = r'.roomId := ((room_of_getRoomById (hk ▸ hr)).symm.trans hid.symm)
    have hne : r'.roomId ≠ 0 := by
      rw [hid]
      exact (hb.bound r (List.mem_of_getElem? hr)).1.ne'
    rw [hroom] at hdestroy
    -- being told the result changes neither the clients nor the rooms
    obtain ⟨told, htold, hdestroy⟩ : ∃ told : ClientManager,
        told.hall = ((m.putRoom k r').handedOver y x e'.state t).hall ∧
          told.destroyRoom r'.roomId y x = .ok m' :=
      ⟨_, (ClientManager.hall_sendToClient _ _ _).trans (ClientManager.hall_sendToClient _ _ _),
        hdestroy⟩
    have ho' := (ho.symm.handedOver hid (ht.trans hen'.symm) (hs.trans hen.symm) t).of_hall htold
    have hlobby : told.lobby = (m.putRoom k r').lobby := congrArg Hall.lobby htold
    have hids : DistinctKeys (fun r : RoomHnefatafl => some r.roomId) told.lobby.games := by
      rw [hlobby]
      exact hb.ids.set_of_key_eq hr (congrArg some hid)
    exact destroyRoom (htold ▸ hpassed) hids ho'.room hne ho'.fst ho'.snd ho'.ne ho'.fstName
      ho'.sndName ho'.fstRoom ho'.sndRoom hdestroy

/-- The opponent of a client is a named client in the same room, and another one. -/
theorem opponent (hl : m.hall.Listed) (hb : (m.world socks).Base) {n : Text}
    (hopp : m.lobby.getOpponentOf c = .ok n) :
    ∃ (k : ℕ) (r : RoomHnefatafl) (d : Client), m.lobby.games[k]? = some r ∧
      r.roomId = c.roomId ∧ m.clients[m.findClientByNick n]? = some d ∧ d.nick ≠ [] ∧
      d.nick ≠ c.nick ∧ d.roomId = r.roomId := by
  obtain ⟨r, hderef, hn⟩ := bind_eq_ok.1 hopp
  rw [lobby_deref_eq_ok] at hderef
  have hplay := hl.played r (List.mem_of_getElem? hderef)
  have hseat : Sits m.clients n r.roomId ∧ n ≠ c.nick := by
    have hn := Except.ok.inj hn
    split_ifs at hn with hturn
    · subst hn
      exact ⟨hplay.onStand, fun hsame => hplay.ne (hturn.symm.trans hsame.symm)⟩
    · subst hn
      exact ⟨hplay.onTurn, fun hsame => hturn hsame.symm⟩
  obtain ⟨⟨hne, d, hd, hdn, hdr⟩, hnc⟩ := hseat
  obtain ⟨j, hj⟩ := List.mem_iff_getElem?.1 hd
  subst hdn
  refine ⟨_, r, d, hderef, room_of_getRoomById hderef, ?_, hne, hnc, hdr⟩
  rw [findClientByNick_eq hb.nicks hj hne]
  exact hj

/-- A named client in a room and its opponent go back to the lobby. -/
theorem leaveRoom (hl : m.hall.Listed) (hb : (m.world socks).Base) (hc : m.clients[i]? = some c)
    (hcn : c.nick ≠ []) {n : Text} (hopp : m.lobby.getOpponentOf c = .ok n) {m₁ : ClientManager}
    (hcs : m₁.clients = m.clients) (hlobby : m₁.lobby = m.lobby)
    (h : m₁.destroyRoom c.roomId i (m.findClientByNick n) = .ok m') :
    m'.hall.Listed ∧ ∃ e, m'.clients[i]? = some e ∧ e.roomId = 0 := by
  obtain ⟨k, r, d, hr, hid, hd, hdn, hdc, hdr⟩ := hl.opponent hb hopp
  have hij : i ≠ m.findClientByNick n := by
    intro hij
    rw [← hij] at hd
    exact hdc (congrArg Client.nick (Option.some.inj (hd.symm.trans hc)))
  have hne : r.roomId ≠ 0 := (hb.bound r (List.mem_of_getElem? hr)).1.ne'
  rw [← hid] at h
  rw [← hcs] at hc hd
  refine ⟨(hl.of_same hcs hlobby).destroyRoom (hlobby ▸ hb.ids) (hlobby ▸ hr) hne hc hd hij hcn hdn
    hid.symm hdr h, ?_⟩
  exact roomId_destroyRoom hij h

/-- A client in the lobby takes over a Disconnected session. -/
theorem takeOver (hl : m.hall.Listed) (hb : (m.world socks).Base) (hc : m.clients[i]? = some c)
    (hsock : 0 ≤ c.socketNum) (hd : m.clients[j]? = some d) {n : Text} (hn : d.nick = n)
    (hne : n ≠ []) (hs : d.state = .disconnected) (hroom : c.roomId = 0) :
    ((m.modify i (ClientManager.takeOver n d)).modify j expire).hall.Listed := by
  subst hn
  have hfit := hl.fit c (List.mem_of_getElem? hc)
  have hdfit := hl.fit d (List.mem_of_getElem? hd)
  have hij : i ≠ j := by
    rintro rfl
    obtain rfl : c = d := Option.some.inj (hc.symm.trans hd)
    have hgone := hfit.gone hs
    omega
  refine ⟨?_, fun r hr => (hl.played r hr).mono fun n hseat => ?_⟩
  · exact forall_modify₂ hl.fit hc hd hij (hfit.takeOver hdfit hne hs hsock) (hdfit.expire hs)
  · exact hseat.transfer (hb.bound r hr).1.ne' hc hd hij hroom rfl rfl

theorem requestConnect (hl : m.hall.Listed) (hb : (m.world socks).Base)
    (hc : m.clients[i]? = some c) (hsock : 0 ≤ c.socketNum) {n : Nick}
    (ho : m.FairFrame c (.connect n)) {b : ℤ}
    (h : m.requestConnect i n.text c.state = .ok (m', b)) : m'.hall.Listed := by
  have hfit := hl.fit c (List.mem_of_getElem? hc)
  obtain ⟨c', hc', hcases⟩ := requestConnect_cases h
  obtain rfl : c = c' := Option.some.inj (hc.symm.trans hc')
  rcases hcases with ⟨-, ⟨hlast, hstate, rfl⟩ | ⟨rfl, -⟩⟩ | ⟨-, rfl⟩ | ⟨d, hd, hn, hip, hrec⟩
  · -- the first nick of the client
    have hnew : c.logical = .new := logical_new hlast hstate
    have hroom : c.roomId = 0 := hfit.roomId_eq_zero (by rw [hnew]; rfl)
    exact hl.client hc rfl rfl (hfit.enter n.ne_nil hnew) fun r hr _ hid =>
      absurd (hid.symm.trans hroom) (hb.bound r hr).1.ne'
  · exact hl
  · exact hl
  · obtain ⟨hshort, hlong, hready, hnew⟩ := ho d (List.mem_of_getElem? hd) hn hip
    obtain ⟨d', hd', hcases⟩ := handleReconnection_cases hrec
    obtain rfl : d = d' := Option.some.inj (hd.symm.trans hd')
    rcases hcases with ⟨-, rfl⟩ | ⟨hs, hrep⟩ | ⟨hs, hrep⟩
    · exact hl
    · obtain ⟨hcs, hlobby⟩ := reportReconnection_same hrep
      exact hl.restore hc hsock (hshort hs) hcs hlobby
    · obtain ⟨hcs, hlobby⟩ := reportReconnection_same hrep
      have hdisc : d.state = .disconnected := (hs.resolve_left hnew).resolve_left hready
      have htaken := hl.takeOver hb hc hsock hd hn n.ne_nil hdisc (hlong hdisc)
      exact htaken.of_same hcs hlobby

theorem serveFrame (hl : m.hall.Listed) (hb : (m.world socks).Base) (hc : m.clients[i]? = some c)
    (hsock : 0 ≤ c.socketNum) {d : Frame} (ho : m.FairFrame c d)
    (hacc : d.acceptedIn c.state = true) {b : ℤ}
    (h : m.serveFrame i c.state d = .ok (m', b)) : m'.hall.Listed := by
  have hfit := hl.fit c (List.mem_of_getElem? hc)
  cases d with
  | ping =>
    cases h
    split_ifs with hs
    · have hinacc : c.state.inaccessible = true := by
        rcases hs with hs | hs <;> rw [hs] <;> rfl
      exact hl.restore hc hsock (Or.inr (Or.inl hinacc)) rfl rfl
    · exact hl
  | pong =>
    cases h
    exact hl.restore hc hsock ho rfl rfl
  | connect n => exact hl.requestConnect hb hc hsock ho h
  | ready =>
    cases h
    have hlobby : c.nick ≠ [] ∧ c.roomId = 0 := by
      by_cases hp : c.state = .pinged
      · exact ho hp
      · exact hfit.lobby (Or.inl (by simpa [Frame.acceptedIn, hp] using hacc))
    exact hl.client hc rfl rfl (hfit.setReady hlobby.1 hlobby.2 hsock) fun _ _ _ _ => ⟨rfl, rfl⟩
  | move t => exact hl.requestMove hb h
  | leave =>
    obtain ⟨c', n, m₁, hc', hopp, hsend, hdestroy⟩ := requestLeave_cases h
    obtain rfl : c = c' := Option.some.inj (hc.symm.trans hc')
    obtain ⟨hcs, hlobby⟩ := sendToOpponentOf_same hsend
    obtain ⟨k, r, -, hr, hid, -⟩ := hl.opponent hb hopp
    have hroom : c.roomId ≠ 0 := hid ▸ (hb.bound r (List.mem_of_getElem? hr)).1.ne'
    exact (hl.leaveRoom hb hc (hfit.named_of_room hsock hroom) hopp hcs hlobby hdestroy).1
  | chat msg =>
    obtain ⟨m₁, hsend, h₁⟩ := bind_eq_ok.1 h
    cases h₁
    obtain ⟨hcs, hlobby⟩ := sendToOpponentOf_same hsend
    exact hl.of_same hcs hlobby
  | ok => cases hacc

/-- A client is erased that has no name or is in the lobby. -/
theorem erase (hl : m.hall.Listed) (hb : (m.world socks).Base) (hc : m.clients[i]? = some c)
    (hleft : c.nick = [] ∨ c.roomId = 0) (hcs : m'.clients = m.clients.eraseIdx i)
    (hlobby : m'.lobby = m.lobby) : m'.hall.Listed := by
  refine ⟨fun e he => ?_, fun r hr => ?_⟩
  · have he : e ∈ m.clients.eraseIdx i := hcs ▸ he
    exact hl.fit e (List.mem_of_mem_eraseIdx he)
  · have hr : r ∈ m.lobby.games := hlobby ▸ hr
    change Played m'.clients r
    rw [hcs]
    have hpos := (hb.bound r hr).1.ne'
    exact (hl.played r hr).mono fun n hn =>
      hn.eraseIdx hc (hleft.imp id fun hzero hid => hpos (hid.symm.trans hzero))

/-- An instance without a connection is erased: a player leaves its game. -/
theorem eraseClient (hl : m.hall.Listed) (hb : (m.world socks).Base) (hc : m.clients[i]? = some c)
    (hsock : c.socketNum < 0) (h : m.eraseClient i = .ok m') : m'.hall.Listed := by
  have hfit := hl.fit c (List.mem_of_getElem? hc)
  obtain ⟨c', hc', hcases⟩ := eraseClient_cases h
  obtain rfl : c = c' := Option.some.inj (hc.symm.trans hc')
  rcases hcases with ⟨hnot, rfl⟩ | ⟨⟨hn, hroom, -⟩, n, m₁, m₂, hopp, hcs, hlobby, hdestroy, rfl⟩
  · refine hl.erase hb hc ?_ rfl rfl
    by_contra hcon
    rw [not_or] at hcon
    exact hnot ⟨hcon.1, hcon.2, hfit.away hsock hcon.2⟩
  · -- the erased player is in the lobby by now
    obtain ⟨hfree, e, he, heroom⟩ := hl.leaveRoom hb hc hn hopp hcs hlobby hdestroy
    have hsame : m.Updates m₁ := .of_eq hcs hlobby
    have hb₂ := hb.upds ((hsame.trans (updates_destroyRoom hdestroy)) socks)
    exact hfree.erase hb₂ he (Or.inr heroom) rfl rfl

/-- A Ready client is in the lobby and has a name. -/
theorem lobby_of_ready (hl : m.hall.Listed) (hc : m.clients[i]? = some c)
    (hs : c.state = .ready) : c.nick ≠ [] ∧ c.roomId = 0 :=
  (hl.fit c (List.mem_of_getElem? hc)).lobby (Or.inr hs)

/-- A client in the lobby is no player of a room. -/
theorem not_player (hl : m.hall.Listed) (hb : (m.world socks).Base) (hc : m.clients[i]? = some c)
    (hn : c.nick ≠ []) (hroom : c.roomId = 0) (hr : r ∈ m.lobby.games) :
    c.nick ≠ r.onTurn ∧ c.nick ≠ r.onStand := by
  have hplay := hl.played r hr
  have helsewhere : ¬ Sits m.clients c.nick r.roomId := by
    rintro ⟨-, e, he, hen, heroom⟩
    have hsame : e = c := hb.nicks.eq_of_mem he (List.mem_of_getElem? hc)
      (nickKey_eq_some.2 ⟨hen, hen ▸ hn⟩) (nickKey_eq_some.2 ⟨rfl, hn⟩)
    have hpos := (hb.bound r hr).1
    rw [← heroom, hsame, hroom] at hpos
    exact absurd hpos (lt_irrefl 0)
  refine ⟨fun hturn => helsewhere ?_, fun hstand => helsewhere ?_⟩
  · rw [hturn]
    exact hplay.onTurn
  · rw [hstand]
    exact hplay.onStand

theorem paired (hl : m.hall.Listed) (hb : (m.world socks).Base) (h : m.Paired m' i j c d) :
    m'.hall.Listed := by
  obtain ⟨hcn, hcroom⟩ := hl.lobby_of_ready h.fst h.fstReady
  obtain ⟨hdn, hdroom⟩ := hl.lobby_of_ready h.snd h.sndReady
  have hcfit := hl.fit c (List.mem_of_getElem? h.fst)
  have hdfit := hl.fit d (List.mem_of_getElem? h.snd)
  refine ⟨?_, fun r hr => ?_⟩
  · change ∀ c ∈ m'.clients, c.Fit
    rw [h.clients]
    exact forall_modify₂ hl.fit h.fst h.snd h.lt.ne (hcfit.start h.fstReady rfl)
      (hdfit.start h.sndReady rfl)
  · change r ∈ m'.lobby.games at hr
    change Played m'.clients r
    rw [h.lobby] at hr
    rw [h.clients]
    rcases List.mem_append.1 hr with hr | hr
    · have hpos := (hb.bound r hr).1.ne
      refine (hl.played r hr).mono fun n hn => hn.modify₂ h.fst h.snd h.lt.ne ?_ ?_
      · exact fun _ hid => absurd (hcroom.symm.trans hid) hpos
      · exact fun _ hid => absurd (hdroom.symm.trans hid) hpos
    · -- the new room
      rw [List.mem_singleton.1 hr]
      refine ⟨Or.inl ⟨rfl, rfl⟩, fun hsame => ?_, ?_, ?_⟩
      · exact h.lt.ne (eq_of_nick hb.nicks h.fst h.snd hsame hcn)
      · exact sits_fst h.fst h.lt.ne hcn
      · exact sits_snd h.snd h.lt.ne hdn

theorem pairLoop {fuel : ℕ} (hl : m.hall.Listed) (hb : (m.world socks).Base)
    (h : pairLoop fuel m i = .ok m') : m'.hall.Listed := by
  have hpairs := pairs_of_pairLoop h
  clear h
  have hboth : m'.hall.Listed ∧ (m'.world socks).Base := by
    induction hpairs with
    | refl => exact ⟨hl, hb⟩
    | tail _ hp ih =>
      obtain ⟨i, j, c, d, hp⟩ := hp
      exact ⟨ih.1.paired ih.2 hp, ih.2.upds (updates_paired hp socks)⟩
  exact hboth.1

theorem pingClients (hl : m.hall.Listed) (h : m.pingClients = .ok m') : m'.hall.Listed := by
  obtain ⟨hcs, hlobby⟩ := pingClients_spec h
  refine ⟨fun e he => ?_, fun r hr => ?_⟩
  · have he : e ∈ m.clients.map pinged := hcs ▸ he
    obtain ⟨c, hc, rfl⟩ := List.mem_map.1 he
    exact (hl.fit c hc).pinged.1
  · have hr : r ∈ m.lobby.games := hlobby ▸ hr
    change Played m'.clients r
    rw [hcs]
    refine (hl.played r hr).mono fun n hn => ?_
    obtain ⟨hne, c, hc, rfl, hid⟩ := hn
    obtain ⟨-, hnick, hroom, -⟩ := (hl.fit c hc).pinged
    exact ⟨hne, ClientManager.pinged c, List.mem_map.2 ⟨c, hc, rfl⟩, hnick, hroom.trans hid⟩

end Listed

end Hall

end HnefServer
